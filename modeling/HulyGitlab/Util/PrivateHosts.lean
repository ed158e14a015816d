import HulyGitlab.Lib.IpAddress
import HulyGitlab.Util.UrlValidation

/-!
# Private addresses as GitLab hosts

Which literals denote a private address, and which of them
`validateGitLabBaseUrl` lets through. The host of a URL is the canonical text
of its address: dotted decimal, or compressed and in brackets.
-/

namespace HulyGitlab

open IpAddress

/-- Loopback, unspecified, the private networks, the carrier's, and link-local. -/
def privateBlocks : List (Nat × Nat) :=
  [(127 * 2 ^ 24, 8), (0, 32), (10 * 2 ^ 24, 8), (172 * 2 ^ 24 + 16 * 2 ^ 16, 12),
    (192 * 2 ^ 24 + 168 * 2 ^ 16, 16), (100 * 2 ^ 24 + 64 * 2 ^ 16, 10),
    (169 * 2 ^ 24 + 254 * 2 ^ 16, 16)]

def IPv4Private (ip : IPv4) : Prop :=
  ∃ block ∈ privateBlocks, InBlock 32 block.1 block.2 ip.toNat

/-- Loopback, unspecified, unique-local, link-local, and a mapped private address. -/
def IPv6Private (ip : IPv6) : Prop :=
  ip.toNat = 1 ∨ ip.toNat = 0 ∨ InBlock 128 (0xfc00 * 2 ^ 112) 7 ip.toNat ∨
    InBlock 128 (0xfe80 * 2 ^ 112) 10 ip.toNat ∨ ∃ v4, IPv4Private v4 ∧ ip.Maps v4

def PrivateIPv6Literal (hostname : String) : Prop :=
  ∃ ip, IPv6Private ip ∧ hostname = ip.bracketed

/-- The host is a literal of a private address. -/
def PrivateLiteral (hostname : String) : Prop :=
  (∃ ip, IPv4Private ip ∧ hostname = ip.dotted) ∨ PrivateIPv6Literal hostname

/-- What `net.isIP` answers for the hosts of URLs: it knows the dotted decimal
text, and no address has brackets. -/
structure UrlPlatform.IsIPSpec (platform : UrlPlatform) : Prop where
  dotted : ∀ ip : IPv4, platform.isIP ip.dotted = 4
  bracketed : ∀ ip : IPv6, platform.isIP ip.bracketed = 0

/-- A URL that passes every check but that of the address. -/
def UrlPlatform.PassesOthers (platform : UrlPlatform) (allowedRaw : Option String) (url : Url) :
    Prop :=
  (url.protocol = "http:" ∨ url.protocol = "https:") ∧ url.username = "" ∧ url.password = "" ∧
    ∃ entry ∈ allowedHosts allowedRaw, hostAllowed platform entry url.hostname

theorem parseDigits_decimal (n : Nat) : parseDigits (String.ofList (decimal n)) = some n := by
  have hdigit : ∀ c ∈ decimal n, c.isDigit = true :=
    fun c hc => Nat.isDigit_of_mem_toDigits (by decide) (by decide) hc
  have hne : decimal n ≠ [] := Nat.toDigits_ne_nil
  have hvalue : (decimal n).foldl (fun n c => 10 * n + (c.toNat - '0'.toNat)) 0 = n := by
    rw [← Nat.ofDigitChars_eq_foldl]
    exact Nat.ofDigitChars_ten_toDigits
  simp only [parseDigits, String.toList_ofList, List.takeWhile_eq_self_iff.mpr hdigit, if_neg hne,
    hvalue]

theorem isPrivateIpv4_dotted (ip : IPv4) :
    isPrivateIpv4 ip.dotted ↔
      ip.a.val = 10 ∨ ip.a.val = 127 ∨ ip.a.val = 0 ∨ (ip.a.val = 169 ∧ ip.b.val = 254) ∨
        ((ip.a.val = 172 ∧ 16 ≤ ip.b.val) ∧ ip.b.val ≤ 31) ∨
          (ip.a.val = 192 ∧ ip.b.val = 168) ∨ ((ip.a.val = 100 ∧ 64 ≤ ip.b.val) ∧ ip.b.val ≤ 127) := by
  simp only [isPrivateIpv4, IPv4.splitOn_dotted, IPv4.parts, List.map_cons, List.map_nil,
    parseDigits_decimal, Bool.or_eq_true, Bool.and_eq_true, decide_eq_true_eq, or_assoc]

/-- Every private address is caught by its first two octets. -/
theorem isPrivateIpv4_of_private {ip : IPv4} (h : IPv4Private ip) : isPrivateIpv4 ip.dotted := by
  rw [isPrivateIpv4_dotted]
  obtain ⟨block, hblock, hin⟩ := h
  have ha := ip.a.isLt
  have hb := ip.b.isLt
  have hc := ip.c.isLt
  have hd := ip.d.isLt
  simp only [privateBlocks, List.mem_cons, List.not_mem_nil, or_false] at hblock
  obtain rfl | rfl | rfl | rfl | rfl | rfl | rfl := hblock <;>
    simp only [InBlock, IPv4.toNat, Nat.reduceSub, Nat.reducePow, Nat.reduceMul, Nat.reduceAdd,
      Nat.reduceDiv] at hin <;> omega

section Accepts

variable {platform : UrlPlatform} {allowedRaw : Option String} {raw : String} {url : Url}

theorem validate_iff (hurl : platform.parseUrl raw = some url) :
    validateGitLabBaseUrl platform allowedRaw raw ↔
      platform.PassesOthers allowedRaw url ∧
        ¬ (platform.isIP url.hostname ≠ 0 ∧
          isPrivateIp platform url.hostname (platform.isIP url.hostname)) := by
  simp only [validateGitLabBaseUrl, hurl, UrlPlatform.PassesOthers, Bool.and_eq_true,
    Bool.or_eq_true, decide_eq_true_eq, Bool.not_eq_true', Bool.and_eq_false_iff, List.any_eq_true,
    decide_eq_false_iff_not]
  grind

theorem dotted_rejected (hp : platform.IsIPSpec) (hurl : platform.parseUrl raw = some url)
    {ip : IPv4} (hip : IPv4Private ip) (hhost : url.hostname = ip.dotted) :
    ¬ validateGitLabBaseUrl platform allowedRaw raw := by
  rw [validate_iff hurl, hhost, hp.dotted]
  rintro ⟨-, hpublic⟩
  exact hpublic ⟨by decide, isPrivateIpv4_of_private hip⟩

theorem bracketed_accepted (hp : platform.IsIPSpec) (hurl : platform.parseUrl raw = some url)
    {ip : IPv6} (hhost : url.hostname = ip.bracketed) :
    validateGitLabBaseUrl platform allowedRaw raw ↔ platform.PassesOthers allowedRaw url := by
  rw [validate_iff hurl, hhost, hp.bracketed]
  simp

end Accepts

/-- An accepted URL has no private literal as its host, unless the literal is
one of version 6 and the list lets it through. -/
theorem accepted_not_private_iff (platform : UrlPlatform) (hp : platform.IsIPSpec)
    (allowedRaw : Option String) (raw : String) :
    (validateGitLabBaseUrl platform allowedRaw raw →
      ∀ url, platform.parseUrl raw = some url → ¬ PrivateLiteral url.hostname) ↔
    ∀ url, platform.parseUrl raw = some url → PrivateIPv6Literal url.hostname →
      ¬ platform.PassesOthers allowedRaw url := by
  constructor
  · intro h url hurl hlit hothers
    obtain ⟨ip, hip, hhost⟩ := hlit
    exact h ((bracketed_accepted hp hurl hhost).mpr hothers) url hurl (.inr ⟨ip, hip, hhost⟩)
  · intro h haccepted url hurl hlit
    obtain ⟨ip, hip, hhost⟩ | hlit := hlit
    · exact dotted_rejected hp hurl hip hhost haccepted
    · exact h url hurl hlit ((validate_iff hurl).mp haccepted).1

/-- A platform that knows the dotted decimal texts, and one URL. -/
def loopbackPlatform : UrlPlatform where
  parseUrl raw := if raw = "http://[::1]/" then some ⟨"http:", "", "", "[::1]"⟩ else none
  isIP s :=
    match (s.splitOn ".").map parseDigits with
    | [some a, some b, some c, some d] =>
        if h : a < 256 ∧ b < 256 ∧ c < 256 ∧ d < 256 then
          if (IPv4.mk ⟨a, h.1⟩ ⟨b, h.2.1⟩ ⟨c, h.2.2.1⟩ ⟨d, h.2.2.2⟩).dotted = s then 4 else 0
        else 0
    | _ => 0
  toLowerCase := String.toLower

theorem loopbackPlatform_isIPSpec : loopbackPlatform.IsIPSpec where
  dotted ip := by
    simp [loopbackPlatform, IPv4.splitOn_dotted, IPv4.parts, parseDigits_decimal]
  bracketed ip := by
    have hsplit := splitOn_single '.' ('[' :: (ip.serialize ++ [']']))
    obtain ⟨part, parts, hparts⟩ := List.exists_cons_of_ne_nil
      (List.splitOn_ne_nil '.' (ip.serialize ++ [']']))
    rw [List.splitOn_cons_eq_if_modifyHead, hparts, if_neg (by decide)] at hsplit
    have hbracket : parseDigits (String.ofList ('[' :: part)) = none := by
      simp [parseDigits]
    have htext : ip.bracketed.splitOn "." = _ := hsplit
    simp only [loopbackPlatform, htext, List.modifyHead_cons, List.map_cons, hbracket]

def loopback : IPv6 := .loopback

theorem loopback_bracketed : "[::1]" = loopback.bracketed := by decide +kernel

theorem allowedHosts_any : allowedHosts (some "*") = ["*"] := by
  have hsplit : "*".splitOn "," = ["*"] := splitOn_single ',' ['*']
  have hlist : allowedHosts (some "*") =
      (("*".splitOn ",").map fun s => String.ofList (trim s.toList)).filter (· ≠ "") := by
    simp [allowedHosts]
  rw [hlist, hsplit]
  decide +kernel

/-- The loopback of version 6 is accepted when every host is. -/
theorem loopback_accepted :
    ¬ ∀ (platform : UrlPlatform) (allowedRaw : Option String) (raw : String), platform.IsIPSpec →
      validateGitLabBaseUrl platform allowedRaw raw →
        ∀ url, platform.parseUrl raw = some url → ¬ PrivateLiteral url.hostname := by
  intro h
  have haccepted : validateGitLabBaseUrl loopbackPlatform (some "*") "http://[::1]/" := by
    refine (bracketed_accepted loopbackPlatform_isIPSpec rfl loopback_bracketed).mpr
      ⟨.inl rfl, rfl, rfl, "*", ?_, by decide +kernel⟩
    rw [allowedHosts_any]
    exact List.mem_singleton_self "*"
  exact h loopbackPlatform (some "*") "http://[::1]/" loopbackPlatform_isIPSpec haccepted
    ⟨"http:", "", "", "[::1]"⟩ rfl (.inr ⟨loopback, .inl (by decide), loopback_bracketed⟩)

theorem accepted_not_private_iff_loopback :
    (validateGitLabBaseUrl loopbackPlatform (some "gitlab.com") "http://[::1]/" →
      ∀ url, loopbackPlatform.parseUrl "http://[::1]/" = some url →
        ¬ PrivateLiteral url.hostname) ↔
    ∀ url, loopbackPlatform.parseUrl "http://[::1]/" = some url →
      PrivateIPv6Literal url.hostname →
        ¬ loopbackPlatform.PassesOthers (some "gitlab.com") url :=
  accepted_not_private_iff loopbackPlatform loopbackPlatform_isIPSpec (some "gitlab.com")
    "http://[::1]/"

end HulyGitlab
