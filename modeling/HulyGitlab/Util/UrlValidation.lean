import HulyGitlab.Lib.JsString

/-!
# Base URLs of GitLab

`validateGitLabBaseUrl`. The URL parser, `isIP` and `toLowerCase` of the
platform are parameters, and so is the value of `GITLAB_ALLOWED_HOSTS`.
-/

namespace HulyGitlab

/-- The parts of a `URL` that are looked at. -/
structure Url where
  protocol : String
  username : String
  password : String
  hostname : String
  deriving DecidableEq

structure UrlPlatform where
  parseUrl : String → Option Url
  isIP : String → Nat
  toLowerCase : String → String

/-- The digits that `Number.parseInt(p, 10)` reads; without any it is `NaN`. -/
def parseDigits (p : String) : Option Nat :=
  let digits := p.toList.takeWhile Char.isDigit
  if digits = [] then none
  else some (digits.foldl (fun n c => 10 * n + (c.toNat - '0'.toNat)) 0)

def isPrivateIpv4 (ip : String) : Bool :=
  match (ip.splitOn ".").map parseDigits with
  | [some a, some b, some _, some _] =>
      a = 10 || a = 127 || a = 0 || (a = 169 && b = 254) || (a = 172 && 16 ≤ b && b ≤ 31) ||
        (a = 192 && b = 168) || (a = 100 && 64 ≤ b && b ≤ 127)
  | _ => false

section Platform

variable (platform : UrlPlatform)

def isPrivateIpv6 (ip : String) : Bool :=
  let lower := platform.toLowerCase ip
  lower = "::1" || lower = "::" || lower.startsWith "fc" || lower.startsWith "fd" ||
    lower.startsWith "fe80:" ||
    (lower.startsWith "::ffff:" &&
      let v4 := (lower.drop "::ffff:".length).toString
      platform.isIP v4 = 4 && isPrivateIpv4 v4)

def isPrivateIp (ip : String) (version : Nat) : Bool :=
  if version = 4 then isPrivateIpv4 ip
  else if version = 6 then isPrivateIpv6 platform ip
  else false

/-- The entries of the variable; `gitlab.com` alone when it is unset or empty. -/
def allowedHosts (allowedRaw : Option String) : List String :=
  match allowedRaw with
  | none | some "" => ["gitlab.com"]
  | some raw => ((raw.splitOn ",").map fun s => String.ofList (trim s.toList)).filter (· ≠ "")

def hostAllowed (entry host : String) : Bool :=
  let e := platform.toLowerCase entry
  let hostLower := platform.toLowerCase host
  e = "*" || e = hostLower || (e.startsWith "." && hostLower.endsWith e)

/-- Whether `validateGitLabBaseUrl` returns; what it returns is not used by its callers. -/
def validateGitLabBaseUrl (allowedRaw : Option String) (raw : String) : Bool :=
  match platform.parseUrl raw with
  | none => false
  | some url =>
      (url.protocol = "http:" || url.protocol = "https:") &&
        (url.username = "" && url.password = "") &&
        !(platform.isIP url.hostname ≠ 0 &&
          isPrivateIp platform url.hostname (platform.isIP url.hostname)) &&
        (allowedHosts allowedRaw).any fun entry => hostAllowed platform entry url.hostname

end Platform

end HulyGitlab
