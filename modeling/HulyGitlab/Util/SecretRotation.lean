import HulyGitlab.Lib.JsString

/-!
# Signatures under rotating secrets

`signHmac` signs with the primary secret; `verifyHmac` accepts the primary and,
while secrets are rotated, the previous one. The digest is a parameter.
-/

namespace HulyGitlab

structure SecretConfig where
  primary : String
  previous : Option String
  deriving DecidableEq

/-- The secrets a signature may be made with. -/
def SecretConfig.accepted (secrets : SecretConfig) : List String :=
  secrets.primary :: secrets.previous.toList

inductive SecretKind
  | primary
  | previous
  deriving DecidableEq

/-- `digest('hex')`. -/
def toHex (bytes : List (Fin 256)) : List Char :=
  bytes.flatMap fun b : Fin 256 => [hexDigit (b.val / 16), hexDigit (b.val % 16)]

/-- `Buffer.from(sig, 'hex')`, which stops at what is no pair of digits. -/
def fromHex : List Char → List (Fin 256)
  | a :: b :: rest =>
      match hexValue a, hexValue b with
      | some high, some low => Fin.ofNat 256 (16 * high + low) :: fromHex rest
      | _, _ => []
  | _ => []

def isHexLengthValid (sig : List Char) : Bool :=
  0 < sig.length && sig.length % 2 = 0 && sig.all fun c => (hexValue c).isSome

section Hmac

-- The bytes of HMAC-SHA256 of a payload under a secret.
variable (hmacSha256 : String → String → List (Fin 256))

def signHmac (payload : String) (secrets : SecretConfig) : String :=
  String.ofList (toHex (hmacSha256 secrets.primary payload))

def verifyHmac (payload providedSig : String) (secrets : SecretConfig) : Option SecretKind :=
  if isHexLengthValid providedSig.toList then
    let providedBuf := fromHex providedSig.toList
    if providedBuf = hmacSha256 secrets.primary payload then some .primary
    else
      match secrets.previous with
      | none => none
      | some previous =>
          if providedBuf = hmacSha256 previous payload then some .previous else none
  else none

end Hmac

theorem fromHex_toHex (bytes : List (Fin 256)) : fromHex (toHex bytes) = bytes := by
  induction bytes with
  | nil => rfl
  | cons b bytes ih =>
      have hhigh := hexValue_hexDigit (b / 16) (Nat.div_lt_of_lt_mul b.isLt)
      have hlow := hexValue_hexDigit (b % 16) (by omega)
      have hbyte : Fin.ofNat 256 (16 * (b / 16 : Nat) + (b % 16 : Nat)) = b := by
        rw [Nat.div_add_mod]
        exact Fin.ofNat_val_eq_self b
      have hcons : toHex (b :: bytes) = hexDigit (b / 16) :: hexDigit (b % 16) :: toHex bytes := rfl
      rw [hcons, fromHex, hhigh, hlow]
      simp only [hbyte, ih]

theorem isHexLengthValid_toHex {bytes : List (Fin 256)} (h : bytes ≠ []) :
    isHexLengthValid (toHex bytes) = true := by
  have hlen : (toHex bytes).length = 2 * bytes.length := by
    simp [toHex, List.length_flatMap, Nat.mul_comm]
  have hpos := List.length_pos_of_ne_nil h
  have hall : (toHex bytes).all (fun c => (hexValue c).isSome) = true := by
    rw [List.all_eq_true]
    intro c hc
    obtain ⟨b, -, hc⟩ := List.mem_flatMap.mp hc
    rcases List.mem_cons.mp hc with rfl | hc
    · rw [hexValue_hexDigit _ (Nat.div_lt_of_lt_mul b.isLt)]
      rfl
    · rw [List.mem_singleton.mp hc, hexValue_hexDigit _ (by omega)]
      rfl
  simp only [isHexLengthValid, hlen, hall, Bool.and_eq_true, decide_eq_true_eq, and_true]
  omega

variable {hmacSha256 : String → String → List (Fin 256)} {payload sig : String}
  {secrets : SecretConfig}

/-- A signature is accepted when it has the right form and is the digest under
one of the secrets. -/
theorem verifyHmac_isSome_iff :
    (verifyHmac hmacSha256 payload sig secrets).isSome ↔
      isHexLengthValid sig.toList = true ∧
        ∃ secret ∈ secrets.accepted, hmacSha256 secret payload = fromHex sig.toList := by
  unfold verifyHmac SecretConfig.accepted
  cases hvalid : isHexLengthValid sig.toList with
  | false => simp
  | true =>
      by_cases hprimary : fromHex sig.toList = hmacSha256 secrets.primary payload
      · simp [hprimary]
      · cases secrets.previous with
        | none => simp [hprimary, Ne.symm hprimary]
        | some previous =>
            by_cases hprevious : fromHex sig.toList = hmacSha256 previous payload
            · simp [hprevious, hprevious ▸ hprimary]
            · simp [hprimary, hprevious, Ne.symm hprimary, Ne.symm hprevious]

/-- A signature is accepted as long as its secret is the primary or the previous one. -/
theorem verifyHmac_signHmac {signer : SecretConfig} (hne : hmacSha256 signer.primary payload ≠ [])
    (h : signer.primary ∈ secrets.accepted) :
    (verifyHmac hmacSha256 payload (signHmac hmacSha256 payload signer) secrets).isSome := by
  rw [verifyHmac_isSome_iff, signHmac, String.toList_ofList, fromHex_toHex]
  exact ⟨isHexLengthValid_toHex hne, signer.primary, h, rfl⟩

end HulyGitlab
