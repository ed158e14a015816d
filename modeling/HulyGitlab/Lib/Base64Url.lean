import Mathlib.Data.List.Basic

/-!
# The base64url text of a string

Three bytes of the UTF-8 encoding are four digits; what is left at the end is
written without padding. Only such texts are read back.
-/

namespace HulyGitlab.Base64Url

def alphabet : List Char :=
  "ABCDEFGHIJKLMNOPQRSTUVWXYZabcdefghijklmnopqrstuvwxyz0123456789-_".toList

def digit (n : Nat) : Char := alphabet.getD n 'A'

def value (c : Char) : Nat := alphabet.idxOf c

def encodeBytes : List UInt8 → List Char
  | a :: b :: c :: rest =>
      digit (a.toNat / 4) :: digit (a.toNat % 4 * 16 + b.toNat / 16) ::
        digit (b.toNat % 16 * 4 + c.toNat / 64) :: digit (c.toNat % 64) :: encodeBytes rest
  | [a, b] =>
      [digit (a.toNat / 4), digit (a.toNat % 4 * 16 + b.toNat / 16), digit (b.toNat % 16 * 4)]
  | [a] => [digit (a.toNat / 4), digit (a.toNat % 4 * 16)]
  | [] => []

/-- The first, second and third byte of a group, from the digits it lies in. -/
def byte1 (w x : Char) : UInt8 := UInt8.ofNat (value w * 4 + value x / 16)

def byte2 (x y : Char) : UInt8 := UInt8.ofNat (value x % 16 * 16 + value y / 4)

def byte3 (y z : Char) : UInt8 := UInt8.ofNat (value y % 4 * 64 + value z)

def decodeBytes : List Char → List UInt8
  | w :: x :: y :: z :: rest => byte1 w x :: byte2 x y :: byte3 y z :: decodeBytes rest
  | [w, x, y] => [byte1 w x, byte2 x y]
  | [w, x] => [byte1 w x]
  | _ => []

def encode (s : String) : String := String.ofList (encodeBytes s.toByteArray.data.toList)

def decode (s : String) : Option String :=
  (decodeBytes s.toList).toByteArray.utf8Decode?.map fun chars => String.ofList chars.toList

theorem value_digit : ∀ n < 64, value (digit n) = n := by decide

theorem ofNat_eq {a : UInt8} {n : Nat} (h : n = a.toNat) : UInt8.ofNat n = a := by
  rw [h, UInt8.ofNat_toNat]

theorem decodeBytes_encodeBytes (bytes : List UInt8) : decodeBytes (encodeBytes bytes) = bytes := by
  fun_induction encodeBytes bytes with
  | case1 a b c rest ih =>
      have ha := a.toNat_lt
      have hb := b.toNat_lt
      have hc := c.toNat_lt
      rw [decodeBytes, byte1, byte2, byte3, value_digit _ (by omega), value_digit _ (by omega),
        value_digit _ (by omega), value_digit _ (by omega), ih, ofNat_eq (a := a) (by omega),
        ofNat_eq (a := b) (by omega), ofNat_eq (a := c) (by omega)]
  | case2 a b =>
      have ha := a.toNat_lt
      have hb := b.toNat_lt
      rw [decodeBytes, byte1, byte2, value_digit _ (by omega), value_digit _ (by omega),
        value_digit _ (by omega), ofNat_eq (a := a) (by omega), ofNat_eq (a := b) (by omega)]
  | case3 a =>
      have ha := a.toNat_lt
      rw [decodeBytes, byte1, value_digit _ (by omega), value_digit _ (by omega),
        ofNat_eq (a := a) (by omega)]
  | case4 => rfl

theorem decode_encode (s : String) : decode (encode s) = some s := by
  have hbytes : s.toByteArray.data.toList.toByteArray = s.toList.utf8Encode := by
    rw [String.utf8Encode_toList]
    exact ByteArray.ext (by rw [List.data_toByteArray, Array.toArray_toList])
  rw [decode, encode, String.toList_ofList, decodeBytes_encodeBytes, hbytes,
    List.utf8Decode?_utf8Encode]
  simp

example : encode "⟨ok⟩" = "4p-ob2vin6k" := by decide +kernel

end HulyGitlab.Base64Url
