import HulyGitlab.Lib.JsString

/-!
# Percent escapes

`decodeURIComponent`: each escape is a byte, and the bytes of an escaped
character are its UTF-8 encoding.
-/

namespace HulyGitlab.UriComponent

/-- An escape at the head of a text. -/
def percentByte : List Char → Option (Nat × List Char)
  | p :: a :: b :: rest =>
      if p = '%' then
        match hexValue a, hexValue b with
        | some high, some low => some (16 * high + low, rest)
        | _, _ => none
      else none
  | _ => none

/-- `n` escapes of continuation bytes, added to the bits read before. -/
def continuation : Nat → Nat → List Char → Option (Nat × List Char)
  | 0, bits, s => some (bits, s)
  | n + 1, bits, s =>
      match percentByte s with
      | none => none
      | some (b, rest) =>
          if 0x80 ≤ b ∧ b < 0xC0 then continuation n (64 * bits + (b - 0x80)) rest else none

/-- The number of continuation bytes, the first bits, and the least code point
that needs so many. -/
def leadingByte (b : Nat) : Option (Nat × Nat × Nat) :=
  if b < 0x80 then some (0, b, 0)
  else if 0xC0 ≤ b ∧ b < 0xE0 then some (1, b - 0xC0, 0x80)
  else if 0xE0 ≤ b ∧ b < 0xF0 then some (2, b - 0xE0, 0x800)
  else if 0xF0 ≤ b ∧ b < 0xF8 then some (3, b - 0xF0, 0x10000)
  else none

/-- The escaped character at the head of a text. -/
def escapedChar (s : List Char) : Option (Char × List Char) :=
  (percentByte s).bind fun first =>
    (leadingByte first.1).bind fun lead =>
      (continuation lead.1 lead.2.1 first.2).bind fun point =>
        if lead.2.2 ≤ point.1 ∧ point.1.isValidChar then some (Char.ofNat point.1, point.2)
        else none

def decodeFrom : Nat → List Char → Option (List Char)
  | _, [] => some []
  | 0, _ => none
  | fuel + 1, c :: cs =>
      if c = '%' then
        (escapedChar (c :: cs)).bind fun e => (decodeFrom fuel e.2).map (e.1 :: ·)
      else (decodeFrom fuel cs).map (c :: ·)

/-- `decodeURIComponent`; none when it throws a `URIError`. -/
def decodeURIComponent (s : List Char) : Option String :=
  (decodeFrom s.length s).map String.ofList

example : decodeURIComponent "caf%C3%A9%20%F0%9F%98%80".toList = some "café 😀" := by decide +kernel

end HulyGitlab.UriComponent
