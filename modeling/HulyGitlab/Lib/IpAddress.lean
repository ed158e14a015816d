import HulyGitlab.Lib.JsString

/-!
# IP addresses

Addresses of both versions, their texts as a URL parser writes them (dotted
decimal, and hexadecimal pieces with the longest run of zeros left out), and
the blocks of addresses with a common prefix.
-/

namespace HulyGitlab.IpAddress

structure IPv4 where
  a : Fin 256
  b : Fin 256
  c : Fin 256
  d : Fin 256
  deriving DecidableEq

structure IPv6 where
  pieces : List (Fin 65536)
  length_eq : pieces.length = 8
  deriving DecidableEq

def IPv6.loopback : IPv6 := ⟨[0, 0, 0, 0, 0, 0, 0, 1], rfl⟩

def IPv4.toNat (ip : IPv4) : Nat := ((ip.a * 256 + ip.b) * 256 + ip.c) * 256 + ip.d

def IPv6.toNat (ip : IPv6) : Nat := ip.pieces.foldl (fun n p => n * 65536 + p) 0

/-- The first `len` of the `width` bits are those of `net`. -/
def InBlock (width net len addr : Nat) : Prop :=
  addr / 2 ^ (width - len) = net / 2 ^ (width - len)

instance (width net len addr : Nat) : Decidable (InBlock width net len addr) :=
  inferInstanceAs (Decidable (_ = _))

def decimal (n : Nat) : List Char := Nat.toDigits 10 n

/-- The parts of the dotted decimal text. -/
def IPv4.parts (ip : IPv4) : List (List Char) :=
  [decimal ip.a, decimal ip.b, decimal ip.c, decimal ip.d]

def IPv4.dotted (ip : IPv4) : String := String.ofList (['.'].intercalate ip.parts)

/-- The number of zeros from the position on. -/
def zeroRun (pieces : List (Fin 65536)) (i : Nat) : Nat :=
  ((pieces.drop i).takeWhile (· = 0)).length

/-- Where the first of the longest runs of more than one zero begins. -/
def compress (pieces : List (Fin 65536)) : Option Nat :=
  (List.range pieces.length).foldl
    (fun best i =>
      if 1 < zeroRun pieces i ∧ ∀ j ∈ best, zeroRun pieces j < zeroRun pieces i then some i
      else best) none

def joinPieces (pieces : List (Fin 65536)) : List Char :=
  [':'].intercalate (pieces.map fun p => Nat.toDigits 16 p)

def IPv6.serialize (ip : IPv6) : List Char :=
  match compress ip.pieces with
  | none => joinPieces ip.pieces
  | some i =>
      joinPieces (ip.pieces.take i) ++ "::".toList ++
        joinPieces (ip.pieces.drop (i + zeroRun ip.pieces i))

/-- The host of a URL with this address. -/
def IPv6.bracketed (ip : IPv6) : String := String.ofList ('[' :: ip.serialize ++ [']'])

/-- The address whose last 32 bits are the other one, after `ffff`. -/
def IPv6.Maps (ip : IPv6) (v4 : IPv4) : Prop := ip.toNat = 0xffff * 2 ^ 32 + v4.toNat

theorem dot_not_mem_decimal (n : Nat) : '.' ∉ decimal n := by
  intro h
  exact absurd (Nat.isDigit_of_mem_toDigits (by decide) (by decide) h) (by decide)

/-- Splitting the dotted text gives its parts back. -/
theorem IPv4.splitOn_dotted (ip : IPv4) :
    ip.dotted.splitOn "." = ip.parts.map String.ofList := by
  have hparts : ∀ l ∈ ip.parts, '.' ∉ l := by
    simp only [IPv4.parts, List.forall_mem_cons, dot_not_mem_decimal, not_false_eq_true]
    simp
  have hsplit := splitOn_single '.' (['.'].intercalate ip.parts)
  rw [List.splitOn_intercalate '.' hparts (by simp [IPv4.parts])] at hsplit
  exact hsplit

end HulyGitlab.IpAddress
