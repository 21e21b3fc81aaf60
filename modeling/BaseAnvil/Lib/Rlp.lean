import Mathlib.Algebra.Order.Group.Nat
import Mathlib.Data.List.Basic

/-!
# BaseAnvil.Lib.Rlp

Headers of the recursive length prefix format, and codecs for values that are encoded with them.

A reader tells lists from strings by the first byte: that of a list is above `0xc0` unless the list
is empty. Nothing else is assumed of the bytes here: a codec is a pair of functions that agree with
each other, and its encodings begin as those of lists do.
-/

namespace BaseAnvil.Lib.Rlp

inductive Error
  | overflow
  | leadingZero
  | inputTooShort
  | nonCanonicalSingleByte
  | nonCanonicalSize
  | unexpectedLength
  | unexpectedString
  | unexpectedList
  | listLengthMismatch (expected got : Nat)
  | custom (message : String)
deriving Repr, DecidableEq

/-- What is left of a buffer after reading from it. -/
abbrev Read (ε α : Type) := List UInt8 → Except ε (α × List UInt8)

/-- Applies a function to what is read. -/
def Read.map {ε α β : Type} (f : α → β) (read : Read ε α) : Read ε β := fun buf =>
  match read buf with
  | .ok (a, rest) => .ok (f a, rest)
  | .error e => .error e

@[simp]
theorem Read.map_of_ok {ε α β : Type} {f : α → β} {read : Read ε α} {buf rest : List UInt8} {a : α}
    (h : read buf = .ok (a, rest)) : read.map f buf = .ok (f a, rest) := by
  simp only [Read.map, h]

/-- What a mapped reader returns is the image of something. -/
theorem Read.exists_of_map_eq_ok {ε α β : Type} {f : α → β} {read : Read ε α}
    {buf rest : List UInt8} {b : β} (h : read.map f buf = .ok (b, rest)) : ∃ a, b = f a := by
  unfold Read.map at h
  split at h
  next a rest' _ =>
    cases h
    exact ⟨a, rfl⟩
  next => cases h

def emptyListCode : UInt8 := 0xc0

/-! ### Headers -/

structure Header where
  list : Bool
  payloadLength : Nat
deriving Repr, DecidableEq

/-- How headers are written and read. The header of a list that is not empty begins above the code
of the empty list. -/
structure HeaderCodec where
  encode : Header → List UInt8
  decode : Read Error Header
  encode_list : ∀ n, 0 < n → n < 2 ^ 64 →
    ∃ first rest, encode ⟨true, n⟩ = first :: rest ∧ emptyListCode < first

/-! ### Codecs -/

/-- Values encoded as lists that are not empty, with functions that agree with each other. -/
structure ListCodec (α : Type) where
  encode : α → List UInt8
  length : α → Nat
  decode : Read Error α
  length_eq : ∀ a, length a = (encode a).length
  /-- A buffer has at most `isize::MAX` bytes. -/
  length_lt : ∀ a, length a < 2 ^ 63
  decode_encode : ∀ a rest, decode (encode a ++ rest) = .ok (a, rest)
  encode_list : ∀ a, ∃ first rest, encode a = first :: rest ∧ emptyListCode < first

attribute [simp] ListCodec.decode_encode

end BaseAnvil.Lib.Rlp
