import Esmify.Text.Blank

/-!
# Integers as users write them

An integer has an optional sign and decimal digits of any script, single underscores allowed between
them, and white space around all of it, the separators of ASCII aside. There may be 4300 digits and
no more. -/

namespace Esmify.Number

open Text

/-- The code points of the digits zero outside ASCII; the other nine digits follow each of them. -/
def zeros : List Nat := [
  0x660, 0x6f0, 0x7c0, 0x966, 0x9e6, 0xa66, 0xae6, 0xb66, 0xbe6, 0xc66, 0xce6, 0xd66, 0xde6,
  0xe50, 0xed0, 0xf20, 0x1040, 0x1090, 0x17e0, 0x1810, 0x1946, 0x19d0, 0x1a80, 0x1a90, 0x1b50,
  0x1bb0, 0x1c40, 0x1c50, 0xa620, 0xa8d0, 0xa900, 0xa9d0, 0xa9f0, 0xaa50, 0xabf0, 0xff10,
  0x104a0, 0x10d30, 0x11066, 0x110f0, 0x11136, 0x111d0, 0x112f0, 0x11450, 0x114d0, 0x11650,
  0x116c0, 0x11730, 0x118e0, 0x11950, 0x11c50, 0x11d50, 0x11da0, 0x16a60, 0x16ac0, 0x16b50,
  0x1d7ce, 0x1d7d8, 0x1d7e2, 0x1d7ec, 0x1d7f6, 0x1e140, 0x1e2f0, 0x1e950, 0x1fbf0]

/-- The value of a decimal digit of any script. -/
def digit? (c : Char) : Option Nat :=
  if c.isDigit then some (c.toNat - '0'.toNat)
  else (zeros.find? fun z => z ≤ c.toNat && c.toNat ≤ z + 9).map fun z => c.toNat - z

/-- Reads digits with single underscores between them; `value` is the number read so far, and
`afterDigit` says that a digit has just been read. -/
def digitsFrom? : (value : Nat) → (afterDigit : Bool) → Text → Option Nat
  | value, afterDigit, [] => if afterDigit then some value else none
  | value, afterDigit, c :: cs =>
    match digit? c with
    | some d => digitsFrom? (10 * value + d) true cs
    | none => if c == '_' && afterDigit then digitsFrom? value false cs else none

/-- The number that digits with single underscores between them spell. -/
def digits? (t : Text) : Option Nat :=
  if t.countP (fun c => (digit? c).isSome) ≤ 4300 then digitsFrom? 0 false t else none

/-- The white space that may stand around an integer: all of it but the four separators of ASCII. -/
def isMargin (c : Char) : Bool :=
  isBlank c && !(28 ≤ c.toNat && c.toNat ≤ 31)

/-- The integer that a text spells. -/
def integer? (t : Text) : Option Int :=
  match dropEndWhile isMargin (t.dropWhile isMargin) with
  | '-' :: cs => (digits? cs).map fun n => -(n : Int)
  | '+' :: cs => (digits? cs).map fun n => (n : Int)
  | cs => (digits? cs).map fun n => (n : Int)

end Esmify.Number
