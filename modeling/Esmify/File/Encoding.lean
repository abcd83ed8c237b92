import Esmify.Fault

/-!
# Texts in files

Files hold UTF-8. **Decoding is strict**: the first byte sequence that is no character is a fault
with its place and its cause. A text that is read has its carriage returns turned into line breaks;
a text is written as it is.
-/

namespace Esmify.File

/-- The content of a file. -/
abbrev Bytes := List UInt8

/-- Why bytes are no character. -/
inductive DecodeCause
  | badStart
  | badContinuation
  | endOfData
  deriving DecidableEq, Repr

/-- The wording of a cause. -/
def DecodeCause.text : DecodeCause → Text
  | .badStart => "invalid start byte".toList
  | .badContinuation => "invalid continuation byte".toList
  | .endOfData => "unexpected end of data".toList

/-- Bytes that are no character: the first of them, where it stands, how many there are, and why. -/
structure DecodeFault where
  first : UInt8
  position : Nat
  count : Nat
  cause : DecodeCause
  deriving DecidableEq, Repr

/-- The wording of a decoding fault. -/
def DecodeFault.message (f : DecodeFault) : Text :=
  "'utf-8' codec can't decode ".toList
    ++ (if f.count = 1 then
        "byte 0x".toList ++ Text.hexadecimal 2 f.first.toNat ++ " in position ".toList
          ++ Text.decimal f.position
      else
        "bytes in position ".toList ++ Text.decimal f.position ++ '-' ::
          Text.decimal ((f.position + f.count : Nat) - 1))
    ++ ": ".toList ++ f.cause.text

/-- Whether a byte continues a character. -/
def isContinuation (b : UInt8) : Bool :=
  0x80 ≤ b && b < 0xc0

/-- Whether a byte can follow the first byte of a character: overlong forms, surrogates and numbers
beyond the last code point are excluded here. -/
def canFollow (first b : UInt8) : Bool :=
  isContinuation b &&
    !((first == 0xe0 && b < 0xa0) || (first == 0xed && 0xa0 ≤ b)
      || (first == 0xf0 && b < 0x90) || (first == 0xf4 && 0x90 ≤ b))

/-- How many bytes follow the first byte of a character. -/
def following? (first : UInt8) : Option Nat :=
  if first < 0x80 then some 0
  else if first < 0xc2 then none
  else if first < 0xe0 then some 1
  else if first < 0xf0 then some 2
  else if first < 0xf5 then some 3
  else none

/-- The bits that a byte of a character contributes. -/
def payload (count : Nat) (first : UInt8) : Nat :=
  match count with
  | 0 => first.toNat
  | 1 => first.toNat % 0x20
  | 2 => first.toNat % 0x10
  | _ => first.toNat % 0x08

/-- A character in the middle of being decoded: its first byte, where it stands, how many bytes were
read and are still to be read, and the bits so far. -/
structure Unfinished where
  first : UInt8
  position : Nat
  read : Nat
  missing : Nat
  bits : Nat
  deriving Repr

/-- The fault of a character that breaks off. -/
def Unfinished.fault (p : Unfinished) (cause : DecodeCause) : DecodeFault :=
  ⟨p.first, p.position, p.read, cause⟩

/-- Whether a byte can be the next one of a character. -/
def Unfinished.accepts (p : Unfinished) (b : UInt8) : Bool :=
  if p.read = 1 then canFollow p.first b else isContinuation b

/-- Decodes bytes, the first of which stands at `position`; `done` is what has been decoded, in
reverse, and `pending` a character in the middle of it. -/
def decodeFrom : (position : Nat) → (pending : Option Unfinished) → (done : Text) → Bytes →
    Except DecodeFault Text
  | _, none, done, [] => .ok done.reverse
  | _, some p, _, [] => .error (p.fault .endOfData)
  | position, none, done, b :: bs =>
    match following? b with
    | none => .error ⟨b, position, 1, .badStart⟩
    | some 0 => decodeFrom (position + 1) none (Char.ofNat b.toNat :: done) bs
    | some (n + 1) =>
      decodeFrom (position + 1) (some ⟨b, position, 1, n + 1, payload (n + 1) b⟩) done bs
  | position, some p, done, b :: bs =>
    if p.accepts b then
      let bits := p.bits * 0x40 + b.toNat % 0x40
      if p.missing ≤ 1 then decodeFrom (position + 1) none (Char.ofNat bits :: done) bs
      else
        decodeFrom (position + 1)
          (some { p with read := p.read + 1, missing := p.missing - 1, bits }) done bs
    else .error (p.fault .badContinuation)

/-- The text that bytes encode. -/
def decode (bs : Bytes) : Except DecodeFault Text :=
  decodeFrom 0 none [] bs

/-- The bytes that encode a text. -/
def encode (t : Text) : Bytes :=
  t.flatMap String.utf8EncodeChar

/-- A text with each carriage return, and the line break after it if there is one, made a line
break; `afterReturn` says that a carriage return has just been read. -/
def normalizeFrom : (afterReturn : Bool) → (done : Text) → Text → Text
  | _, done, [] => done.reverse
  | afterReturn, done, c :: cs =>
    if c == '\r' then normalizeFrom true ('\n' :: done) cs
    else if c == '\n' && afterReturn then normalizeFrom false done cs
    else normalizeFrom false (c :: done) cs

/-- A text with every kind of line end made a line break. -/
def normalizeBreaks (t : Text) : Text :=
  normalizeFrom false [] t

end Esmify.File
