import LayeredFix.Text.Basic
import LayeredFix.Text.Hex

/-!
# UTF-8

A character takes one to four bytes. The first byte says how many follow and in which range the second one
lies; all later ones lie between 80 and BF. Ranges are chosen so that each character has one spelling and
surrogates have none.

`Utf8.encode` writes a text, `Utf8.decode` reads one or says where the bytes stop to make sense.
-/

namespace LayeredFix.Utf8

/-- The bytes of a text. -/
def encode (t : Text) : List UInt8 := t.flatMap String.utf8EncodeChar

/-- Why bytes make no character. -/
inductive Cause where
  /-- No character begins with this byte. -/
  | badStart
  /-- A byte does not continue the character. -/
  | badContinuation
  /-- The bytes end within a character. -/
  | unexpectedEnd
  deriving DecidableEq, Repr

/-- Bytes that make no character. -/
structure Fault where
  /-- Why. -/
  cause : Cause
  /-- The number of bytes before them. -/
  start : Nat
  /-- The first of them. -/
  first : UInt8
  /-- How many they are. -/
  length : Nat
  deriving DecidableEq, Repr

/-- A character of which some bytes have been read. -/
structure Pending where
  /-- Its first byte. -/
  first : UInt8
  /-- How many of its bytes have been read. -/
  length : Nat
  /-- How many are still to come. -/
  more : Nat
  /-- The least that the next one may be. -/
  least : UInt8
  /-- The most that the next one may be. -/
  most : UInt8
  /-- The bits read so far, as a number. -/
  bits : Nat

/-- What follows a first byte: so many bytes, the next one in a range. -/
def Pending.start (first : UInt8) : Option Pending :=
  let begin (more : Nat) (least most mark : UInt8) : Option Pending :=
    some ⟨first, 1, more, least, most, (first - mark).toNat⟩
  if first < 0x80 then begin 0 0 0 0
  else if first < 0xc2 then none
  else if first < 0xe0 then begin 1 0x80 0xbf 0xc0
  else if first < 0xf0 then
    begin 2 (if first == 0xe0 then 0xa0 else 0x80) (if first == 0xed then 0x9f else 0xbf) 0xe0
  else if first < 0xf5 then
    begin 3 (if first == 0xf0 then 0x90 else 0x80) (if first == 0xf4 then 0x8f else 0xbf) 0xf0
  else none

/-- One more byte of a character. -/
def Pending.next (p : Pending) (b : UInt8) : Option Pending :=
  if p.least ≤ b && b ≤ p.most then
    some ⟨p.first, p.length + 1, p.more - 1, 0x80, 0xbf, p.bits * 64 + (b - 0x80).toNat⟩
  else none

/-- The character that a byte after `before` others begins or continues. -/
def step (before : Nat) (pending : Option Pending) (b : UInt8) : Except Fault Pending :=
  match pending with
  | none =>
    match Pending.start b with
    | some p => .ok p
    | none => .error ⟨.badStart, before, b, 1⟩
  | some p =>
    match p.next b with
    | some p => .ok p
    | none => .error ⟨.badContinuation, before - p.length, p.first, p.length⟩

/-- Reads bytes after `before` others. `pending` is a character that is not yet complete, `done` holds the
characters read, last first. -/
def decodeFrom (before : Nat) (pending : Option Pending) (done : Text) : List UInt8 → Except Fault Text
  | [] =>
    match pending with
    | none => .ok done.reverse
    | some p => .error ⟨.unexpectedEnd, before - p.length, p.first, p.length⟩
  | b :: bs =>
    match step before pending b with
    | .error f => .error f
    | .ok p =>
      if p.more == 0 then decodeFrom (before + 1) none (Char.ofNat p.bits :: done) bs
      else decodeFrom (before + 1) (some p) done bs

/-- The text that bytes spell. -/
def decode (bytes : List UInt8) : Except Fault Text := decodeFrom 0 none [] bytes

/-- The wording of a cause. -/
def Cause.message : Cause → String
  | badStart => "invalid start byte"
  | badContinuation => "invalid continuation byte"
  | unexpectedEnd => "unexpected end of data"

/-- The wording of a fault. -/
def Fault.message (f : Fault) : String :=
  let place :=
    if f.length == 1 then
      s!"byte 0x{String.ofList (Text.hexDigits 2 f.first.toNat)} in position {f.start}"
    else s!"bytes in position {f.start}-{f.start + f.length - 1}"
  s!"'utf-8' codec can't decode {place}: {f.cause.message}"

end LayeredFix.Utf8
