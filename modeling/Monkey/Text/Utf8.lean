import Monkey.Text.Hexadecimal

/-!
# Decoding UTF-8

A byte below 0x80 is a character. Any other character starts with a byte that says how many bytes
follow; each of these carries six more bits. The byte after the first has a narrower range where a
longer form than needed, a surrogate or a number beyond the last character would come out. Decoding
stops at the first byte that no character can go on with, and blames the bytes of that character
so far.
-/

namespace Monkey.Text.Utf8

set_option autoImplicit false

inductive Reason where
  /-- No character starts with this byte. -/
  | badStart
  /-- The character does not go on with this byte. -/
  | badContinuation
  /-- The last character is cut off. -/
  | cutOff
  deriving Repr, DecidableEq

/-- Why bytes are no text: the bytes from `start` on, up to but without `stop`, are to blame. -/
structure Fault where
  first : UInt8
  start : Nat
  stop : Nat
  reason : Reason
  deriving Repr, DecidableEq

/-- A character that has begun: its first byte and where that stands, the bits so far, how many
bytes are missing after the next one, and the range of the next one. -/
structure Begun where
  first : UInt8
  start : Nat
  bits : Nat
  more : Nat
  low : UInt8
  high : UInt8
  deriving Repr, DecidableEq

/-- The character that a byte of 0x80 or more begins, if it begins one. -/
def begin? (start : Nat) (b : UInt8) : Option Begun :=
  let n := b.toNat
  if n < 0xC2 then none
  else if n < 0xE0 then some ⟨b, start, n - 0xC0, 0, 0x80, 0xBF⟩
  else if n < 0xF0 then
    some ⟨b, start, n - 0xE0, 1, if n = 0xE0 then 0xA0 else 0x80, if n = 0xED then 0x9F else 0xBF⟩
  else if n < 0xF5 then
    some ⟨b, start, n - 0xF0, 2, if n = 0xF0 then 0x90 else 0x80, if n = 0xF4 then 0x8F else 0xBF⟩
  else none

/-- Decodes the bytes from a position on, behind the characters that are done. -/
def decodeFrom (position : Nat) (done : List Char) :
    Option Begun → List UInt8 → Except Fault (List Char)
  | none, [] => .ok done.reverse
  | some c, [] => .error ⟨c.first, c.start, position, .cutOff⟩
  | none, b :: bs =>
    if b < 0x80 then decodeFrom (position + 1) (Char.ofNat b.toNat :: done) none bs
    else
      match begin? position b with
      | some c => decodeFrom (position + 1) done (some c) bs
      | none => .error ⟨b, position, position + 1, .badStart⟩
  | some c, b :: bs =>
    if c.low ≤ b ∧ b ≤ c.high then
      let bits := 64 * c.bits + (b.toNat - 0x80)
      match c.more with
      | 0 => decodeFrom (position + 1) (Char.ofNat bits :: done) none bs
      | m + 1 => decodeFrom (position + 1) done (some ⟨c.first, c.start, bits, m, 0x80, 0xBF⟩) bs
    else .error ⟨c.first, c.start, position, .badContinuation⟩

def decode (bytes : List UInt8) : Except Fault (List Char) :=
  decodeFrom 0 [] none bytes

def Reason.description : Reason → String
  | badStart => "invalid start byte"
  | badContinuation => "invalid continuation byte"
  | cutOff => "unexpected end of data"

/-- A single byte is named, of several only the first and the last position is told. -/
def Fault.message (f : Fault) : String :=
  let bytes :=
    if f.stop = f.start + 1 then
      "byte 0x" ++ String.ofList (Hexadecimal.digits 2 f.first.toNat) ++ " in position " ++
        toString f.start
    else "bytes in position " ++ toString f.start ++ "-" ++ toString (f.stop - 1)
  "'utf-8' codec can't decode " ++ bytes ++ ": " ++ f.reason.description

example : decode [0x61, 0xC3, 0xA9, 0xF0, 0x9F, 0x98, 0x80] = .ok ['a', 'é', '😀'] := rfl

example : decode [0xE2, 0x82, 0x28] = .error ⟨0xE2, 0, 2, .badContinuation⟩ := rfl

example : decode [0x61, 0xED, 0xA0, 0x80] = .error ⟨0xED, 1, 2, .badContinuation⟩ := rfl

example : decode [0xF0, 0x90, 0x80] = .error ⟨0xF0, 0, 3, .cutOff⟩ := rfl

example : decode [0xC0, 0xAF] = .error ⟨0xC0, 0, 1, .badStart⟩ := rfl

end Monkey.Text.Utf8
