/-! # Reading UTF-8

Bytes are read as text, or refused at the first sequence that is no UTF-8: the fault names the
bytes from the start of the sequence up to the byte that cannot continue it. -/

namespace MiniLua.Text

inductive Utf8Reason where
  | invalidStart
  | invalidContinuation
  | unexpectedEnd
  deriving DecidableEq

namespace Utf8Reason

def message : Utf8Reason → String
  | invalidStart => "invalid start byte"
  | invalidContinuation => "invalid continuation byte"
  | unexpectedEnd => "unexpected end of data"

end Utf8Reason

structure Utf8Fault where
  reason : Utf8Reason
  /-- The first refused byte. -/
  byte : UInt8
  position : Nat
  /-- The number of bytes refused together. -/
  length : Nat

/-- How many continuation bytes follow a first byte, and the range the next byte must lie in. -/
def sequenceShape (b : Nat) : Option (Nat × Nat × Nat) :=
  if b < 0x80 then some (0, 0x80, 0xbf)
  else if b < 0xc2 then none
  else if b < 0xe0 then some (1, 0x80, 0xbf)
  else if b = 0xe0 then some (2, 0xa0, 0xbf)
  else if b = 0xed then some (2, 0x80, 0x9f)
  else if b < 0xf0 then some (2, 0x80, 0xbf)
  else if b = 0xf0 then some (3, 0x90, 0xbf)
  else if b < 0xf4 then some (3, 0x80, 0xbf)
  else if b = 0xf4 then some (3, 0x80, 0x8f)
  else none

/-- Reads the continuation bytes of a sequence: its code point and what follows it, or why it stops
and after how many bytes. -/
def continuation : (missing low high value read : Nat) → List UInt8 →
    Except (Utf8Reason × Nat) (Nat × List UInt8)
  | 0, _, _, value, _, bytes => .ok (value, bytes)
  | _ + 1, _, _, _, read, [] => .error (.unexpectedEnd, read)
  | n + 1, low, high, value, read, b :: bytes =>
    if low ≤ b.toNat && b.toNat ≤ high then
      continuation n 0x80 0xbf (value * 64 + b.toNat % 64) (read + 1) bytes
    else .error (.invalidContinuation, read)

/-- The bits that a first byte gives to its code point. -/
def leadBits (b missing : Nat) : Nat :=
  if missing = 0 then b else b % Nat.pow 2 (6 - missing)

/-- Reads at most `fuel` sequences, the next one starting at `position`. -/
def decodeFrom : (fuel position : Nat) → List UInt8 → Except Utf8Fault (List Char)
  | 0, _, _ => .ok []
  | _ + 1, _, [] => .ok []
  | fuel + 1, position, b :: bytes =>
    match sequenceShape b.toNat with
    | none => .error ⟨.invalidStart, b, position, 1⟩
    | some (missing, low, high) =>
      match continuation missing low high (leadBits b.toNat missing) 1 bytes with
      | .error (reason, read) => .error ⟨reason, b, position, read⟩
      | .ok (value, rest) =>
        (decodeFrom fuel (position + missing + 1) rest).map (Char.ofNat value :: ·)

def decodeUtf8 (bytes : List UInt8) : Except Utf8Fault (List Char) :=
  decodeFrom bytes.length 0 bytes

namespace Utf8Fault

def byteText (f : Utf8Fault) : String :=
  String.ofList [Nat.digitChar (f.byte.toNat / 16), Nat.digitChar (f.byte.toNat % 16)]

/-- The fault with its place, as a file that cannot be read is reported. -/
def message (f : Utf8Fault) : String :=
  if f.length = 1 then
    s!"'utf-8' codec can't decode byte 0x{f.byteText} in position {f.position}: {f.reason.message}"
  else
    s!"'utf-8' codec can't decode bytes in position {f.position}-{f.position + f.length - 1}: "
      ++ f.reason.message

end Utf8Fault

end MiniLua.Text
