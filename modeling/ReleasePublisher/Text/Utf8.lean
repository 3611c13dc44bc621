import ReleasePublisher.Bytes

/-!
Reading bytes as text. Well-formed bytes have exactly one reading; for others the place and length
of the first fault are told, and `lossy` gives a reading in which every faulty stretch is a
replacement character.
-/
namespace ReleasePublisher

structure Utf8Fault where
  /-- How many bytes before the fault are well formed. -/
  offset : Nat
  /-- How many bytes are at fault; none when the bytes end inside a sequence. -/
  length : Option Nat
  deriving DecidableEq, Repr

namespace Utf8Fault

def message (f : Utf8Fault) : String :=
  match f.length with
  | some n =>
    "invalid utf-8 sequence of " ++ toString n ++ " bytes from index " ++ toString f.offset
  | none => "incomplete utf-8 byte sequence from index " ++ toString f.offset

end Utf8Fault

namespace Utf8

/-- The length of the sequence that a byte opens; zero when no sequence starts with it. -/
def width (lead : UInt8) : Nat :=
  if lead < 0x80 then 1
  else if lead < 0xC2 then 0
  else if lead < 0xE0 then 2
  else if lead < 0xF0 then 3
  else if lead < 0xF5 then 4
  else 0

def isContinuation (b : UInt8) : Bool := 0x80 ≤ b && b < 0xC0

/-- Whether `b` may stand second after `lead`: overlong forms, surrogates and values past the last
character are excluded here. -/
def isSecond (lead b : UInt8) : Bool :=
  if lead = 0xE0 then 0xA0 ≤ b && b < 0xC0
  else if lead = 0xED then 0x80 ≤ b && b < 0xA0
  else if lead = 0xF0 then 0x90 ≤ b && b < 0xC0
  else if lead = 0xF4 then 0x80 ≤ b && b < 0x90
  else isContinuation b

inductive Front
  | sequence (length : Nat)
  | fault (length : Nat)
  | cutOff
  deriving DecidableEq, Repr

/-- Checks the bytes after the second one of a sequence that still lacks `missing` of them. -/
def tail (seen : Nat) : (missing : Nat) → Bytes → Front
  | 0, _ => .sequence seen
  | _ + 1, [] => .cutOff
  | missing + 1, b :: rest =>
    if isContinuation b then tail (seen + 1) missing rest else .fault seen

def front (lead : UInt8) (rest : Bytes) : Front :=
  match width lead with
  | 0 => .fault 1
  | 1 => .sequence 1
  | n + 2 =>
    match rest with
    | [] => .cutOff
    | b :: more => if isSecond lead b then tail 2 n more else .fault 1

/-- The first fault from `offset` on; `skip` bytes still belong to a sequence already checked. -/
def firstFault (offset skip : Nat) : Bytes → Option Utf8Fault
  | [] => none
  | b :: rest =>
    match skip with
    | skip + 1 => firstFault (offset + 1) skip rest
    | 0 =>
      match front b rest with
      | .sequence n => firstFault (offset + 1) (n - 1) rest
      | .fault n => some ⟨offset, some n⟩
      | .cutOff => some ⟨offset, none⟩

def decode (b : Bytes) : Except Utf8Fault String :=
  match String.fromUTF8? b.toByteArray with
  | some s => .ok s
  | none => .error ((firstFault 0 0 b).getD ⟨b.length, none⟩)

def decode? (b : Bytes) : Option String := String.fromUTF8? b.toByteArray

/-- Writes the encoded replacement character for every faulty stretch and keeps all else. -/
def repair (skip drop : Nat) : Bytes → Bytes
  | [] => []
  | b :: rest =>
    match drop, skip with
    | drop + 1, skip => repair skip drop rest
    | 0, skip + 1 => b :: repair skip 0 rest
    | 0, 0 =>
      match front b rest with
      | .sequence n => b :: repair (n - 1) 0 rest
      | .fault n => 0xEF :: 0xBF :: 0xBD :: repair 0 (n - 1) rest
      | .cutOff => [0xEF, 0xBF, 0xBD]

def lossy (b : Bytes) : String :=
  match decode? b with
  | some s => s
  | none => (decode? (repair 0 0 b)).getD ""

end Utf8

end ReleasePublisher
