import ReleasePublisher.Bytes

/-!
Base 64 with the standard alphabet. Three bytes are written as four symbols; the last group is
padded to four, and its unused bits are zero. Decoding accepts exactly what encoding produces and
names the first reason against anything else.
-/
namespace ReleasePublisher.Base64

inductive Fault
  | symbol (offset : Nat) (byte : UInt8)
  | lastSymbol (offset : Nat) (byte : UInt8)
  | length (symbols : Nat)
  | padding
  deriving DecidableEq, Repr

def Fault.message : Fault → String
  | .symbol offset byte =>
    "Invalid symbol " ++ toString byte ++ ", offset " ++ toString offset ++ "."
  | .lastSymbol offset byte =>
    "Invalid last symbol " ++ toString byte ++ ", offset " ++ toString offset ++ "."
  | .length symbols => "Invalid input length: " ++ toString symbols
  | .padding => "Invalid padding"

def symbol (n : Nat) : UInt8 :=
  if n < 26 then UInt8.ofNat (65 + n)
  else if n < 52 then UInt8.ofNat (71 + n)
  else if n < 62 then UInt8.ofNat (n - 4)
  else if n = 62 then 43
  else 47

def value? (b : UInt8) : Option Nat :=
  if 65 ≤ b && b ≤ 90 then some (b.toNat - 65)
  else if 97 ≤ b && b ≤ 122 then some (b.toNat - 71)
  else if 48 ≤ b && b ≤ 57 then some (b.toNat + 4)
  else if b = 43 then some 62
  else if b = 47 then some 63
  else none

def pad : UInt8 := 61

def encode : Bytes → Bytes
  | [] => []
  | [a] => [symbol (a.toNat / 4), symbol (a.toNat % 4 * 16), pad, pad]
  | [a, b] =>
    [symbol (a.toNat / 4), symbol (a.toNat % 4 * 16 + b.toNat / 16), symbol (b.toNat % 16 * 4), pad]
  | a :: b :: c :: rest =>
    symbol (a.toNat / 4) :: symbol (a.toNat % 4 * 16 + b.toNat / 16) ::
      symbol (b.toNat % 16 * 4 + c.toNat / 64) :: symbol (c.toNat % 64) :: encode rest

def group (p q r s : Nat) : Bytes :=
  [UInt8.ofNat (p * 4 + q / 16), UInt8.ofNat (q % 16 * 16 + r / 4), UInt8.ofNat (r % 4 * 64 + s)]

/-- The last group, which may be short or padded; it starts at `offset`. -/
def decodeLast (offset : Nat) : Bytes → Except Fault Bytes
  | [] => .ok []
  | [a] =>
    match value? a with
    | none => .error (.symbol offset a)
    | some _ => .error (.length (offset + 1))
  | a :: b :: rest =>
    match value? a, value? b with
    | none, _ => .error (.symbol offset a)
    | some _, none => .error (.symbol (offset + 1) b)
    | some p, some q =>
      match rest with
      | [] => .error .padding
      | c :: rest =>
        match value? c, rest with
        | some _, [] => .error .padding
        | some r, d :: _ =>
          match value? d with
          | some s => .ok (group p q r s)
          | none =>
            if d = pad then
              if r % 4 = 0 then .ok ((group p q r 0).take 2)
              else .error (.lastSymbol (offset + 2) c)
            else .error (.symbol (offset + 3) d)
        | none, rest =>
          if c = pad then
            match rest with
            | [] => .error .padding
            | d :: _ =>
              if d = pad then
                if q % 16 = 0 then .ok ((group p q 0 0).take 1)
                else .error (.lastSymbol (offset + 1) b)
              else .error (.symbol (offset + 2) c)
          else .error (.symbol (offset + 2) c)

def faultIn (offset : Nat) : Bytes → Option Fault
  | [] => none
  | b :: rest =>
    match value? b with
    | some _ => faultIn (offset + 1) rest
    | none => some (.symbol offset b)

/-- Decodes group after group. Only the last one, whole or not, may be short or padded. -/
def decodeFrom (offset : Nat) : Bytes → Except Fault Bytes
  | a :: b :: c :: d :: e :: rest =>
    match value? a, value? b, value? c, value? d with
    | some p, some q, some r, some s =>
      match decodeFrom (offset + 4) (e :: rest) with
      | .ok decoded => .ok (group p q r s ++ decoded)
      | .error fault => .error fault
    | _, _, _, _ => .error ((faultIn offset [a, b, c, d]).getD .padding)
  | last => decodeLast offset last

/-- A stray byte after whole groups is reported before anything in front of it. -/
def strayEnd? (b : Bytes) : Option Fault :=
  if b.length % 4 = 1 then
    match b.getLast? with
    | some last =>
      if last ≠ pad ∧ value? last = none then some (.symbol (b.length - 1) last) else none
    | none => none
  else none

def decode (b : Bytes) : Except Fault Bytes :=
  match strayEnd? b with
  | some fault => .error fault
  | none => decodeFrom 0 b

end ReleasePublisher.Base64
