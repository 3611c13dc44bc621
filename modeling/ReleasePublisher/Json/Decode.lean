import ReleasePublisher.Json.Parser

/-!
Taking JSON values apart. A record may be written as an object, whose unknown members are ignored
and whose known members occur at most once, or as an array of its fields in order.
-/
namespace ReleasePublisher.Json

def hexValue (b : UInt8) : Nat :=
  if isDigit b then b.toNat - 48 else if b < 97 then b.toNat - 55 else b.toNat - 87

def unit (a b c d : UInt8) : Nat :=
  ((hexValue a * 16 + hexValue b) * 16 + hexValue c) * 16 + hexValue d

def isHighSurrogate (n : Nat) : Bool := 0xD800 ≤ n && n < 0xDC00

def isLowSurrogate (n : Nat) : Bool := 0xDC00 ≤ n && n < 0xE000

def encodeChar (n : Nat) : Bytes := Bytes.ofString (String.singleton (Char.ofNat n))

def shortEscape (b : UInt8) : UInt8 :=
  if b == 98 then 8 else if b == 102 then 12 else if b == 110 then 10
  else if b == 114 then 13 else if b == 116 then 9 else b

/-- Replaces the escapes of a literal. A surrogate must be part of a pair. -/
def unescape (seen : Bytes) : Bytes → Option Bytes
  | [] => some seen.reverse
  | 92 :: 117 :: a :: b :: c :: d :: rest =>
    let n := unit a b c d
    if isLowSurrogate n then none
    else if isHighSurrogate n then
      match rest with
      | 92 :: 117 :: e :: f :: g :: h :: rest =>
        let m := unit e f g h
        if isLowSurrogate m then
          let c := encodeChar (0x10000 + (n - 0xD800) * 0x400 + (m - 0xDC00))
          unescape (c.reverse ++ seen) rest
        else none
      | _ => none
    else unescape ((encodeChar n).reverse ++ seen) rest
  | 92 :: e :: rest => unescape (shortEscape e :: seen) rest
  | b :: rest => unescape (b :: seen) rest

def literalText? (literal : Bytes) : Option String :=
  (unescape [] literal).bind Utf8.decode?

def text? : Json → Option String
  | .string literal => literalText? literal
  | _ => none

def optionalText? : Json → Option (Option String)
  | .null => some none
  | v => v.text?.map some

def digitsBelow? (bound : Nat) (digits : Bytes) : Option Nat :=
  digits.foldlM (fun n b =>
    let n := n * 10 + (b.toNat - 48)
    if n < bound then some n else none) 0

def natBelow? (bound : Nat) : Json → Option Nat
  | .number literal => if literal.all isDigit then digitsBelow? bound literal else none
  | _ => none

/-- A number written as a whole number that fits 64 bits with a sign. A zero has no sign. -/
def int64? : Json → Option Int
  | .number (45 :: digits) =>
    if digits.all isDigit ∧ digits ≠ [48] then
      (digitsBelow? (Int64.size / 2 + 1) digits).map fun n => -(n : Int)
    else none
  | .number digits =>
    if digits.all isDigit then (digitsBelow? (Int64.size / 2) digits).map Int.ofNat else none
  | _ => none

def optional? {α : Type} (value? : Json → Option α) : Option Json → Option (Option α)
  | none => some none
  | some .null => some none
  | some json => (value? json).map some

def namedMembers? : List (Bytes × Json) → Option (List (String × Json))
  | [] => some []
  | (k, v) :: rest =>
    match literalText? k, namedMembers? rest with
    | some name, some named => some ((name, v) :: named)
    | _, _ => none

/-- The value of a member that occurs at most once: nothing when it occurs twice. -/
def single? (name : String) (members : List (String × Json)) : Option (Option Json) :=
  match members.filter (fun m => m.1 == name) with
  | [] => some none
  | [(_, v)] => some (some v)
  | _ => none

/-- The fields `names` of a record, each present or absent. In an array they stand in order, and
none of the first `least` can be missing. -/
def fields? (names : List String) (least : Nat) : Json → Option (List (Option Json))
  | .object members => (namedMembers? members).bind fun named => names.mapM (single? · named)
  | .array items =>
    if least ≤ items.length ∧ items.length ≤ names.length then
      some (items.map some ++ List.replicate (names.length - items.length) none)
    else none
  | _ => none

/-- A map from text to values; of two members of one name the later counts. -/
def map? {α : Type} (value? : Json → Option α) : Json → Option (List (String × α))
  | .object members =>
    (namedMembers? members).bind fun named =>
      named.reverse.mapM fun (name, v) => (value? v).map (name, ·)
  | _ => none

end ReleasePublisher.Json
