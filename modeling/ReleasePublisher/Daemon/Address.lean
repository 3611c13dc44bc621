import ReleasePublisher.Text.Utf8

/-!
Where a request goes. The name of an image becomes part of the path of an address as it is, although
some characters have a meaning there: a question mark or a number sign ends the path, `.` and `..`
are steps in it, and a percent sign with two digits stands for a byte.
-/
namespace ReleasePublisher.Address

abbrev Segment := List Char

/-- The characters that an address cannot hold and that are left out of it. -/
def isDropped (c : Char) : Bool := c == '\t' || c == '\n' || c == '\r'

def endsPath (c : Char) : Bool := c == '?' || c == '#'

def segments (cs : List Char) : List Segment := cs.foldr step [[]]
where
  step (c : Char) (pieces : List Segment) : List Segment :=
    if c = '/' then [] :: pieces
    else match pieces with
      | [] => [[c]]
      | piece :: pieces => (c :: piece) :: pieces

def dots? : Segment → Option Nat
  | [] => some 0
  | '.' :: rest => (dots? rest).map (· + 1)
  | '%' :: '2' :: 'e' :: rest => (dots? rest).map (· + 1)
  | '%' :: '2' :: 'E' :: rest => (dots? rest).map (· + 1)
  | _ => none

/-- Whether a piece names a drive, which no step leads out of. -/
def isDrive : Segment → Bool
  | [letter, mark] => letter.isAlpha && (mark == ':' || mark == '|')
  | _ => false

def stepOut : List Segment → List Segment
  | [] => []
  | last :: before => if isDrive last then last :: before else before

/-- Takes the steps of a path after the pieces `way`, which stand in reverse. A step in the last
place leaves an empty piece. -/
def follow (way : List Segment) : List Segment → List Segment
  | [] => way.reverse
  | piece :: rest =>
    let ending := if rest.isEmpty then [[]] else []
    match dots? piece with
    | some 1 => follow (ending ++ way) rest
    | some 2 => follow (ending ++ stepOut way) rest
    | _ => follow (piece :: way) rest

def hexDigit? (b : UInt8) : Option UInt8 :=
  if 48 ≤ b && b ≤ 57 then some (b - 48)
  else if 65 ≤ b && b ≤ 70 then some (b - 55)
  else if 97 ≤ b && b ≤ 102 then some (b - 87)
  else none

def decodePercent : Bytes → Bytes
  | 37 :: a :: b :: rest =>
    match hexDigit? a, hexDigit? b with
    | some high, some low => (high * 16 + low) :: decodePercent rest
    | _, _ => 37 :: decodePercent (a :: b :: rest)
  | b :: rest => b :: decodePercent rest
  | [] => []
termination_by b => b.length

def path (written : String) : String :=
  let kept := (written.toList.filter (!isDropped ·)).takeWhile (!endsPath ·)
  let pieces := follow [] (segments (kept.drop 1))
  Utf8.lossy (decodePercent (Bytes.ofString
    (String.ofList (pieces.flatMap fun piece => '/' :: piece))))

end ReleasePublisher.Address
