import ReleasePublisher.Text.Utf8

/-!
Patterns over file names. A pattern is a list of parts, each of which passes over some front of a
name. Which places of the name the parts so far can have led to is told by a mark for each place,
and a part turns these marks into others in one pass, so matching needs no search. Only `**` as a
whole component passes a separator, a class of excluded characters apart.
-/
namespace ReleasePublisher

inductive GlobPart
  | byte (b : UInt8)
  /-- One byte other than a separator. -/
  | anyByte
  /-- Any bytes other than separators. -/
  | anyBytes
  /-- Nothing, or anything up to a separator. -/
  | leading
  /-- A separator with anything after it. -/
  | trailing
  /-- A separator, or two with anything between them. -/
  | between
  /-- One byte that is in the ranges, or one that is in none of them. -/
  | byteClass (negated : Bool) (ranges : List (UInt8 × UInt8))
  /-- One of several patterns; nothing when there are none. -/
  | oneOf (alternatives : List (List GlobPart))
  deriving Repr, Inhabited

structure Glob where
  parts : List GlobPart
  deriving Repr, Inhabited

/-- A mark for the place before each byte of a name and one for the place at its end. -/
abbrev Marks := List Bool

namespace Marks

def start (name : Bytes) : Marks := true :: name.map fun _ => false

/-- Marks the place after each byte that is one of `passing` and has a marked place before it. -/
def afterByte (passing : UInt8 → Bool) (name : Bytes) (marks : Marks) : Marks :=
  false :: List.zipWith (fun b mark => mark && passing b) name marks

def afterSlash : Bytes → Marks → Marks := afterByte (· == Bytes.slash)

/-- Marks every place from the first marked one on. -/
def onward (begun : Bool) : Marks → Marks
  | [] => []
  | mark :: marks => (begun || mark) :: onward (begun || mark) marks

def either (marks others : Marks) : Marks := List.zipWith (· || ·) marks others

def overComponent (begun : Bool) : Bytes → Marks → Marks
  | b :: name, mark :: marks =>
    (begun || mark) :: overComponent ((begun || mark) && b != Bytes.slash) name marks
  | _, [mark] => [begun || mark]
  | _, marks => marks

def overComponents (name : Bytes) (marks : Marks) : Marks :=
  either marks (afterSlash name (onward false marks))

def nowhere (name : Bytes) : Marks := false :: name.map fun _ => false

end Marks

namespace GlobPart

def inRanges (ranges : List (UInt8 × UInt8)) (b : UInt8) : Bool :=
  ranges.any fun (low, high) => low ≤ b && b ≤ high

mutual
/-- The places of a name that a part can end at when it begins at a marked one. -/
def reach (name : Bytes) : GlobPart → Marks → Marks
  | .byte c, marks => Marks.afterByte (· == c) name marks
  | .anyByte, marks => Marks.afterByte (· != Bytes.slash) name marks
  | .anyBytes, marks => Marks.overComponent false name marks
  | .leading, marks => Marks.overComponents name marks
  | .trailing, marks => Marks.onward false (Marks.afterSlash name marks)
  | .between, marks => Marks.overComponents name (Marks.afterSlash name marks)
  | .byteClass negated ranges, marks =>
    Marks.afterByte (fun b => inRanges ranges b != negated) name marks
  | .oneOf [], marks => marks
  | .oneOf (p :: ps), marks => reachAny name (p :: ps) marks

def reachAll (name : Bytes) : List GlobPart → Marks → Marks
  | [], marks => marks
  | part :: parts, marks => reachAll name parts (reach name part marks)

def reachAny (name : Bytes) : List (List GlobPart) → Marks → Marks
  | [], _ => Marks.nowhere name
  | p :: ps, marks => Marks.either (reachAll name p marks) (reachAny name ps marks)
end

def isVoid : GlobPart → Bool
  | .oneOf [] => true
  | _ => false

/-- How many items a part is written as when the pattern is spelled out. -/
def items : GlobPart → Nat
  | .trailing => 2
  | .oneOf [] => 0
  | _ => 1

/-- The depth of a row: several items in a row nest once. -/
def rowDepth (parts : List GlobPart) : Nat :=
  if parts.foldl (fun n part => n + part.items) 0 ≤ 1 then 0 else 1

mutual
/-- How deep the groups, rows, choices and repetitions nest that a part is spelled out with. -/
def depth : GlobPart → Nat
  | .byte _ => 0
  | .anyByte => 1
  | .anyBytes => 2
  | .leading => 4
  | .trailing => 1
  | .between => 4
  | .byteClass _ ranges => if ranges.length ≤ 1 then 1 else 2
  | .oneOf [] => 0
  | .oneOf (p :: ps) => (if ps.isEmpty then 1 else 2) + depthAny (p :: ps)

def depthAll : List GlobPart → Nat
  | [] => 0
  | part :: parts => max (depth part) (depthAll parts)

def depthAny : List (List GlobPart) → Nat
  | [] => 0
  | p :: ps => max (rowDepth p + depthAll p) (depthAny ps)
end

end GlobPart

namespace Glob

/-- Whether a pattern covers a whole name. A pattern that is only `**` covers every name. -/
def covers (glob : Glob) (name : Bytes) : Bool :=
  match glob.parts with
  | [.leading] => true
  | parts => (GlobPart.reachAll name parts (Marks.start name)).getLast? == some true

def depthLimit : Nat := 250

def isTooDeep (glob : Glob) : Bool :=
  decide (depthLimit < 1 + GlobPart.depthAll glob.parts)

/-! Reading -/

inductive Token
  | plain (c : Char)
  /-- A character after a backslash. -/
  | escaped (c : Char)
  | question
  | star
  | opening
  | closing
  | comma
  | charClass (negated : Bool) (ranges : List (Char × Char))
  deriving DecidableEq, Repr

inductive ClassScan
  | closed (ranges : List (Char × Char)) (rest : List Char)
  | unclosed
  | reversedRange

/-- Reads the ranges of a class, the last one first. A bracket in the first place and a hyphen in
the first or last place stand for themselves. -/
def scanClass (ranges : List (Char × Char)) (first inRange : Bool) : List Char → ClassScan
  | [] => .unclosed
  | c :: rest =>
    if c = ']' && !first then .closed (if inRange then ('-', '-') :: ranges else ranges) rest
    else if c = '-' && !first && !inRange then scanClass ranges false true rest
    else
      match inRange, ranges with
      | true, (low, _) :: more =>
        if c < low then .reversedRange else scanClass ((low, c) :: more) false false rest
      | _, _ => scanClass ((c, c) :: ranges) false false rest

theorem length_lt_of_scanClass {ranges found : List (Char × Char)} {first inRange : Bool}
    {cs rest : List Char} (h : scanClass ranges first inRange cs = .closed found rest) :
    rest.length < cs.length := by
  induction cs generalizing ranges first inRange with
  | nil => simp [scanClass] at h
  | cons c cs ih =>
    unfold scanClass at h
    split at h
    · simp only [ClassScan.closed.injEq] at h
      simp [h.2]
    · split at h
      · exact Nat.lt_succ_of_lt (ih h)
      · split at h
        · split at h
          · simp at h
          · exact Nat.lt_succ_of_lt (ih h)
        · exact Nat.lt_succ_of_lt (ih h)

def scanNegation : List Char → Bool × List Char
  | '!' :: rest => (true, rest)
  | '^' :: rest => (true, rest)
  | cs => (false, cs)

theorem length_scanNegation_le (cs : List Char) : (scanNegation cs).2.length ≤ cs.length := by
  unfold scanNegation
  split <;> simp

/-- The words of a written pattern. After a bracket that is not closed, brackets stand for
themselves. -/
def scan (classes : Bool) (cs : List Char) : Option (List Token) :=
  match cs with
  | [] => some []
  | '\\' :: c :: rest => (scan classes rest).map (.escaped c :: ·)
  | ['\\'] => none
  | '?' :: rest => (scan classes rest).map (.question :: ·)
  | '*' :: rest => (scan classes rest).map (.star :: ·)
  | '{' :: rest => (scan classes rest).map (.opening :: ·)
  | '}' :: rest => (scan classes rest).map (.closing :: ·)
  | ',' :: rest => (scan classes rest).map (.comma :: ·)
  | '[' :: rest =>
    if classes then
      match h : scanClass [] true false (scanNegation rest).2 with
      | .closed ranges after =>
        have : after.length < rest.length :=
          Nat.lt_of_lt_of_le (length_lt_of_scanClass h) (length_scanNegation_le rest)
        (scan classes after).map (.charClass (scanNegation rest).1 ranges.reverse :: ·)
      | .unclosed => (scan false rest).map (.plain '[' :: ·)
      | .reversedRange => none
    else (scan classes rest).map (.plain '[' :: ·)
  | c :: rest => (scan classes rest).map (.plain c :: ·)
termination_by cs.length

def bytesOf (c : Char) : Bytes := Bytes.ofString (String.singleton c)

/-- The bytes of a range of characters. A character of several bytes adds each of them, and the
range lies between the last byte of the first character and the first byte of the last one. -/
def rangeBytes (range : Char × Char) : List (UInt8 × UInt8) :=
  let low := bytesOf range.1
  let high := bytesOf range.2
  if range.1 = range.2 then low.map fun b => (b, b)
  else
    low.dropLast.map (fun b => (b, b)) ++ [(low.getLastD 0, high.headD 0)] ++
      (high.drop 1).map fun b => (b, b)

/-- A group of alternatives that is being read, the parts of the current one in reverse. -/
structure Group where
  finished : List (List GlobPart) := []
  current : List GlobPart := []

namespace Group

def push (group : Group) (part : GlobPart) : Group :=
  { group with current := part :: group.current }

def pushChar (group : Group) (c : Char) : Group := (bytesOf c).foldl (·.push <| .byte ·) group

def pushStars (group : Group) : Group := (group.push .anyBytes).push .anyBytes

/-- Puts `part` for the separator before two stars, unless these only repeat what precedes them. -/
def widen (group : Group) (part : GlobPart) : Group :=
  match group.current with
  | .leading :: _ => group
  | .trailing :: _ => group
  | _ :: before => { group with current := part :: before }
  | [] => group

def finishBranch (group : Group) : Group :=
  { finished := group.current.reverse :: group.finished }

/-- The group as a part; alternatives that can only be empty do not count. -/
def toPart (group : Group) : GlobPart :=
  .oneOf (group.finishBranch.finished.reverse.filter fun branch => !branch.all GlobPart.isVoid)

end Group

def opensComponent (nested : Bool) : Option Char → Bool
  | some '/' => true
  | some ',' => nested
  | some '{' => nested
  | _ => false

/-- Whether what comes after two stars leaves them a component of their own, other than a separator
does. -/
def closesComponent (nested : Bool) : List Token → Bool
  | [] => true
  | .comma :: _ => nested
  | .closing :: _ => nested
  | _ => false

def Group.pushRecursive (nested : Bool) (previous : Option Char) (rest : List Token)
    (group : Group) : Group :=
  if group.current.isEmpty then if rest.isEmpty then group.push .leading else group.pushStars
  else if opensComponent nested previous && closesComponent nested rest then group.widen .trailing
  else group.pushStars

/-- Puts the parts together. `outer` holds the groups around the current one. -/
def assemble (outer : List Group) (group : Group) (previous : Option Char) :
    List Token → Option (List GlobPart)
  | [] => if outer.isEmpty then some group.current.reverse else none
  | .star :: .star :: .plain '/' :: rest =>
    if group.current.isEmpty then assemble outer (group.push .leading) (some '/') rest
    else if opensComponent (!outer.isEmpty) previous then
      assemble outer (group.widen .between) (some '/') rest
    else assemble outer group.pushStars (some '*') (.plain '/' :: rest)
  | .star :: .star :: rest =>
    assemble outer (group.pushRecursive (!outer.isEmpty) previous rest) (some '*') rest
  | .star :: rest => assemble outer (group.push .anyBytes) (some '*') rest
  | .question :: rest => assemble outer (group.push .anyByte) (some '?') rest
  | .charClass negated ranges :: rest =>
    assemble outer (group.push (.byteClass negated (ranges.flatMap rangeBytes))) (some ']') rest
  | .opening :: rest => assemble (group :: outer) {} (some '{') rest
  | .closing :: rest =>
    match outer with
    | [] => none
    | around :: outer => assemble outer (around.push group.toPart) (some '}') rest
  | .comma :: rest =>
    if outer.isEmpty then assemble outer (group.pushChar ',') (some ',') rest
    else assemble outer group.finishBranch (some ',') rest
  | .plain c :: rest => assemble outer (group.pushChar c) (some c) rest
  | .escaped c :: rest => assemble outer (group.pushChar c) (some c) rest

/-- Reads a written pattern. There is none for a range that runs backwards, a brace without its
partner or a backslash at the end. -/
def parse? (cs : List Char) : Option Glob :=
  ((scan true cs).bind (assemble [] {} none)).map Glob.mk

end Glob

end ReleasePublisher
