import ReleasePublisher.Ignore.Glob
import ReleasePublisher.Path
import ReleasePublisher.Text.Blank

/-!
Lists of names to leave out. Each line is a rule; of the rules that match a name the last one in a
file decides, and the file of the innermost directory that has one decides before those of the
directories around it.
-/
namespace ReleasePublisher

inductive Verdict
  | exclude
  | keep
  deriving DecidableEq, Repr

structure IgnoreRule where
  verdict : Verdict
  directoriesOnly : Bool
  glob : Glob
  deriving Repr

namespace IgnoreRule

def byteOrderMark : Char := '\uFEFF'

/-- Drops blanks at the end of a line unless the last one is escaped. -/
def trimLine (cs : List Char) : List Char :=
  if ['\\', ' '].isSuffixOf cs then cs else Blank.trimEnd cs

/-- Drops a separator at the end, with a backslash before it, and says whether there was one. -/
def takeTrailingSlash (cs : List Char) : Bool × List Char :=
  match cs.reverse with
  | '/' :: '\\' :: before => (true, before.reverse)
  | '/' :: before => (true, before.reverse)
  | _ => (false, cs)

/-- The front of a line: what the rule says, whether it is tied to the directory of its file, and
the rest. -/
def takeFront : List Char → Verdict × Bool × List Char
  | '\\' :: '!' :: rest => (.exclude, false, '!' :: rest)
  | '\\' :: '#' :: rest => (.exclude, false, '#' :: rest)
  | '!' :: '/' :: rest => (.keep, true, rest)
  | '!' :: rest => (.keep, false, rest)
  | '/' :: rest => (.exclude, true, rest)
  | cs => (.exclude, false, cs)

def isLeading : List Char → Bool
  | ['*', '*'] => true
  | '*' :: '*' :: '/' :: _ => true
  | _ => false

/-- The pattern for paths from the directory of the file: without any separator a rule matches at
every depth, and `/**` at the end matches only what is inside. -/
def pathPattern (anchored : Bool) (cs : List Char) : List Char :=
  let cs := if anchored || cs.contains '/' || isLeading cs then cs else '*' :: '*' :: '/' :: cs
  if ['/', '*', '*'].isSuffixOf cs then cs ++ ['/', '*'] else cs

/-- The rule of a line. A comment, an empty line and an invalid pattern have none. -/
def ofLine? (line : List Char) : Option IgnoreRule :=
  if line.head? = some '#' then none
  else
    match trimLine line with
    | [] => none
    | cs =>
      let (verdict, anchored, cs) := takeFront cs
      let (directoriesOnly, cs) := takeTrailingSlash cs
      (Glob.parse? (pathPattern anchored cs)).map fun glob => ⟨verdict, directoriesOnly, glob⟩

def applies (rule : IgnoreRule) (isDirectory : Bool) (path : Bytes) : Bool :=
  (!rule.directoriesOnly || isDirectory) && rule.glob.covers path

end IgnoreRule

abbrev IgnoreRules := List IgnoreRule

namespace IgnoreRules

def lines : List Bytes → List Bytes
  | [] => []
  | [last] => if last.isEmpty then [] else [last]
  | line :: rest => (if line.getLast? = some 13 then line.dropLast else line) :: lines rest

/-- The texts of the lines up to the first that is not text. -/
def textLines (content : Bytes) : List (List Char) :=
  ((lines (Bytes.split Bytes.newline content)).map Utf8.decode?).takeWhile Option.isSome
    |>.filterMap (·.map String.toList)

def dropMarks : List (List Char) → List (List Char)
  | [] => []
  | line :: rest => line.dropWhile (· == IgnoreRule.byteOrderMark) :: rest

/-- Reads a file of rules. One pattern that nests too deep makes the whole file one without rules,
since its patterns are used together or not at all. -/
def parse (content : Bytes) : IgnoreRules :=
  let rules := (dropMarks (textLines content)).filterMap IgnoreRule.ofLine?
  if rules.any (·.glob.isTooDeep) then [] else rules

def verdict? (rules : IgnoreRules) (isDirectory : Bool) (path : Bytes) : Option Verdict :=
  (rules.reverse.find? (·.applies isDirectory path)).map IgnoreRule.verdict

end IgnoreRules

structure IgnoreScope where
  directory : Bytes
  rules : IgnoreRules
  deriving Repr, Inhabited

namespace IgnoreScope

def withoutStep : Bytes → Bytes
  | 46 :: 47 :: rest => rest
  | text => text

def of (path : Path) (rules : IgnoreRules) : IgnoreScope := ⟨withoutStep path.text, rules⟩

/-- What is left of `text` after the directory and a separator. The texts are compared as they are
written; a text that does not begin with the directory is left whole, and so is one without any
separator, which is a name. -/
def textBelow (directory text : Bytes) : Bytes :=
  if (Path.mk directory).same ⟨Path.dot⟩ || !text.contains Bytes.slash then text
  else
    match directory.isPrefixOf? text with
    | some (b :: rest) => if b = Bytes.slash then rest else b :: rest
    | some [] => []
    | none => text

def verdict? (scopes : List IgnoreScope) (isDirectory : Bool) (path : Path) : Option Verdict :=
  let text := withoutStep path.text
  scopes.findSome? fun scope =>
    scope.rules.verdict? isDirectory (textBelow scope.directory (withoutStep text))

def excludes (scopes : List IgnoreScope) (isDirectory : Bool) (path : Path) : Bool :=
  verdict? scopes isDirectory path == some .exclude

end IgnoreScope

end ReleasePublisher
