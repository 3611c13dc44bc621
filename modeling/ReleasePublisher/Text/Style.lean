import ReleasePublisher.Environment

/-!
Styled text for a terminal. A style is a list of codes set before the text and reset after it;
where colour is off, styling leaves the text as it is.
-/
namespace ReleasePublisher

inductive Hue
  | red | green | yellow | blue | cyan
  deriving DecidableEq, Repr

namespace Hue

def code : Hue → String
  | .red => "31"
  | .green => "32"
  | .yellow => "33"
  | .blue => "34"
  | .cyan => "36"

end Hue

structure Style where
  bold : Bool := false
  dimmed : Bool := false
  underlined : Bool := false
  hue : Option Hue := none
  deriving DecidableEq, Repr

inductive Palette
  | plain
  | colored
  deriving DecidableEq, Repr

namespace Style

def green : Style := { hue := some .green }
def yellow : Style := { hue := some .yellow }
def blue : Style := { hue := some .blue }
def cyan : Style := { hue := some .cyan }
def strong : Style := { bold := true }
def faint : Style := { dimmed := true }

def codes (s : Style) : List String :=
  (if s.bold then ["1"] else []) ++ (if s.dimmed then ["2"] else []) ++
    (if s.underlined then ["4"] else []) ++ s.hue.toList.map Hue.code

def reset : String := "\x1b[0m"

def opening (s : Style) : String := "\x1b[" ++ ";".intercalate s.codes ++ "m"

/-- A text in a style that is set code by code, whatever is in the text. -/
def mark (s : Style) (text : String) : String :=
  String.join (s.codes.map fun code => "\x1b[" ++ code ++ "m") ++ text ++ reset

end Style

namespace Palette

/-- Styles a text. A reset inside the text would end the style early, so the style is set again
after each. -/
def paint (p : Palette) (s : Style) (text : String) : String :=
  match p with
  | .plain => text
  | .colored =>
    s.opening ++ (Style.reset ++ s.opening).intercalate (text.splitOn Style.reset) ++ Style.reset

/-- Styles are shown where a variable forces them; otherwise on a terminal, unless a variable rules
them out. -/
def ofEnvironment (env : Environment) (terminal : Bool) : Palette :=
  let isOn (name : String) : Option Bool := (env.text? name).map (· != "0")
  if isOn "CLICOLOR_FORCE" = some true then .colored
  else if (isOn "NO_COLOR").isSome then .plain
  else if (isOn "CLICOLOR").getD true && terminal then .colored
  else .plain

/-- The palette of what is said about the command line itself. Here a variable that rules styles out
comes before one that forces them, and a terminal has to be able to show them. -/
def forNotices (env : Environment) (terminal : Bool) : Palette :=
  let isOn (name : String) : Option Bool := (env.value? name).map (· != Bytes.ofString "0")
  let isCapable : Bool :=
    (env.value? "TERM").any (· != Bytes.ofString "dumb") || isOn "CLICOLOR" == some true ||
      (env.value? "CI").isSome
  if (env.value? "NO_COLOR").any (!·.isEmpty) then .plain
  else if isOn "CLICOLOR_FORCE" == some true then .colored
  else if isOn "CLICOLOR" == some false then .plain
  else if terminal && isCapable then .colored
  else .plain

end Palette

end ReleasePublisher
