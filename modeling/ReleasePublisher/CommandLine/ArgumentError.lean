import ReleasePublisher.CommandLine.Options
import ReleasePublisher.Text.Similarity

/-!
Why arguments make no sense, and what is said about it: the error itself, a tip where an option was
not known, and how the program is used.
-/
namespace ReleasePublisher

inductive ArgumentTip
  /-- To make it a word. -/
  | asWord
  | similar (option : String)
  deriving DecidableEq, Repr

inductive ArgumentError
  /-- The arguments `given` so far tell how the usage is shown. -/
  | unexpected (argument : String) (tip : ArgumentTip) (given : List Argument)
  | unexpectedValue (value option : String) (given : List Argument)
  | valueRequired (option : ValueOption)
  | repeated (option : String)
  | notText
  deriving DecidableEq, Repr

namespace ArgumentTip

def validStyle : Style := .green

def invalidStyle : Style := .yellow

def text (argument : String) : ArgumentTip → String
  | .asWord =>
    "\n\n  " ++ validStyle.mark "tip:" ++ " to pass '" ++
      invalidStyle.mark argument ++ "' as a value, use '" ++
      validStyle.mark ("-- " ++ argument) ++ "'"
  | .similar option =>
    "\n\n  " ++ validStyle.mark "tip:" ++ " a similar argument exists: '" ++
      validStyle.mark option ++ "'"

end ArgumentTip

namespace ArgumentError

def optionNames : List String := Argument.options.filterMap Argument.optionName?

/-- The error about an option that is not known by its name. The option most like it counts as given
in the usage. -/
def unknownOption (name : String) (given : List Argument) : ArgumentError :=
  match Similarity.closest? name optionNames with
  | some other =>
    let meant := Argument.options.filter fun a => a.optionName? == some other && !given.contains a
    .unexpected ("--" ++ name) (.similar ("--" ++ other)) (given ++ meant)
  | none => .unexpected ("--" ++ name) .asWord given

def cause : ArgumentError → String
  | .unexpected argument _ _ =>
    "unexpected argument '" ++ ArgumentTip.invalidStyle.mark argument ++ "' found"
  | .unexpectedValue value option _ =>
    "unexpected value '" ++ ArgumentTip.invalidStyle.mark value ++ "' for '" ++
      Usage.literal option ++ "' found; no more were expected"
  | .valueRequired option =>
    "a value is required for '" ++ ArgumentTip.invalidStyle.mark option.describe ++
      "' but none was supplied"
  | .repeated option =>
    "the argument '" ++ ArgumentTip.invalidStyle.mark option ++
      "' cannot be used multiple times"
  | .notText => "invalid UTF-8 was detected in one or more arguments"

def tipText : ArgumentError → String
  | .unexpected argument tip _ => tip.text argument
  | _ => ""

def usageText : ArgumentError → String
  | .unexpected _ _ given => "\n\n" ++ Usage.line given
  | .unexpectedValue _ _ given => "\n\n" ++ Usage.line given
  | .valueRequired _ => ""
  | .repeated _ => "\n\n" ++ Usage.line []
  | .notText => "\n\n" ++ Usage.line []

def message (error : ArgumentError) : String :=
  Style.mark { bold := true, hue := some .red } "error:" ++ " " ++ error.cause ++
    error.tipText ++ error.usageText ++
    "\n\nFor more information, try '" ++ Usage.literal "--help" ++ "'.\n"

end ArgumentError

end ReleasePublisher
