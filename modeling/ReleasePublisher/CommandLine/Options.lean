import ReleasePublisher.Text.Style

/-!
The options and words that the command line knows, and how they are named in help and in messages.
Both are styled; where styles are not shown they are taken out of the text as a whole.
-/
namespace ReleasePublisher

inductive ValueOption
  | projectRoot
  | configFile
  | registry
  deriving DecidableEq, Repr

inductive FlagOption
  | noCache
  | pull
  | dryRun
  deriving DecidableEq, Repr

inductive RequestOption
  | help
  | version
  deriving DecidableEq, Repr

inductive WordPlace
  | tag
  | debugBuild
  deriving DecidableEq, Repr

namespace ValueOption

def all : List ValueOption := [.projectRoot, .configFile, .registry]

def name : ValueOption → String
  | .projectRoot => "project-root"
  | .configFile => "config-file"
  | .registry => "registry"

def placeholder : ValueOption → String
  | .projectRoot => "<DIR>"
  | .configFile => "<CONFIG_FILE>"
  | .registry => "<REGISTRY>"

def describe (o : ValueOption) : String := "--" ++ o.name ++ " " ++ o.placeholder

/-- The variable that gives the value when the option does not. -/
def environmentName? : ValueOption → Option String
  | .projectRoot => none
  | .configFile => some "SHIPWRIGHT_CONFIG_FILE"
  | .registry => some "SHIPWRIGHT_REGISTRY"

end ValueOption

namespace FlagOption

def all : List FlagOption := [.noCache, .pull, .dryRun]

def name : FlagOption → String
  | .noCache => "no-cache"
  | .pull => "pull"
  | .dryRun => "dry-run"

def describe (f : FlagOption) : String := "--" ++ f.name

end FlagOption

namespace RequestOption

def all : List RequestOption := [.help, .version]

def name : RequestOption → String
  | .help => "help"
  | .version => "version"

def describe (r : RequestOption) : String := "--" ++ r.name

end RequestOption

namespace WordPlace

def all : List WordPlace := [.tag, .debugBuild]

def name : WordPlace → String
  | .tag => "TAG"
  | .debugBuild => "DEBUG_BUILD"

end WordPlace

inductive Argument
  | word (place : WordPlace)
  | value (option : ValueOption)
  | flag (option : FlagOption)
  | request (option : RequestOption)
  deriving DecidableEq, Repr

namespace Argument

def options : List Argument :=
  ValueOption.all.map .value ++ FlagOption.all.map .flag ++ RequestOption.all.map .request

def optionName? : Argument → Option String
  | .word _ => none
  | .value o => some o.name
  | .flag o => some o.name
  | .request o => some o.name

end Argument

/-! Usage -/

namespace Usage

def programName : String := "shipwright"

def literal (text : String) : String := Style.strong.mark text

def heading (text : String) : String := Style.mark { bold := true, underlined := true } text

/-- A word in the usage line: in brackets as long as it need not be given. -/
def wordText (given : List Argument) (place : WordPlace) : String :=
  if given.contains (.word place) then "<" ++ place.name ++ ">" else "[" ++ place.name ++ "]"

def optionText? : Argument → Option String
  | .word _ => none
  | .value o => some (literal ("--" ++ o.name) ++ " " ++ o.placeholder)
  | .flag o => some (literal o.describe)
  | .request o => some (literal o.describe)

/-- The usage line when some arguments are given: the options among them, or a word for all options
when nothing is. -/
def line (given : List Argument) : String :=
  let options := if given.isEmpty then ["[OPTIONS]"] else given.filterMap optionText?
  heading "Usage:" ++ " " ++
    " ".intercalate (literal programName :: options ++ WordPlace.all.map (wordText given))

end Usage

end ReleasePublisher
