import ReleasePublisher.CommandLine.ArgumentError
import ReleasePublisher.Path

/-!
Reading the arguments of the command line. Options may stand anywhere before `--` and at most once
each; of the other words the first is the release tag, the second the debug argument, and the rest
only have to be text. A word or a value is looked at when the next argument is accepted, so that an
unknown option comes before it among the errors.
-/
namespace ReleasePublisher

inductive ArgumentStop
  | asked (request : RequestOption)
  | refused (error : ArgumentError)
  deriving DecidableEq, Repr

structure Arguments where
  tag : Option String
  debugBuild : Option String
  projectRoot : Option Path
  configFile : Path
  registry : Option String
  noCache : Bool
  pull : Bool
  dryRun : Bool
  deriving DecidableEq, Repr

namespace Arguments

/-- What has been accepted but not looked at. -/
inductive Pending
  | nothing
  /-- An option, and its value once there is one. -/
  | option (option : ValueOption) (value : Option Bytes)
  /-- The tag or the debug argument. -/
  | word (word : Bytes)
  /-- Words after those. -/
  | extra (words : List Bytes)
  deriving DecidableEq, Repr

structure Reading where
  /-- Whether `--` has been read. -/
  wordsOnly : Bool := false
  pending : Pending := .nothing
  /-- How many words have been accepted, up to two. -/
  accepted : Nat := 0
  words : List String := []
  projectRoot : Option Path := none
  configFile : Option Path := none
  registry : Option String := none
  /-- What has been looked at, in order. -/
  given : List Argument := []
  deriving DecidableEq, Repr

def pathValue (option : ValueOption) (value : Bytes) : Except ArgumentError Path :=
  if value.isEmpty then .error (.valueRequired option) else .ok ⟨value⟩

def textValue (value : Bytes) : Except ArgumentError String :=
  match Utf8.decode? value with
  | some text => .ok text
  | none => .error .notText

namespace Reading

def has (s : Reading) : ValueOption → Bool
  | .projectRoot => s.projectRoot.isSome
  | .configFile => s.configFile.isSome
  | .registry => s.registry.isSome

def note (s : Reading) (argument : Argument) : Reading := { s with given := s.given ++ [argument] }

def setValue (s : Reading) (option : ValueOption) (value : Bytes) :
    Except ArgumentError Reading :=
  if s.has option then .error (.repeated option.describe)
  else
    let s := s.note (.value option)
    match option with
    | .projectRoot => (pathValue option value).map fun path => { s with projectRoot := some path }
    | .configFile => (pathValue option value).map fun path => { s with configFile := some path }
    | .registry => (textValue value).map fun text => { s with registry := some text }

def setFlag (s : Reading) (flag : FlagOption) : Except ArgumentError Reading :=
  if s.given.contains (.flag flag) then .error (.repeated flag.describe)
  else .ok (s.note (.flag flag))

def nextPlace (s : Reading) : WordPlace := if s.words.isEmpty then .tag else .debugBuild

def resolve (s : Reading) : Except ArgumentError Reading :=
  let rest := { s with pending := .nothing }
  match s.pending with
  | .nothing => .ok rest
  | .option option none => .error (.valueRequired option)
  | .option option (some value) => rest.setValue option value
  | .word word =>
    (textValue word).map fun text =>
      { rest.note (.word s.nextPlace) with words := s.words ++ [text] }
  | .extra words => (words.mapM textValue).map fun _ => rest

/-- What counts as given at an unknown option, which is found before what is pending is looked at:
an option or a word that is pending counts even if its value makes no sense, and an option given
again no longer does. -/
def givenWithPending (s : Reading) : List Argument :=
  match s.pending with
  | .option option (some _) =>
    if s.has option then s.given.erase (.value option) else s.given ++ [.value option]
  | .word _ => s.given ++ [.word s.nextPlace]
  | _ => s.given

def acceptWord (s : Reading) (word : Bytes) : Except ArgumentError Reading :=
  match s.pending with
  | .extra words => .ok { s with pending := .extra (words ++ [word]) }
  | _ =>
    s.resolve.map fun s =>
      if s.accepted < 2 then { s with accepted := s.accepted + 1, pending := .word word }
      else { s with pending := .extra [word] }

def acceptPlain (s : Reading) (word : Bytes) : Except ArgumentError Reading :=
  match s.pending with
  | .option option none => .ok { s with pending := .option option (some word) }
  | _ => s.acceptWord word

def acceptValueOption (s : Reading) (option : ValueOption) (attached : Option Bytes) :
    Except ArgumentError Reading := do
  let s ← s.resolve
  match attached with
  | some value => s.setValue option value
  | none => .ok { s with pending := .option option none }

def acceptFlag (s : Reading) (flag : FlagOption) (attached : Option Bytes) :
    Except ArgumentError Reading :=
  match attached with
  | some value => .error (.unexpectedValue (Utf8.lossy value) flag.describe s.given)
  | none => s.resolve.bind (·.setFlag flag)

def acceptRequest (s : Reading) (request : RequestOption) (attached : Option Bytes) :
    ArgumentStop :=
  match attached with
  | some value => .refused (.unexpectedValue (Utf8.lossy value) request.describe s.given)
  | none =>
    match s.resolve with
    | .ok _ => .asked request
    | .error error => .refused error

def orStop {α : Type} : Except ArgumentError α → Except ArgumentStop α
  | .ok a => .ok a
  | .error error => .error (.refused error)

def acceptLong (s : Reading) (name : Bytes) (attached : Option Bytes) :
    Except ArgumentStop Reading :=
  match Argument.options.find? fun a => a.optionName?.any (Bytes.ofString · == name) with
  | some (.value option) => orStop (s.acceptValueOption option attached)
  | some (.flag flag) => orStop (s.acceptFlag flag attached)
  | some (.request request) => .error (s.acceptRequest request attached)
  | _ => .error (.refused (.unknownOption (Utf8.lossy name) s.givenWithPending))

/-- What a single hyphen is followed by that cannot be an option: one character, or all of it when
it does not begin with one. -/
def unknownShort (rest : Bytes) : String :=
  match rest with
  | [] => "-"
  | lead :: more =>
    match Utf8.front lead more with
    | .sequence n => "-" ++ Utf8.lossy (rest.take n)
    | _ => "-" ++ Utf8.lossy rest

/-- Accepts what stands after a single hyphen. Only its first character counts. -/
def acceptShort (s : Reading) (rest : Bytes) : ArgumentStop :=
  match rest with
  | 104 :: _ => s.acceptRequest .help none
  | 86 :: _ => s.acceptRequest .version none
  | _ => .refused (.unexpected (unknownShort rest) .asWord [])

def equalsSign : UInt8 := 61

def splitAttached (text : Bytes) : Bytes × Option Bytes :=
  match text.dropWhile (· != equalsSign) with
  | [] => (text, none)
  | _ :: value => (text.takeWhile (· != equalsSign), some value)

def accept (s : Reading) (argument : Bytes) : Except ArgumentStop Reading :=
  if s.wordsOnly then orStop (s.acceptWord argument)
  else
    match argument with
    | [45, 45] => .ok { s with wordsOnly := true }
    | 45 :: 45 :: text =>
      let (name, attached) := splitAttached text
      s.acceptLong name attached
    | 45 :: b :: rest => .error (s.acceptShort (b :: rest))
    | _ => orStop (s.acceptPlain argument)

def defaultConfigFile : Path := .ofString "Cargo.toml"

def configFileOr (s : Reading) (env : Environment) : Except ArgumentError Path :=
  match s.configFile, ValueOption.configFile.environmentName?.bind env.value? with
  | some path, _ => .ok path
  | none, some value => pathValue .configFile value
  | none, none => .ok defaultConfigFile

def registryOr (s : Reading) (env : Environment) : Except ArgumentError (Option String) :=
  match s.registry, ValueOption.registry.environmentName?.bind env.value? with
  | some text, _ => .ok (some text)
  | none, some value => (textValue value).map some
  | none, none => .ok none

def finish (s : Reading) (env : Environment) : Except ArgumentError Arguments := do
  let s ← s.resolve
  let configFile ← s.configFileOr env
  let registry ← s.registryOr env
  return {
    tag := s.words[0]?
    debugBuild := s.words[1]?
    projectRoot := s.projectRoot
    configFile
    registry
    noCache := s.given.contains (.flag .noCache)
    pull := s.given.contains (.flag .pull)
    dryRun := s.given.contains (.flag .dryRun) }

end Reading

def parse (env : Environment) (arguments : List Bytes) : Except ArgumentStop Arguments := do
  let s ← arguments.foldlM Reading.accept {}
  Reading.orStop (s.finish env)

end Arguments

end ReleasePublisher
