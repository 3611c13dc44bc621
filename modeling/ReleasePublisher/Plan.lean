import ReleasePublisher.Image.Catalog

/-!
The plan of a publication: what is built and what is pushed, and the steps in their order. All
builds come before all pushes; in debug mode the debug profile is on for just the builds.
-/
namespace ReleasePublisher

/-- The tag of a release: any text that is not empty. -/
structure ReleaseTag where
  text : String
  text_ne_empty : text ≠ ""
  deriving DecidableEq, Repr

namespace ReleaseTag

def ofArgument? (raw : Option String) : Option ReleaseTag :=
  match raw with
  | some text => if h : text = "" then none else some ⟨text, h⟩
  | none => none

end ReleaseTag

inductive BuildMode
  | release
  | debug
  deriving DecidableEq, Repr, Inhabited

namespace BuildMode

/-- Debug symbols are asked for by the word `true` and by nothing else. -/
def ofArgument (raw : Option String) : BuildMode :=
  if raw = some "true" then .debug else .release

def name : BuildMode → String
  | .release => "release"
  | .debug => "debug"

def isDebug (mode : BuildMode) : Bool := mode == .debug

end BuildMode

structure PlanOptions where
  /-- Another namespace for the service images. -/
  registry : Option String := none
  noCache : Bool := false
  /-- Whether the parent of the base image is pulled anew. -/
  pullBase : Bool := false
  deriving DecidableEq, Repr, Inhabited

structure BuildStep where
  name : String
  image : ImageRef
  /-- Where the Dockerfile is, seen from the project. -/
  dockerfile : String
  context : ContextKind
  noCache : Bool
  pull : Bool
  deriving DecidableEq, Repr, Inhabited

structure PushStep where
  name : String
  image : ImageRef
  deriving DecidableEq, Repr, Inhabited

inductive Step
  | profileOn
  | build (step : BuildStep)
  | profileOff
  | push (step : PushStep)
  deriving DecidableEq, Repr

namespace Step

def describe : Step → String
  | .profileOn => "enable debug profile"
  | .build step => "build " ++ step.name ++ " -> " ++ step.image.text
  | .profileOff => "restore build config"
  | .push step => "push " ++ step.image.text

end Step

structure Plan where
  tag : ReleaseTag
  mode : BuildMode
  /-- The base image first. -/
  builds : List BuildStep
  /-- All but the base image. -/
  pushes : List PushStep
  deriving DecidableEq, Repr

namespace Plan

/-- Services refer to the base image by its name, so no option changes that. -/
def baseBuild (base : ImageSpec) (options : PlanOptions) : BuildStep where
  name := base.name
  image := ⟨base.image, Catalog.baseTag⟩
  dockerfile := base.dockerfile
  context := base.context
  noCache := options.noCache
  pull := options.pullBase

def serviceImage (tag : ReleaseTag) (options : PlanOptions) (spec : ImageSpec) : ImageRef :=
  ⟨spec.repository options.registry, tag.text⟩

/-- Services build on the local base image, so nothing is pulled for them. -/
def serviceBuild (tag : ReleaseTag) (options : PlanOptions) (spec : ImageSpec) : BuildStep where
  name := spec.name
  image := serviceImage tag options spec
  dockerfile := spec.dockerfile
  context := spec.context
  noCache := options.noCache
  pull := false

def servicePush (tag : ReleaseTag) (options : PlanOptions) (spec : ImageSpec) : PushStep where
  name := spec.name
  image := serviceImage tag options spec

def ofCatalog (catalog : Catalog) (tag : ReleaseTag) (mode : BuildMode) (options : PlanOptions) :
    Plan where
  tag := tag
  mode := mode
  builds := baseBuild catalog.base options :: catalog.services.map (serviceBuild tag options)
  pushes := catalog.services.map (servicePush tag options)

def steps (plan : Plan) : List Step :=
  (if plan.mode.isDebug then [.profileOn] else []) ++ plan.builds.map .build ++
    (if plan.mode.isDebug then [.profileOff] else []) ++ plan.pushes.map .push

end Plan

end ReleasePublisher
