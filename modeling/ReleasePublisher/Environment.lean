import ReleasePublisher.Text.Utf8

/-!
The variables of the environment. A variable has one value, which need not be text.
-/
namespace ReleasePublisher

structure Environment where
  settings : List (String × Bytes)
  deriving DecidableEq, Repr, Inhabited

namespace Environment

def value? (env : Environment) (name : String) : Option Bytes := env.settings.lookup name

def text? (env : Environment) (name : String) : Option String :=
  (env.value? name).bind Utf8.decode?

def insert (env : Environment) (name : String) (value : Bytes) : Environment :=
  ⟨(name, value) :: env.settings.filter (·.1 != name)⟩

end Environment

end ReleasePublisher
