import ReleasePublisher.PublishError
import ReleasePublisher.Site

/-!
Debug symbols for all builds. A directive is added to the end of the build's configuration file, and
a guard keeps the bytes that were there before, so that the file can be given back just as it was.
-/
namespace ReleasePublisher

structure ProfileGuard where
  path : Path
  saved : Bytes
  deriving DecidableEq, Repr

namespace DebugProfile

/-- What is added. The empty line keeps it apart from what comes before. -/
def directive : Bytes := Bytes.ofString "\n\n[profile.release]\ndebug = true\n"

end DebugProfile

namespace ProfileGuard

/-- Puts the saved bytes back into the file, which is made anew if it is gone. -/
def writeSaved (guard : ProfileGuard) (site : Site) : Option FileFault × Site :=
  site.attempt (·.write guard.path guard.saved)

def discard (guard : ProfileGuard) (site : Site) : Site :=
  match guard.writeSaved site with
  | (none, site) => site.log .info ("Restored " ++ guard.path.display ++ " after abort")
  | (some fault, site) =>
    site.log .error ("Failed to restore " ++ guard.path.display ++ ": " ++ fault.message ++
      " (debug profile is still enabled)")

/-- Restores the file. A guard that fails to is discarded, so that it tries once more. -/
def restore (guard : ProfileGuard) (site : Site) : Option PublishError × Site :=
  match guard.writeSaved site with
  | (none, site) => (none, site.log .info ("Restored " ++ guard.path.display))
  | (some fault, site) => (some (.configFile guard.path fault), guard.discard site)

end ProfileGuard

namespace DebugProfile

def activate (path : Path) (site : Site) : Except PublishError ProfileGuard × Site :=
  match site.disk.read path with
  | .error fault => (.error (.configFile path fault), site)
  | .ok content =>
    let guard : ProfileGuard := ⟨path, content⟩
    match site.attempt (·.append path directive) with
    | (some fault, site) => (.error (.configFile path fault), guard.discard site)
    | (none, site) =>
      (.ok guard, site.log .info ("Enabled debug symbols in " ++ path.display))

end DebugProfile

end ReleasePublisher
