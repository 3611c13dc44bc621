import ReleasePublisher.Engine

/-!
Where a run takes place: the files as they are now, what has been shown, and the history of the run,
which holds the files after each of its file operations and at the start and the end of each of its
calls.
-/
namespace ReleasePublisher

structure Exchange where
  call : EngineCall
  before : FileSystem
  ending : CallEnding
  after : FileSystem

inductive Moment
  | changed (disk : FileSystem)
  | called (exchange : Exchange)

namespace Moment

def disk : Moment → FileSystem
  | .changed disk => disk
  | .called exchange => exchange.after

def exchange? : Moment → Option Exchange
  | .changed _ => none
  | .called exchange => some exchange

end Moment

structure Site where
  disk : FileSystem
  shown : Transcript := {}
  history : List Moment := []

namespace Site

def printLine (site : Site) (text : String) : Site :=
  { site with shown := site.shown ++ .line text }

def log (site : Site) (level : LogLevel) (text : String) : Site :=
  { site with shown := site.shown ++ .logged level text }

def change (site : Site) (disk : FileSystem) : Site :=
  { site with disk, history := site.history ++ [.changed disk] }

/-- Does a file operation. When it fails, the files stay as they are. -/
def attempt (site : Site) (operation : FileSystem → Except FileFault FileSystem) :
    Option FileFault × Site :=
  match operation site.disk with
  | .ok disk => (none, site.change disk)
  | .error fault => (some fault, site)

def call {σ : Type} (site : Site) (engine : Engine σ) (call : EngineCall) (state : σ) :
    CallEnding × σ × Site :=
  let reply := engine call state site.disk
  (reply.ending, reply.state,
    { disk := reply.disk
      shown := site.shown ++ reply.shown
      history := site.history ++ [.called ⟨call, site.disk, reply.ending, reply.disk⟩] })

def exchanges (site : Site) : List Exchange := site.history.filterMap Moment.exchange?

end Site

end ReleasePublisher
