import ReleasePublisher.FileSystem.Operations
import ReleasePublisher.Plan
import ReleasePublisher.Transcript

/-!
What builds and pushes images. An engine is whatever answers calls; it keeps a state of its own, and
while a call is in progress it may do anything to the files. A call that never ends is told apart by
what ends the run instead.
-/
namespace ReleasePublisher

inductive EngineCall
  | build (step : BuildStep)
  | push (image : ImageRef)
  deriving DecidableEq, Repr

inductive CallEnding
  | succeeded
  | failed (cause : String)
  | panicked
  /-- It does not end, and the run is asked to stop meanwhile. -/
  | interrupted
  /-- It does not end, and the run is given up meanwhile. -/
  | abandoned
  deriving DecidableEq, Repr

structure CallReply (σ : Type) where
  ending : CallEnding
  state : σ
  disk : FileSystem
  shown : Transcript

abbrev Engine (σ : Type) := EngineCall → σ → FileSystem → CallReply σ

end ReleasePublisher
