/-!
What a run shows: the text it prints and the lines it logs. Transcripts are put together in the
order in which they arose.
-/
namespace ReleasePublisher

inductive LogLevel
  | info
  | warning
  | error
  deriving DecidableEq, Repr

structure LogLine where
  level : LogLevel
  text : String
  deriving DecidableEq, Repr

structure Transcript where
  output : String := ""
  log : List LogLine := []
  deriving DecidableEq, Repr, Inhabited

namespace Transcript

def empty : Transcript := {}

def printed (text : String) : Transcript := { output := text }

def line (text : String) : Transcript := printed (text ++ "\n")

def logged (level : LogLevel) (text : String) : Transcript := { log := [⟨level, text⟩] }

def append (s t : Transcript) : Transcript := ⟨s.output ++ t.output, s.log ++ t.log⟩

instance : Append Transcript := ⟨append⟩

@[simp] theorem output_append (s t : Transcript) : (s ++ t).output = s.output ++ t.output := rfl

@[simp] theorem log_append (s t : Transcript) : (s ++ t).log = s.log ++ t.log := rfl

@[simp] theorem append_empty (s : Transcript) : s ++ empty = s := by
  show mk (s.output ++ "") (s.log ++ []) = s
  rw [String.append_empty, List.append_nil]

theorem append_assoc (s t u : Transcript) : s ++ t ++ u = s ++ (t ++ u) := by
  show mk (s.output ++ t.output ++ u.output) (s.log ++ t.log ++ u.log) = mk _ _
  rw [String.append_assoc, List.append_assoc]
  rfl

end Transcript

end ReleasePublisher
