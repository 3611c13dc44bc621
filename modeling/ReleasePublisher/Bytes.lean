/-!
Byte strings. File contents, file names and paths are bytes, since none of them has to be text.
The order is that of the raw bytes, the one in which directory entries are listed.
-/
namespace ReleasePublisher

abbrev Bytes := List UInt8

namespace Bytes

def ofString (s : String) : Bytes := s.toUTF8.toList

def slash : UInt8 := 47

def newline : UInt8 := 10

def splitStep (separator b : UInt8) (pieces : List Bytes) : List Bytes :=
  if b = separator then [] :: pieces
  else match pieces with
    | [] => [[b]]
    | piece :: pieces => (b :: piece) :: pieces

/-- Cuts at every `separator`, so that joining the pieces with it gives the bytes back. -/
def split (separator : UInt8) (b : Bytes) : List Bytes := b.foldr (splitStep separator) [[]]

def join (separator : UInt8) : List Bytes → Bytes
  | [] => []
  | [piece] => piece
  | piece :: rest => piece ++ separator :: join separator rest

@[simp] theorem split_nil (separator : UInt8) : split separator [] = [[]] := rfl

theorem split_cons (separator b : UInt8) (rest : Bytes) :
    split separator (b :: rest) = splitStep separator b (split separator rest) := rfl

theorem split_ne_nil (separator : UInt8) (b : Bytes) : split separator b ≠ [] := by
  cases b with
  | nil => simp
  | cons c rest =>
    simp only [split_cons, splitStep]
    split
    · simp
    · split <;> simp

theorem join_cons_of_ne_nil (separator : UInt8) (piece : Bytes) {rest : List Bytes}
    (h : rest ≠ []) :
    join separator (piece :: rest) = piece ++ separator :: join separator rest := by
  cases rest with
  | nil => exact absurd rfl h
  | cons => rfl

/-- Cutting loses nothing. -/
theorem join_split (separator : UInt8) (b : Bytes) : join separator (split separator b) = b := by
  induction b with
  | nil => rfl
  | cons c rest ih =>
    simp only [split_cons, splitStep]
    split
    next h => rw [join_cons_of_ne_nil _ _ (split_ne_nil separator rest), ih, h]; rfl
    next h =>
      have hne := split_ne_nil separator rest
      revert ih hne
      cases split separator rest with
      | nil => intro _ hne; exact absurd rfl hne
      | cons piece pieces =>
        intro ih _
        cases pieces with
        | nil => simp only [join] at ih ⊢; rw [ih]
        | cons => simp only [join, List.cons_append] at ih ⊢; rw [ih]

/-- A separator between two texts is a cut: the pieces of both stand one after the other. -/
theorem split_append (separator : UInt8) (first rest : Bytes) :
    split separator (first ++ separator :: rest) =
      split separator first ++ split separator rest := by
  induction first with
  | nil => simp [split_cons, splitStep]
  | cons b first ih =>
    rw [List.cons_append, split_cons, split_cons, ih]
    cases hpieces : split separator first with
    | nil => exact absurd hpieces (split_ne_nil separator first)
    | cons piece pieces =>
      simp only [splitStep]
      split <;> rfl

theorem split_eq_singleton {separator : UInt8} {b : Bytes} (h : separator ∉ b) :
    split separator b = [b] := by
  induction b with
  | nil => rfl
  | cons c rest ih =>
    rw [List.mem_cons, not_or] at h
    rw [split_cons, ih h.2, splitStep, if_neg (Ne.symm h.1)]

/-- The order in which names are listed: byte by byte, a shorter name before its extensions. -/
def precedes : Bytes → Bytes → Bool
  | [], _ => true
  | _ :: _, [] => false
  | a :: as, b :: bs => a < b || (a == b && precedes as bs)

end Bytes

end ReleasePublisher
