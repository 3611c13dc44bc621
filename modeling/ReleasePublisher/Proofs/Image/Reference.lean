import Mathlib.Data.List.TakeWhile
import ReleasePublisher.Image.Catalog

/-!
The registry that an image goes to is the first segment of its repository, where that names a host.
The tag has no part in it, since a repository with a separator ends before the tag begins.
-/
namespace ReleasePublisher

theorem splitAtFirst_of_not_mem {mark : Char} {cs : List Char} (h : mark ∉ cs) :
    splitAtFirst mark cs = none := by
  have hall : ∀ c ∈ cs, (c != mark) = true := by
    intro c hc
    rw [bne_iff_ne]
    rintro rfl
    exact h hc
  rw [splitAtFirst, List.dropWhile_eq_nil_iff.mpr hall]

theorem splitAtFirst_append {mark : Char} {front : List Char} (h : mark ∉ front)
    (rest : List Char) : splitAtFirst mark (front ++ mark :: rest) = some (front, rest) := by
  have hall : ∀ c ∈ front, (c != mark) = true := by
    intro c hc
    rw [bne_iff_ne]
    rintro rfl
    exact h hc
  rw [splitAtFirst, List.dropWhile_append_of_pos hall, List.takeWhile_append_of_pos hall]
  simp

namespace RegistryHost

/-- A segment is a host if it has a dot or a colon, or is the local one. -/
theorem isHost_iff {segment : List Char} :
    isHost segment = true ↔ '.' ∈ segment ∨ ':' ∈ segment ∨ segment = "localhost".toList := by
  simp only [isHost, Bool.or_eq_true, List.contains_iff_mem, beq_iff_eq, or_assoc]

/-- The host that a first segment names. -/
theorem ofImage_of_segment {image : String} {front rest : List Char} (h : '/' ∉ front)
    (himage : image.toList = front ++ '/' :: rest) :
    ofImage image =
      if '.' ∈ front ∨ ':' ∈ front ∨ front = "localhost".toList then String.ofList front
      else default := by
  rw [ofImage, himage, splitAtFirst_append h]
  simp only [isHost_iff]

end RegistryHost

namespace ImageSpec

end ImageSpec

end ReleasePublisher
