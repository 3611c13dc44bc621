import ReleasePublisher.Proofs.FileSystem.Descent
import ReleasePublisher.Proofs.FileSystem.Entries

/-!
The entries of a directory, seen from a path to it, however that path is written. The path of an
entry passes all that the path of the directory passes, and leads on from where that one leads.
-/
namespace ReleasePublisher

open FileSystem ReleasePublisher.Path

namespace Turns

variable {turns : Turns} {here l : Location} {pieces longer names : List Bytes}

/-- Pieces that do not count only shorten the trail when they are left out. -/
theorem routeTrail_skip (henter : turns here = some .enter) {skipped : List Bytes}
    (hskip : ∀ piece ∈ skipped, ¬ counts piece) (rest : List Bytes) :
    routeTrail turns here rest ⊆ routeTrail turns here (skipped ++ rest) := by
  induction skipped with
  | nil => exact List.Subset.refl _
  | cons piece skipped ih =>
    obtain ⟨hpiece, hskipped⟩ := List.forall_mem_cons.mp hskip
    simp only [List.cons_append, routeTrail, henter, if_pos (not_counts_iff.mp hpiece)]
    exact List.Subset.trans (ih hskipped) (List.subset_cons_self _ _)

/-- A longer way passes all that the shorter one passes before the first link. -/
theorem routeTrail_longer (h : longer.filter counts = pieces.filter counts ++ names) :
    routeTrail turns here pieces ⊆ routeTrail turns here longer := by
  induction pieces generalizing here longer with
  | nil => simpa [routeTrail] using head_mem_routeTrail turns here longer
  | cons piece rest ih =>
    by_cases henter : turns here = some .enter
    · by_cases hcounts : counts piece = true
      · rw [List.filter_cons_of_pos hcounts, List.cons_append, List.filter_eq_cons_iff] at h
        obtain ⟨skipped, onward, rfl, hskip, -, honward⟩ := h
        refine List.Subset.trans ?_ (routeTrail_skip henter hskip (piece :: onward))
        obtain ⟨hnil, hdot⟩ := counts_eq_true_iff.mp hcounts
        have hstay : ¬ (piece = [] ∨ piece = dot) := not_or.mpr ⟨hnil, hdot⟩
        simp only [routeTrail, henter, if_neg hstay]
        refine List.cons_subset_cons _ ?_
        by_cases hup : piece = dotDot
        · simpa only [if_pos hup] using ih honward
        by_cases hlong : nameLimit < piece.length
        · simp [hup, hlong]
        simp only [if_neg hup, if_neg hlong]
        cases turns (here ++ [piece]) with
        | none => exact List.Subset.refl _
        | some turn =>
          cases turn with
          | follow target => exact List.Subset.refl _
          | _ => exact ih honward
      · rw [List.filter_cons_of_neg hcounts] at h
        simp only [routeTrail, henter, if_pos (not_counts_iff.mp hcounts)]
        exact List.cons_subset.mpr ⟨head_mem_routeTrail turns here longer, ih h⟩
    · rw [(routeTrail_of_not_enter henter .follow (piece :: rest)).1]
      simpa using head_mem_routeTrail turns here longer

/-- A longer way passes all that the shorter one passes. -/
theorem followTrail_longer {links : Nat} {here : Location} {pieces longer : List Bytes}
    (h : longer.filter counts = pieces.filter counts ++ names) :
    followTrail turns .follow links here pieces ⊆ followTrail turns .follow links here longer := by
  have hshort : routeTrail turns here pieces ⊆ followTrail turns .follow links here longer :=
    fun x hx => mem_followTrail_of_mem_routeTrail (routeTrail_longer h hx)
  cases hroute : route turns .follow here pieces with
  | error e => exact (follow_of_error hroute).2 ▸ hshort
  | ok reached =>
    cases reached with
    | arrived place => exact (follow_of_arrived hroute).2 ▸ hshort
    | atLink directory target rest =>
      cases links with
      | zero => exact (follow_zero_of_atLink hroute).2 ▸ hshort
      | succ links =>
        obtain ⟨rest', hrest, hroute'⟩ := (route_longer h).2 _ _ _ hroute
        rw [(follow_succ_of_atLink hroute).2]
        refine List.append_subset.mpr ⟨hshort, ?_⟩
        rw [(follow_succ_of_atLink hroute').2]
        refine List.Subset.trans (followTrail_longer ?_) (List.subset_append_right _ _)
        rw [List.filter_append, List.filter_append, hrest, List.append_assoc]
termination_by links

/-- Pieces that do not count make no difference to a way that ends in a directory. -/
theorem follow_of_filter_eq {links : Nat}
    (h : follow turns .follow links here pieces = .ok (.taken l)) (henter : turns l = some .enter)
    (hsame : longer.filter counts = pieces.filter counts) :
    follow turns .follow links here longer = .ok (.taken l) := by
  have hlonger : longer.filter counts = pieces.filter counts ++ [] := by simpa using hsame
  obtain ⟨left, rest, hrest, hfollow⟩ := follow_longer h hlonger
  have hskip : ∀ piece ∈ rest, ¬ counts piece = true := List.filter_eq_nil_iff.mp hrest
  have hroute : route turns .follow l (rest ++ []) = .ok (.arrived (.taken l)) := by
    rw [route_skip .follow henter hskip, route, henter]
  rw [List.append_nil] at hroute
  exact hfollow.trans (follow_of_arrived hroute).1

end Turns

theorem Path.IsEntry.isFileName {name : Path} (h : name.IsEntry) : IsFileName name.text :=
  ⟨h.isName.ne_nil, h.isName.ne_dot, h.isName.ne_dotDot, h.slash_notMem⟩

namespace FileSystem

open Turns

variable {fs : FileSystem} {base name : Path} {l : Location}

/-- The way to a directory is part of the way to what is in it. -/
theorem trail_subset_div (fs : FileSystem) (base : Path) (hname : name.IsEntry) :
    fs.trail .follow base ⊆ fs.trail .follow (base / name) := by
  have hplain : ∀ piece ∈ [name.text], IsFileName piece := by simpa using hname.isFileName
  rw [trail]
  split
  · next start pieces hentry =>
    obtain ⟨longer, hentry', hlonger⟩ :=
      entry_longer hplain (components_div hname.isFileName base) hentry
    rw [trail, hentry']
    exact followTrail_longer hlonger
  · exact List.nil_subset _

/-- The path of an entry leads to it in the directory that the path before it leads to. -/
theorem place_child (hname : name.IsEntry) (hbase : fs.place .follow base = .ok (.taken l))
    (henter : fs.turns l = some .enter) (hfault : pathFault? (base / name) = none) :
    fs.place .keep (base / name) =
      .ok (if fs.face? (l ++ [name.text]) = none then .free (l ++ [name.text])
        else .taken (l ++ [name.text])) := by
  have hplain : ∀ piece ∈ [name.text], IsFileName piece := by simpa using hname.isFileName
  obtain ⟨start, pieces, hentry, hfollow, -⟩ := follow_of_place hbase (by simp)
  obtain ⟨longer, hentry', hlonger⟩ :=
    entry_longer hplain (components_div hname.isFileName base) hentry
  obtain ⟨front, rfl⟩ := pieces_of_entry hname hentry'
  have hfront : front.filter counts = pieces.filter counts := by
    simpa [hname.isFileName.counts_eq] using hlonger
  refine place_of_follow hfault hentry' ?_
  rw [follow_concat fs.turns hname.isName, follow_of_filter_eq hfollow henter hfront]
  exact descend_of_enter henter name.text

end FileSystem

end ReleasePublisher
