import Mathlib.Data.List.Forall2
import ReleasePublisher.Proofs.Context.Listing

/-!
The entries of an archive. What is found in a context is entered under its names, joined by
separators, with its own mode and content; the target of a link is the same path, however it was
written. Only a pipe is entered under the path by which it was reached.
-/
namespace ReleasePublisher

open ReleasePublisher.Path (IsFileName)

namespace Path

/-- What is left of the components of a path when a `.` does not count at all. -/
def steps (p : Path) : List Component := p.components.filter (· ≠ .here)

/-- Behind its head a path consists of the pieces that count. -/
theorem exists_pieces (p : Path) :
    ∃ pieces : List Bytes, (∀ piece ∈ pieces, counts piece = true ∧ Bytes.slash ∉ piece) ∧
      p.components = p.headComponents ++ pieces.map componentOf :=
  ⟨p.pieces.filter counts, fun _ hpiece =>
    ⟨(List.mem_filter.mp hpiece).2, Bytes.notMem_of_mem_split (List.mem_filter.mp hpiece).1⟩, rfl⟩

theorem componentOf_ne_here (piece : Bytes) : componentOf piece ≠ .here := by
  rw [componentOf]
  split <;> simp

theorem filter_ne_here_componentOf (pieces : List Bytes) :
    (pieces.map componentOf).filter (· ≠ .here) = pieces.map componentOf := by
  refine List.filter_eq_self.mpr fun c hc => ?_
  obtain ⟨piece, -, rfl⟩ := List.mem_map.mp hc
  simpa using componentOf_ne_here piece

theorem steps_eq {p : Path} {pieces : List Bytes}
    (h : p.components = p.headComponents ++ pieces.map componentOf) :
    p.steps = p.headComponents.filter (· ≠ .here) ++ pieces.map componentOf := by
  rw [steps, h, List.filter_append, filter_ne_here_componentOf]

theorem steps_of_components_named {p : Path} {names : List Bytes}
    (h : p.components = names.map .named) : p.steps = names.map .named := by
  rw [steps, h]
  exact List.filter_eq_self.mpr fun c hc => by
    obtain ⟨name, -, rfl⟩ := List.mem_map.mp hc
    simp

theorem named_injective {names names' : List Bytes}
    (h : names.map Component.named = names'.map .named) : names = names' :=
  (List.map_inj_right fun _ _ hsame => Component.named.inj hsame).mp h

theorem IsFileName.join_ne_nil {names : List Bytes} (h : ∀ name ∈ names, IsFileName name)
    (hne : names ≠ []) : Bytes.join Bytes.slash names ≠ [] := by
  cases names with
  | nil => exact absurd rfl hne
  | cons name rest =>
    rw [Bytes.join_cons_eq]
    exact List.append_ne_nil_of_left_ne_nil (h name List.mem_cons_self).ne_nil _

/-- A separator at the end does not count. -/
theorem components_append_end {front : Bytes} (h : front ≠ []) :
    (⟨front ++ [Bytes.slash]⟩ : Path).components = (⟨front⟩ : Path).components := by
  rw [components_append_slash h]
  simp [componentsOf, counts]

end Path

namespace ArchiveEntry

open ReleasePublisher.Path

variable {how : Writing} {written text : Bytes}

theorem writePiece_eq {piece : Bytes} (h : writePiece written piece = .ok text) :
    text = written ++ piece := by
  rw [writePiece] at h
  split at h
  · exact (Except.ok.inj h).symm
  · simp at h

theorem writeName_eq {name : Bytes} (h : writeName written name = .ok text) :
    text = if written = [] then name else written ++ Bytes.slash :: name := by
  rw [writeName] at h
  split at h
  next hempty => rw [writePiece_eq h, hempty, if_pos rfl, List.nil_append]
  next hwritten =>
    rw [if_neg hwritten]
    cases hslash : writePiece written [Bytes.slash] with
    | error fault => simp [hslash, Except.bind] at h
    | ok more =>
      rw [hslash] at h
      rw [writePiece_eq h, writePiece_eq hslash]
      simp

/-- Only names are written, one after the other. -/
theorem writeComponents_eq {pieces : List Bytes} (hcut : how.cut = false)
    (hpieces : ∀ piece ∈ pieces, counts piece = true ∧ Bytes.slash ∉ piece)
    (h : writeComponents how written (pieces.map componentOf) = .ok text) :
    (∀ piece ∈ pieces, IsFileName piece) ∧
      text = if written = [] then Bytes.join Bytes.slash pieces
        else written ++ pieces.flatMap (Bytes.slash :: ·) := by
  induction pieces generalizing written with
  | nil =>
    rw [List.map_nil, writeComponents] at h
    split at h
    · simp at h
    · next hwritten =>
      obtain rfl : written = text := Except.ok.inj h
      simp [hwritten]
  | cons piece rest ih =>
    obtain ⟨⟨hcounts, hslash⟩, hrest⟩ := List.forall_mem_cons.mp hpieces
    obtain ⟨hnil, hdot⟩ := counts_eq_true_iff.mp hcounts
    by_cases hup : piece = dotDot
    · rw [List.map_cons, componentOf, if_pos hup, writeComponents, hcut] at h
      simp at h
    · rw [List.map_cons, componentOf, if_neg hup, writeComponents] at h
      cases hname : writeName written piece with
      | error fault => simp [hname, Except.bind] at h
      | ok more =>
        rw [hname] at h
        obtain ⟨hplain, htext⟩ := ih hrest h
        refine ⟨List.forall_mem_cons.mpr ⟨⟨hnil, hdot, hup, hslash⟩, hplain⟩, ?_⟩
        have hmore := writeName_eq hname
        by_cases hwritten : written = []
        · rw [if_pos hwritten] at hmore
          rw [htext, hmore, if_neg hnil, if_pos hwritten, Bytes.join_cons_eq]
        · rw [if_neg hwritten] at hmore
          rw [htext, hmore, if_neg (by simp), if_neg hwritten]
          simp

/-- The components that stand in the field are names, or a single `.`. -/
theorem writeComponents_path {path : Path}
    (h : writeComponents ⟨path.components.length == 1, false⟩ [] path.components = .ok text) :
    ∃ names, (∀ name ∈ names, IsFileName name) ∧ path.steps = names.map .named ∧
      text = if names = [] then dot else Bytes.join Bytes.slash names := by
  obtain ⟨pieces, hpieces, hcomponents⟩ := path.exists_pieces
  have hsteps := steps_eq hcomponents
  rw [hcomponents] at h
  have hnames : ∀ {how : Writing}, how.cut = false → pieces ≠ [] →
      writeComponents how [] (pieces.map componentOf) = .ok text →
      (∀ piece ∈ pieces, IsFileName piece) ∧ pieces.map componentOf = pieces.map .named ∧
        text = if pieces = [] then dot else Bytes.join Bytes.slash pieces := by
    intro how hcut hne hwritten
    obtain ⟨hplain, htext⟩ := writeComponents_eq hcut hpieces hwritten
    exact ⟨hplain, List.map_congr_left fun piece hpiece => (hplain piece hpiece).componentOf_eq,
      by simpa [hne] using htext⟩
  rcases path.headComponents_cases with hhead | hhead | hhead <;> rw [hhead] at h hsteps
  · have hne : pieces ≠ [] := by
      rintro rfl
      simp [writeComponents] at h
    obtain ⟨hplain, hnamed, htext⟩ := hnames rfl hne h
    exact ⟨pieces, hplain, hsteps.trans hnamed, htext⟩
  · simp [writeComponents] at h
  · by_cases hne : pieces = []
    · subst hne
      obtain rfl : dot = text := Except.ok.inj h
      exact ⟨[], by simp, hsteps, rfl⟩
    · have halone : (([Component.here] ++ pieces.map componentOf).length == 1) = false := by
        simpa using hne
      rw [halone] at h
      obtain ⟨hplain, hnamed, htext⟩ := hnames rfl hne h
      exact ⟨pieces, hplain, hsteps.trans hnamed, htext⟩

/-- A path that stands in the field consists of names. -/
theorem fieldText_eq {path : Path} (h : fieldText path = .ok text) :
    ∃ names, (∀ name ∈ names, IsFileName name) ∧ path.steps = names.map .named ∧
      text = (if names = [] then dot else Bytes.join Bytes.slash names) ++
        if endsWithSlash path then [Bytes.slash] else [] := by
  cases hwritten : writeComponents ⟨path.components.length == 1, false⟩ [] path.components with
  | error fault => simp [fieldText, writtenText, hwritten, bind, Except.bind] at h
  | ok written =>
    obtain ⟨names, hplain, hsteps, rfl⟩ := writeComponents_path hwritten
    refine ⟨names, hplain, hsteps, ?_⟩
    simp only [fieldText, writtenText, hwritten, bind, Except.bind] at h
    split at h
    · next hend => rw [if_pos hend, writePiece_eq h]
    · next hend => rw [if_neg hend, List.append_nil, Except.ok.inj h]

/-- The path that is written into the field leads as the path that was to be written. -/
theorem steps_of_fieldText {path : Path} (h : fieldText path = .ok text) :
    (⟨text⟩ : Path).steps = path.steps := by
  obtain ⟨names, hplain, hsteps, rfl⟩ := fieldText_eq h
  have hfront : (if names = [] then dot else Bytes.join Bytes.slash names) ≠ [] ∧
      (⟨if names = [] then dot else Bytes.join Bytes.slash names⟩ : Path).steps =
        names.map .named := by
    by_cases hne : names = []
    · rw [if_pos hne, hne]
      exact ⟨by decide, rfl⟩
    · rw [if_neg hne]
      exact ⟨IsFileName.join_ne_nil hplain hne, steps_of_components_named (components_join hplain)⟩
  obtain ⟨hne, hfront⟩ := hfront
  rw [hsteps, ← hfront]
  by_cases hend : endsWithSlash path = true
  · rw [if_pos hend, steps, components_append_end hne, steps]
  · rw [if_neg hend, List.append_nil]

/-- A long path leads on as it did, however much of it fits into the field. -/
theorem steps_of_longText {path : Path} (h : longText path = .ok text) :
    (⟨text⟩ : Path).steps = path.steps := by
  rw [longText] at h
  split at h
  · next field hfield => exact Except.ok.inj h ▸ steps_of_fieldText hfield
  · split at h
    · simp at h
    · split at h
      · rw [← Except.ok.inj h]
      · simp at h

/-- What is read from a directory is entered under its names. -/
theorem longText_join {names : List Bytes} (hplain : ∀ name ∈ names, IsFileName name)
    (hne : names ≠ []) (h : longText ⟨Bytes.join Bytes.slash names⟩ = .ok text) :
    text = Bytes.join Bytes.slash names := by
  rw [longText] at h
  split at h
  next field hfield =>
    obtain rfl : field = text := Except.ok.inj h
    obtain ⟨names', hplain', hsteps, htext⟩ := fieldText_eq hfield
    rw [steps_of_components_named (components_join hplain)] at hsteps
    obtain rfl := named_injective hsteps
    have hend : endsWithSlash ⟨Bytes.join Bytes.slash names⟩ = false := by
      rw [endsWithSlash, beq_eq_false_iff_ne]
      exact getLast?_join (fun name hname => (hplain name hname).slash_notMem)
        fun name hname => (hplain name (List.mem_of_getLast? hname)).ne_nil
    simpa [hne, hend] using htext
  next =>
    split at h
    · simp at h
    · split at h
      · exact (Except.ok.inj h).symm
      · simp at h

theorem componentText_componentOf (piece : Bytes) : componentText (componentOf piece) = piece := by
  rw [componentOf]
  split
  next hup => exact hup.symm
  next => rfl

theorem map_componentText_componentOf (pieces : List Bytes) :
    (pieces.map componentOf).map componentText = pieces := by
  rw [List.map_map]
  exact (List.map_congr_left fun piece _ => componentText_componentOf piece).trans (List.map_id _)

theorem componentsOf_of_counts {pieces : List Bytes} (h : ∀ piece ∈ pieces, counts piece = true) :
    componentsOf pieces = pieces.map componentOf := by
  rw [componentsOf, List.filter_eq_self.mpr h]

theorem componentsOf_split_join {pieces : List Bytes}
    (h : ∀ piece ∈ pieces, counts piece = true ∧ Bytes.slash ∉ piece) (hne : pieces ≠ []) :
    componentsOf (Bytes.split Bytes.slash (Bytes.join Bytes.slash pieces)) =
      pieces.map componentOf := by
  rw [Bytes.split_join hne fun piece hpiece => (h piece hpiece).2,
    componentsOf_of_counts fun piece hpiece => (h piece hpiece).1]

/-- Components that are written one after the other are read again. -/
theorem components_written (path : Path) :
    (⟨match path.components with
      | [.root] => [Bytes.slash]
      | components => Bytes.join Bytes.slash (components.map componentText)⟩ : Path).components =
      path.components := by
  obtain ⟨pieces, hpieces, hcomponents⟩ := path.exists_pieces
  have htexts := map_componentText_componentOf pieces
  have hsplit := componentsOf_split_join hpieces
  rcases path.headComponents_cases with hhead | hhead | hhead <;> rw [hhead] at hcomponents <;>
    rw [hcomponents]
  · have hjoin := (components_join_of_head (fun piece hpiece => (hpieces piece hpiece).2)
      fun piece hpiece => (hpieces piece (List.mem_of_mem_head? hpiece)).1).2
    rw [List.nil_append]
    split
    · next hroot =>
      obtain ⟨piece, -, hpiece⟩ := List.mem_map.mp (hroot ▸ List.mem_singleton_self Component.root)
      rw [componentOf] at hpiece
      split at hpiece <;> simp at hpiece
    · rw [htexts, hjoin, componentsOf_of_counts fun piece hpiece => (hpieces piece hpiece).1]
  · by_cases hne : pieces = []
    · subst hne
      rfl
    · obtain ⟨first, rest, rfl⟩ := List.exists_cons_of_ne_nil hne
      show (⟨Bytes.join Bytes.slash ([] :: ((first :: rest).map componentOf).map componentText)⟩ :
        Path).components = _
      rw [htexts, Bytes.join_cons_of_ne_nil _ _ hne, List.nil_append, components_slash, hsplit hne]
      rfl
  · by_cases hne : pieces = []
    · subst hne
      rfl
    · show (⟨Bytes.join Bytes.slash (dot :: (pieces.map componentOf).map componentText)⟩ :
        Path).components = _
      rw [htexts, Bytes.join_cons_of_ne_nil _ _ hne, components_append_slash (by decide),
        hsplit hne]
      rfl

/-- The target of a link is the same path, however it was written. -/
theorem same_targetText (target : Path) : (⟨targetText target⟩ : Path).same target = true := by
  obtain ⟨front, hfront, htext⟩ : ∃ front, (⟨front⟩ : Path).components = target.components ∧
      targetText target =
        let written := front ++ if endsWithSlash target then [Bytes.slash] else []
        if written.length ≤ fieldSize then written else target.text :=
    ⟨_, components_written target, rfl⟩
  have hwritten : (⟨front ++ if endsWithSlash target then [Bytes.slash] else []⟩ :
      Path).components = target.components := by
    by_cases hend : endsWithSlash target = true
    · have hne : front ≠ [] := by
        rintro rfl
        have htarget : target.text ≠ [] := by
          intro hnil
          simp [endsWithSlash, hnil] at hend
        exact components_ne_nil htarget hfront.symm
      rw [if_pos hend, components_append_end hne, hfront]
    · rw [if_neg hend, List.append_nil, hfront]
  rw [same, beq_iff_eq, htext]
  generalize front ++ (if endsWithSlash target then [Bytes.slash] else []) = written at hwritten
  show (⟨if written.length ≤ fieldSize then written else target.text⟩ : Path).components = _
  split
  · exact hwritten
  · rfl

end ArchiveEntry

namespace BuildContext

open ArchiveEntry (longText)

inductive IsEntry (path : Path) (place : Location) : Node → ArchiveEntry → Prop
  | file (serial : Serial) (attributes : Attributes) (content : Bytes) :
      IsEntry path place (.file serial attributes content)
        ⟨Bytes.join Bytes.slash place, attributes.mode, .file content⟩
  | directory (attributes : Attributes) (entries : List (Bytes × Node)) :
      IsEntry path place (.directory attributes entries)
        ⟨Bytes.join Bytes.slash place, attributes.mode, .directory⟩
  | link {target text : Bytes} (same : (⟨text⟩ : Path).same ⟨target⟩ = true) :
      IsEntry path place (.link target) ⟨Bytes.join Bytes.slash place, linkMode, .link text⟩
  | pipe {attributes : Attributes} {text : Bytes} (steps : (⟨text⟩ : Path).steps = path.steps) :
      IsEntry path place (.special .pipe attributes) ⟨text, attributes.mode, .pipe⟩

def Entered (context : Path) (root : Node) (place : Location) (entry : ArchiveEntry) : Prop :=
  ∃ node, root.at? place = some node ∧ IsEntry (pathAt context place) place node entry

variable {context path : Path} {root node : Node} {place : Location} {entry : ArchiveEntry}

theorem exists_longText_of_enter {mode : Nat} {kind : EntryKind}
    (h : entryOf.enter path mode kind = .ok entry) :
    ∃ text, longText path = .ok text ∧ entry = ⟨text, mode, kind⟩ := by
  rw [entryOf.enter] at h
  split at h
  next text htext => exact ⟨text, htext, (Except.ok.inj h).symm⟩
  next => simp at h

/-- What is entered stands under its names, and a pipe under the path that it was reached by. -/
theorem isEntry_of_entryOf (hplain : ∀ name ∈ place, IsFileName name) (hne : place ≠ [])
    (h : entryOf path place node = .ok entry) : IsEntry path place node entry := by
  have hjoin : ∀ {mode : Nat} {kind : EntryKind},
      entryOf.enter ⟨Bytes.join Bytes.slash place⟩ mode kind = .ok entry →
        entry = ⟨Bytes.join Bytes.slash place, mode, kind⟩ := by
    intro mode kind henter
    obtain ⟨text, htext, rfl⟩ := exists_longText_of_enter henter
    rw [ArchiveEntry.longText_join hplain hne htext]
  cases node with
  | file serial attributes content => exact hjoin h ▸ .file serial attributes content
  | directory attributes entries => exact hjoin h ▸ .directory attributes entries
  | link target => exact hjoin h ▸ .link (ArchiveEntry.same_targetText ⟨target⟩)
  | special kind attributes =>
    cases kind with
    | socket => simp [entryOf] at h
    | pipe =>
      obtain ⟨text, htext, rfl⟩ := exists_longText_of_enter h
      exact .pipe (ArchiveEntry.steps_of_longText htext)

/-- All that leads to a node of a well named tree are names. -/
theorem isFileName_of_at? (hnamed : root.WellNamed) (h : root.at? place ≠ none) :
    ∀ name ∈ place, IsFileName name := by
  induction place generalizing root with
  | nil => simp
  | cons name rest ih =>
    cases root with
    | directory attributes entries =>
      cases hchild : Node.child? name entries with
      | none => simp [Node.at?, hchild] at h
      | some child =>
        have hname := (hnamed [] _ rfl).2 (name, child) (Node.mem_of_child? hchild)
        refine List.forall_mem_cons.mpr ⟨hname, ih (hnamed.child hchild) ?_⟩
        simpa [Node.at?, hchild] using h
    | _ => simp [Node.at?] at h

theorem forall₂_of_mapM {ε α β : Type} {f : α → Except ε β} {xs : List α} {ys : List β}
    (h : xs.mapM f = .ok ys) : List.Forall₂ (fun x y => f x = .ok y) xs ys := by
  induction xs generalizing ys with
  | nil =>
    obtain rfl : [] = ys := Except.ok.inj h
    exact .nil
  | cons x xs ih =>
    rw [List.mapM_cons] at h
    cases hx : f x with
    | error e => simp [hx, bind, Except.bind] at h
    | ok y =>
      cases hxs : xs.mapM f with
      | error e => simp [hx, hxs, bind, Except.bind] at h
      | ok more =>
        obtain rfl : y :: more = ys := by
          simpa [hx, hxs, bind, Except.bind, pure, Except.pure] using h
        exact .cons hx (ih hxs)

/-- An archive holds an entry for each place that was found. -/
theorem forall₂_entered {places : List Location} {listed : List ArchiveEntry}
    (hnamed : root.WellNamed) (hplaces : ∀ place ∈ places, place ≠ [] ∧ root.at? place ≠ none)
    (h : entriesOf (places.map (foundAt context root)) = .ok listed) :
    List.Forall₂ (Entered context root) places listed := by
  have hentries := forall₂_of_mapM h
  rw [List.forall₂_map_left_iff] at hentries
  refine (List.forall₂_and_left _ _ |>.mpr ⟨hplaces, hentries⟩).imp ?_
  rintro place entry ⟨⟨hne, hpresent⟩, hentry⟩
  obtain ⟨node, hat⟩ := Option.ne_none_iff_exists'.mp hpresent
  rw [foundAt_eq hat] at hentry
  exact ⟨node, hat, isEntry_of_entryOf (isFileName_of_at? hnamed hpresent) hne hentry⟩

end BuildContext

end ReleasePublisher
