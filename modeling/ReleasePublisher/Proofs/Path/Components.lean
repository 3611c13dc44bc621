import ReleasePublisher.Path

/-!
The components of paths that are put together from others: of a path with another name behind it, of
names joined by separators, and of the rest of a path below another one.
-/
namespace ReleasePublisher

namespace Bytes

theorem notMem_of_mem_split {separator : UInt8} {b piece : Bytes} (h : piece ∈ split separator b) :
    separator ∉ piece := by
  induction b generalizing piece with
  | nil =>
    rw [split_nil, List.mem_singleton] at h
    simp [h]
  | cons c rest ih =>
    rw [split_cons, splitStep.eq_def] at h
    split at h
    · rcases List.mem_cons.mp h with rfl | h
      · simp
      · exact ih h
    · next hne =>
      cases hpieces : split separator rest with
      | nil => exact absurd hpieces (split_ne_nil separator rest)
      | cons first more =>
        rw [hpieces] at h
        rcases List.mem_cons.mp h with rfl | h
        · have hfirst := ih (hpieces ▸ List.mem_cons_self)
          simp [Ne.symm hne, hfirst]
        · exact ih (hpieces ▸ List.mem_cons_of_mem _ h)

/-- Joining loses nothing when no piece has the separator in it. -/
theorem split_join {separator : UInt8} {pieces : List Bytes} (hne : pieces ≠ [])
    (h : ∀ piece ∈ pieces, separator ∉ piece) :
    split separator (join separator pieces) = pieces := by
  induction pieces with
  | nil => exact absurd rfl hne
  | cons piece rest ih =>
    obtain ⟨hpiece, hrest⟩ := List.forall_mem_cons.mp h
    by_cases hnil : rest = []
    · subst hnil
      exact split_eq_singleton hpiece
    · rw [join_cons_of_ne_nil _ _ hnil, split_append, split_eq_singleton hpiece, ih hnil hrest]
      rfl

theorem join_cons_eq (separator : UInt8) (piece : Bytes) (rest : List Bytes) :
    join separator (piece :: rest) = piece ++ rest.flatMap (separator :: ·) := by
  induction rest generalizing piece with
  | nil => simp [join]
  | cons next rest ih => rw [join_cons_of_ne_nil _ _ (by simp), ih, List.flatMap_cons]; simp

end Bytes

namespace Path

structure IsFileName (name : Bytes) : Prop where
  ne_nil : name ≠ []
  ne_dot : name ≠ dot
  ne_dotDot : name ≠ dotDot
  slash_notMem : Bytes.slash ∉ name

instance (name : Bytes) : Decidable (IsFileName name) :=
  decidable_of_iff (name ≠ [] ∧ name ≠ dot ∧ name ≠ dotDot ∧ Bytes.slash ∉ name)
    ⟨fun ⟨hnil, hdot, hup, hslash⟩ => ⟨hnil, hdot, hup, hslash⟩,
      fun ⟨hnil, hdot, hup, hslash⟩ => ⟨hnil, hdot, hup, hslash⟩⟩

def componentsOf (pieces : List Bytes) : List Component := (pieces.filter counts).map componentOf

theorem components_eq (p : Path) : p.components = p.headComponents ++ componentsOf p.pieces := rfl

theorem headComponents_cases (p : Path) :
    p.headComponents = [] ∨ p.headComponents = [.root] ∨ p.headComponents = [.here] := by
  rw [headComponents]
  split
  · exact Or.inl rfl
  · split
    · exact Or.inr (Or.inl rfl)
    · exact Or.inr (Or.inr rfl)

@[simp] theorem componentsOf_append (first rest : List Bytes) :
    componentsOf (first ++ rest) = componentsOf first ++ componentsOf rest := by
  simp [componentsOf]

theorem counts_eq_true_iff {piece : Bytes} : counts piece = true ↔ piece ≠ [] ∧ piece ≠ dot := by
  simp [counts]

theorem not_counts_iff {piece : Bytes} : ¬ counts piece = true ↔ piece = [] ∨ piece = dot := by
  rw [counts_eq_true_iff]
  grind

namespace IsFileName

variable {name : Bytes} {names : List Bytes}

theorem counts_eq (h : IsFileName name) : counts name = true :=
  counts_eq_true_iff.mpr ⟨h.ne_nil, h.ne_dot⟩

theorem componentOf_eq (h : IsFileName name) : componentOf name = .named name := by
  rw [componentOf, if_neg h.ne_dotDot]

theorem componentsOf_eq (h : ∀ n ∈ names, IsFileName n) :
    componentsOf names = names.map .named := by
  rw [componentsOf, List.filter_eq_self.mpr fun n hn => (h n hn).counts_eq]
  exact List.map_congr_left fun n hn => (h n hn).componentOf_eq

end IsFileName

theorem headLength_le (p : Path) : p.headLength ≤ p.text.length := by
  rw [headLength]
  split <;> simp_all

/-- What comes after a separator does not reach into the head of a path. -/
theorem headLength_append_slash {front : Bytes} (h : front ≠ []) (rest : Bytes) :
    (⟨front ++ Bytes.slash :: rest⟩ : Path).headLength = (⟨front⟩ : Path).headLength := by
  cases front with
  | nil => exact absurd rfl h
  | cons b front => cases front <;> grind [headLength, Bytes.slash]

theorem components_append_slash {front : Bytes} (h : front ≠ []) (rest : Bytes) :
    (⟨front ++ Bytes.slash :: rest⟩ : Path).components =
      (⟨front⟩ : Path).components ++ componentsOf (Bytes.split Bytes.slash rest) := by
  have hlength := headLength_append_slash h rest
  have habsolute : (⟨front ++ Bytes.slash :: rest⟩ : Path).isAbsolute =
      (⟨front⟩ : Path).isAbsolute := by
    cases front with
    | nil => exact absurd rfl h
    | cons b front => rfl
  have hhead : (⟨front ++ Bytes.slash :: rest⟩ : Path).headComponents =
      (⟨front⟩ : Path).headComponents := by
    rw [headComponents, headComponents, hlength, habsolute]
  have hpieces : (⟨front ++ Bytes.slash :: rest⟩ : Path).pieces =
      (⟨front⟩ : Path).pieces ++ Bytes.split Bytes.slash rest := by
    rw [pieces, hlength, List.drop_append_of_le_length (headLength_le ⟨front⟩), Bytes.split_append]
    rfl
  rw [components_eq, components_eq, hhead, hpieces, componentsOf_append, List.append_assoc]

theorem components_slash (rest : Bytes) :
    (⟨Bytes.slash :: rest⟩ : Path).components =
      .root :: componentsOf (Bytes.split Bytes.slash rest) := rfl

/-- A path has no head of its own when its first piece counts. -/
theorem headLength_of_counts {piece : Bytes} (h : counts piece = true)
    (hslash : Bytes.slash ∉ piece) (rest : List Bytes) :
    (⟨piece ++ rest.flatMap (Bytes.slash :: ·)⟩ : Path).headLength = 0 := by
  obtain ⟨hnil, hdot⟩ := counts_eq_true_iff.mp h
  generalize rest.flatMap (Bytes.slash :: ·) = more
  rcases piece with _ | ⟨b, _ | ⟨b', piece⟩⟩
  · exact absurd rfl hnil
  · have hb : b ≠ 46 := fun heq => hdot (by rw [heq, dot])
    have hb' : b ≠ 47 := by simpa [Bytes.slash, eq_comm] using hslash
    simp only [List.singleton_append, headLength]
    split <;> simp_all
  · have hb : b ≠ 47 ∧ b' ≠ 47 := by
      simp only [Bytes.slash, List.mem_cons, not_or] at hslash
      exact ⟨Ne.symm hslash.1, Ne.symm hslash.2.1⟩
    simp only [List.cons_append, headLength]
    split <;> simp_all

/-- Pieces that are joined are the components of the whole if the first one counts. -/
theorem components_join_of_head {pieces : List Bytes} (h : ∀ piece ∈ pieces, Bytes.slash ∉ piece)
    (hhead : ∀ piece, pieces.head? = some piece → counts piece = true) :
    (⟨Bytes.join Bytes.slash pieces⟩ : Path).headLength = 0 ∧
      (⟨Bytes.join Bytes.slash pieces⟩ : Path).components = componentsOf pieces := by
  cases pieces with
  | nil => exact ⟨rfl, rfl⟩
  | cons piece rest =>
    have hlength : (⟨Bytes.join Bytes.slash (piece :: rest)⟩ : Path).headLength = 0 := by
      rw [Bytes.join_cons_eq]
      exact headLength_of_counts (hhead piece rfl) (h piece List.mem_cons_self) _
    refine ⟨hlength, ?_⟩
    rw [components_eq, headComponents, if_pos hlength, pieces, hlength, List.drop_zero,
      Bytes.split_join (by simp) h, List.nil_append]

theorem components_join {names : List Bytes} (h : ∀ name ∈ names, IsFileName name) :
    (⟨Bytes.join Bytes.slash names⟩ : Path).components = names.map .named := by
  rw [(components_join_of_head (fun n hn => (h n hn).slash_notMem) fun n hn =>
    (h n (List.mem_of_mem_head? hn)).counts_eq).2, IsFileName.componentsOf_eq h]

/-- A relative path behind another one only adds its pieces. -/
theorem components_div_of_relative {p q : Path} (hp : p.text ≠ []) (hq : q.isAbsolute = false) :
    (p / q : Path).components = p.components ++ componentsOf (Bytes.split Bytes.slash q.text) := by
  show (append p q).components = _
  rw [append, if_neg (by simp [hq])]
  obtain ⟨text⟩ := p
  by_cases hlast : text.getLast? = some Bytes.slash
  · obtain ⟨front, rfl⟩ := List.getLast?_eq_some_iff.mp hlast
    rw [if_pos (by simp)]
    by_cases hfront : front = []
    · subst hfront
      show (⟨Bytes.slash :: q.text⟩ : Path).components = _
      rw [components_slash]
      rfl
    · have htext : front ++ [Bytes.slash] ++ q.text = front ++ Bytes.slash :: q.text := by simp
      rw [htext, components_append_slash hfront, components_append_slash hfront]
      simp [componentsOf, counts]
  · have hempty : text ≠ [] := hp
    rw [if_neg (by simp [hempty, hlast]), components_append_slash hempty]

/-- A name behind a path is one component more. -/
theorem components_div {name : Bytes} (h : IsFileName name) (p : Path) :
    (p / ⟨name⟩ : Path).components = p.components ++ [.named name] := by
  have hone : componentsOf (Bytes.split Bytes.slash name) = [.named name] := by
    rw [Bytes.split_eq_singleton h.slash_notMem]
    exact IsFileName.componentsOf_eq (by simpa using h)
  have habsolute : (⟨name⟩ : Path).isAbsolute = false := by
    rw [isAbsolute, beq_eq_false_iff_ne]
    exact fun hhead => h.slash_notMem (List.mem_of_mem_head? hhead)
  by_cases hempty : p.text = []
  · obtain rfl : p = ⟨[]⟩ := congrArg Path.mk hempty
    show (append ⟨[]⟩ ⟨name⟩).components = _
    rw [append, if_neg (by simp [habsolute]), if_pos (by simp)]
    exact components_join (List.forall_mem_singleton.mpr h)
  · rw [components_div_of_relative hempty habsolute, hone]

theorem filter_skipPieces (pieces : List Bytes) :
    (skipPieces pieces).filter counts = pieces.filter counts := by
  induction pieces with
  | nil => rfl
  | cons piece rest ih =>
    rw [skipPieces, List.dropWhile_cons]
    cases hcounts : counts piece with
    | true => simp
    | false => simpa [hcounts, skipPieces] using ih

theorem filter_trimPieces (pieces : List Bytes) :
    (trimPieces pieces).filter counts = pieces.filter counts := by
  rw [trimPieces, List.filter_reverse]
  have hskip := filter_skipPieces pieces.reverse
  rw [skipPieces] at hskip
  rw [hskip, List.filter_reverse, List.reverse_reverse]

theorem skipPieces_subset (pieces : List Bytes) : skipPieces pieces ⊆ pieces :=
  (List.dropWhile_sublist _).subset

theorem trimPieces_subset (pieces : List Bytes) : trimPieces pieces ⊆ pieces := by
  intro piece hpiece
  rw [trimPieces, List.mem_reverse] at hpiece
  exact List.mem_reverse.mp ((List.dropWhile_sublist _).subset hpiece)

theorem counts_of_head?_skipPieces {pieces : List Bytes} {piece : Bytes}
    (h : (skipPieces pieces).head? = some piece) : counts piece = true := by
  have hhead := List.head?_dropWhile_not (!counts ·) pieces
  rw [skipPieces] at h
  rw [h] at hhead
  simpa using hhead

/-- The components in front are the ones that are dropped. -/
theorem componentsOf_of_dropComponents {base : List Component} {pieces rest : List Bytes}
    (h : dropComponents base pieces = some rest) :
    componentsOf pieces = base ++ componentsOf rest ∧ rest ⊆ pieces := by
  induction base generalizing pieces with
  | nil =>
    obtain rfl : pieces = rest := by simpa [dropComponents] using h
    exact ⟨rfl, List.Subset.refl _⟩
  | cons c base ih =>
    cases hskip : skipPieces pieces with
    | nil => simp [dropComponents, hskip] at h
    | cons piece more =>
      simp only [dropComponents, hskip, Option.ite_none_right_eq_some] at h
      obtain ⟨rfl, hdrop⟩ := h
      obtain ⟨hmore, hsubset⟩ := ih hdrop
      have hcounts : counts piece = true := counts_of_head?_skipPieces (by rw [hskip]; rfl)
      refine ⟨?_, fun x hx => skipPieces_subset pieces ?_⟩
      · rw [componentsOf, ← filter_skipPieces, hskip, List.filter_cons_of_pos hcounts,
          List.map_cons, List.cons_append, ← hmore]
        rfl
      · rw [hskip]
        exact List.mem_cons_of_mem _ (hsubset hx)

/-- A path that begins with some components can be taken off from them. -/
theorem exists_dropComponents {base more : List Component} {pieces : List Bytes}
    (h : componentsOf pieces = base ++ more) : ∃ rest, dropComponents base pieces = some rest := by
  induction base generalizing pieces with
  | nil => exact ⟨pieces, rfl⟩
  | cons c base ih =>
    rw [componentsOf, ← filter_skipPieces] at h
    cases hskip : skipPieces pieces with
    | nil => simp [hskip] at h
    | cons piece rest =>
      have hcounts : counts piece = true := counts_of_head?_skipPieces (by rw [hskip]; rfl)
      rw [hskip, List.filter_cons_of_pos hcounts, List.map_cons, List.cons_append] at h
      obtain ⟨hpiece, hrest⟩ := List.cons.inj h
      rw [dropComponents, hskip]
      simp only [hpiece, if_true]
      exact ih hrest

theorem components_ne_nil {p : Path} (h : p.text ≠ []) : p.components ≠ [] := by
  by_cases hhead : p.headLength = 0
  · intro hnil
    rw [components_eq, headComponents, if_pos hhead, List.nil_append, pieces, hhead,
      List.drop_zero, componentsOf, List.map_eq_nil_iff, List.filter_eq_nil_iff] at hnil
    have htext := Bytes.join_split Bytes.slash p.text
    rw [headLength] at hhead
    -- the first piece would be empty or a dot, and then it would be a head
    cases hpieces : Bytes.split Bytes.slash p.text with
    | nil => exact Bytes.split_ne_nil _ _ hpieces
    | cons piece more =>
      rw [hpieces, Bytes.join_cons_eq] at htext
      have hcounts := hnil piece (hpieces ▸ List.mem_cons_self)
      rcases not_counts_iff.mp hcounts with rfl | rfl <;> cases more <;>
        simp_all [← htext, dot, Bytes.slash]
  · rw [components_eq, headComponents, if_neg hhead]
    split <;> simp

theorem getLast?_trimPieces {pieces : List Bytes} {piece : Bytes}
    (h : (trimPieces pieces).getLast? = some piece) : counts piece = true := by
  rw [trimPieces, List.getLast?_reverse] at h
  exact counts_of_head?_skipPieces h

theorem exists_join_concat (front : List Bytes) (piece : Bytes) :
    ∃ text, Bytes.join Bytes.slash (front ++ [piece]) = text ++ piece := by
  induction front with
  | nil => exact ⟨[], rfl⟩
  | cons first front ih =>
    obtain ⟨text, htext⟩ := ih
    refine ⟨first ++ Bytes.slash :: text, ?_⟩
    rw [List.cons_append, Bytes.join_cons_of_ne_nil _ _ (by simp), htext]
    simp

theorem getLast?_join {pieces : List Bytes} (h : ∀ piece ∈ pieces, Bytes.slash ∉ piece)
    (hlast : ∀ piece, pieces.getLast? = some piece → piece ≠ []) :
    (Bytes.join Bytes.slash pieces).getLast? ≠ some Bytes.slash := by
  rcases List.eq_nil_or_concat pieces with rfl | ⟨front, piece, rfl⟩
  · simp [Bytes.join]
  · rw [List.concat_eq_append] at h hlast ⊢
    have hne : piece ≠ [] := hlast piece (by simp)
    obtain ⟨text, htext⟩ := exists_join_concat front piece
    have hb := List.getLast?_eq_some_getLast hne
    generalize piece.getLast hne = b at hb
    rw [htext, List.getLast?_append, hb]
    intro hslash
    obtain rfl : b = Bytes.slash := by simpa using hslash
    exact h piece (by simp) (List.mem_of_getLast? hb)

/-- A path is its base and what is below it. -/
theorem components_of_below? {p base rest : Path} (h : p.below? base = some rest)
    (hbase : base.text ≠ []) :
    p.components = base.components ++ rest.components ∧
      rest.text.getLast? ≠ some Bytes.slash ∧
        ∃ pieces, (∀ piece ∈ pieces, Bytes.slash ∉ piece) ∧
          rest.components = componentsOf pieces := by
  have hrest : ∃ inner, inner ⊆ p.pieces ∧ p.components = base.components ++ componentsOf inner ∧
      rest = ⟨Bytes.join Bytes.slash (skipPieces (trimPieces inner))⟩ := by
    rw [below?] at h
    cases hcomponents : base.components with
    | nil => exact absurd hcomponents (components_ne_nil hbase)
    | cons c more =>
      simp only [hcomponents, Option.map_eq_some_iff] at h
      obtain ⟨inner, hinner, rfl⟩ := h
      cases hhead : p.headComponents with
      | nil =>
        rw [hhead] at hinner
        obtain ⟨hdrop, hsubset⟩ := componentsOf_of_dropComponents hinner
        exact ⟨inner, hsubset, by rw [components_eq, hhead, hdrop]; rfl, rfl⟩
      | cons first others =>
        rw [hhead] at hinner
        simp only [Option.ite_none_right_eq_some] at hinner
        obtain ⟨rfl, hinner⟩ := hinner
        obtain ⟨hdrop, hsubset⟩ := componentsOf_of_dropComponents hinner
        have hothers : others = [] := by
          rw [headComponents] at hhead
          split at hhead
          · simp at hhead
          · split at hhead <;> exact (List.cons.inj hhead).2.symm
        refine ⟨inner, hsubset, ?_, rfl⟩
        rw [components_eq, hhead, hothers, hdrop]
        rfl
  obtain ⟨inner, hsubset, hcomponents, rfl⟩ := hrest
  have hslash : ∀ piece ∈ skipPieces (trimPieces inner), Bytes.slash ∉ piece := fun piece hpiece =>
    Bytes.notMem_of_mem_split (hsubset (trimPieces_subset _ (skipPieces_subset _ hpiece)))
  have hjoined := (components_join_of_head hslash fun piece => counts_of_head?_skipPieces).2
  refine ⟨?_, ?_, _, hslash, hjoined⟩
  · rw [hcomponents, hjoined, componentsOf, componentsOf, filter_skipPieces, filter_trimPieces]
  · refine getLast?_join hslash fun piece hpiece => ?_
    have htrimmed : (trimPieces inner).getLast? = some piece := by
      obtain ⟨before, hbefore⟩ : skipPieces (trimPieces inner) <:+ trimPieces inner :=
        List.dropWhile_suffix _
      rw [← hbefore, List.getLast?_append, hpiece]
      rfl
    exact (counts_eq_true_iff.mp (getLast?_trimPieces htrimmed)).1

/-- A path that starts with the components of another one is below it. -/
theorem exists_below? {p base : Path} {more : List Component}
    (h : p.components = base.components ++ more) : ∃ rest, p.below? base = some rest := by
  unfold below?
  cases hbase : base.components with
  | nil => exact ⟨_, rfl⟩
  | cons c front =>
    rw [hbase, components_eq, List.cons_append] at h
    obtain hhead | ⟨first, hhead⟩ :
        p.headComponents = [] ∨ ∃ first, p.headComponents = [first] := by
      rcases p.headComponents_cases with hhead | hhead | hhead <;> simp [hhead]
    · rw [hhead, List.nil_append] at h
      obtain ⟨rest, hrest⟩ : ∃ rest, dropComponents (c :: front) p.pieces = some rest :=
        exists_dropComponents h
      simp only [hhead, hrest]
      exact ⟨_, rfl⟩
    · rw [hhead] at h
      obtain ⟨hfirst, hmore⟩ := List.cons.inj h
      obtain ⟨rest, hrest⟩ := exists_dropComponents hmore
      simp only [hhead, hfirst, if_true, hrest]
      exact ⟨_, rfl⟩

end Path

end ReleasePublisher
