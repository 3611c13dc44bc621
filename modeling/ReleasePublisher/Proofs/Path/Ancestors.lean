import Mathlib.Data.List.Induction
import ReleasePublisher.Proofs.Path.Components

/-!
The paths above a path. Each is the shortest front of its text with some of its components, and for
each number of components there is at most one. A path has its parent, the parent of that and so on
above it and nothing else, so that its ancestors are all of them, the nearest first.
-/
namespace ReleasePublisher

namespace Bytes

theorem join_append (separator : UInt8) (front : List Bytes) {rest : List Bytes}
    (h : rest ≠ []) (hfront : front ≠ []) :
    join separator (front ++ rest) = join separator front ++ separator :: join separator rest := by
  induction front with
  | nil => exact absurd rfl hfront
  | cons piece more ih =>
    by_cases hmore : more = []
    · subst hmore
      exact join_cons_of_ne_nil separator piece h
    · rw [List.cons_append, join_cons_of_ne_nil _ _ (by simp [h]), ih hmore,
        join_cons_of_ne_nil _ _ hmore]
      simp

theorem isPrefix_join {separator : UInt8} {front pieces : List Bytes} (h : front <+: pieces) :
    join separator front <+: join separator pieces := by
  obtain ⟨rest, rfl⟩ := h
  by_cases hrest : rest = []
  · simp [hrest]
  · by_cases hfront : front = []
    · simp [hfront, join]
    · rw [join_append separator front hrest hfront]
      exact List.prefix_append _ _

end Bytes

def Component.size : Component → Nat
  | .root => 1
  | .here => 2
  | .parent => 3
  | .named name => name.length + 1

def Component.sizes : List Component → Nat
  | [] => 0
  | c :: rest => c.size + sizes rest

theorem Component.sizes_append (components rest : List Component) :
    sizes (components ++ rest) = sizes components + sizes rest := by
  induction components with
  | nil => simp [sizes]
  | cons c components ih =>
    rw [List.cons_append, sizes, sizes, ih]
    omega

theorem Component.size_pos (c : Component) : 0 < c.size := by
  cases c <;> simp [size]

namespace Path

variable {p q r : Path} {front piece text : Bytes}

theorem size_componentOf (piece : Bytes) : (componentOf piece).size = piece.length + 1 := by
  unfold componentOf
  split
  · next hup => simp [Component.size, hup, dotDot]
  · rfl

def bulk (text : Bytes) : Nat := Component.sizes (⟨text⟩ : Path).components

theorem bulk_eq_of_components {text' : Bytes}
    (h : (⟨text⟩ : Path).components = (⟨text'⟩ : Path).components) : bulk text = bulk text' := by
  rw [bulk, bulk, h]

/-- What comes behind the last separator. -/
theorem exists_last_piece (text : Bytes) :
    ∃ piece, Bytes.slash ∉ piece ∧
      (text = piece ∨ ∃ front, text = front ++ Bytes.slash :: piece) := by
  induction text using List.reverseRecOn with
  | nil => exact ⟨[], by simp, Or.inl rfl⟩
  | append_singleton text b ih =>
    by_cases hb : b = Bytes.slash
    · subst hb
      exact ⟨[], by simp, Or.inr ⟨text, rfl⟩⟩
    · obtain ⟨piece, hslash, htext⟩ := ih
      refine ⟨piece ++ [b], by simp [hslash, Ne.symm hb], ?_⟩
      rcases htext with rfl | ⟨front, rfl⟩
      · exact Or.inl rfl
      · exact Or.inr ⟨front, by simp⟩

theorem bulk_nil : bulk [] = 0 := rfl

theorem bulk_piece (hslash : Bytes.slash ∉ piece) (hne : piece ≠ []) :
    bulk piece = piece.length + 1 := by
  by_cases hdot : piece = dot
  · subst hdot
    rfl
  · have hcounts : counts piece = true := counts_eq_true_iff.mpr ⟨hne, hdot⟩
    have hcomponents : (⟨piece⟩ : Path).components = [componentOf piece] := by
      have hjoin := (components_join_of_head (List.forall_mem_singleton.mpr hslash) (by simpa)).2
      simpa [Bytes.join, componentsOf, hcounts] using hjoin
    rw [bulk, hcomponents, Component.sizes, Component.sizes, size_componentOf]

theorem bulk_append_slash (front : Bytes) (hslash : Bytes.slash ∉ piece) :
    bulk (front ++ Bytes.slash :: piece) =
      bulk (front ++ [Bytes.slash]) + if counts piece then piece.length + 1 else 0 := by
  have hone : ∀ {piece : Bytes}, Bytes.slash ∉ piece →
      (⟨front ++ Bytes.slash :: piece⟩ : Path).components =
        (⟨front ++ [Bytes.slash]⟩ : Path).components ++ componentsOf [piece] := by
    intro piece hslash
    by_cases hfront : front = []
    · subst hfront
      show (⟨Bytes.slash :: piece⟩ : Path).components = _
      rw [components_slash, Bytes.split_eq_singleton hslash]
      rfl
    · rw [components_append_slash hfront, components_append_slash hfront,
        Bytes.split_eq_singleton hslash]
      simp [componentsOf, counts]
  rw [bulk, hone hslash, Component.sizes_append]
  by_cases hcounts : counts piece = true <;>
    simp [bulk, Component.sizes, componentsOf, hcounts, size_componentOf]

/-- A longer text has no less in it that counts. -/
theorem bulk_le_concat (text : Bytes) (b : UInt8) : bulk text ≤ bulk (text ++ [b]) := by
  by_cases hb : b = Bytes.slash
  · subst hb
    by_cases hne : text = []
    · simp [hne, bulk_nil]
    · apply Nat.le_of_eq
      apply bulk_eq_of_components
      rw [components_append_slash hne]
      simp [componentsOf, counts]
  · obtain ⟨piece, hslash, htext⟩ := exists_last_piece text
    have hmore : Bytes.slash ∉ piece ++ [b] := by simp [hslash, Ne.symm hb]
    rcases htext with rfl | ⟨front, rfl⟩
    · rw [bulk_piece hmore (by simp)]
      by_cases hne : text = []
      · simp [hne, bulk_nil]
      · rw [bulk_piece hslash hne]
        simp
    · rw [List.append_assoc, List.cons_append, bulk_append_slash front hslash,
        bulk_append_slash front hmore]
      by_cases hcounts : counts piece = true
      · have hstill : counts (piece ++ [b]) = true := by
          obtain ⟨hnil, hdot⟩ := counts_eq_true_iff.mp hcounts
          refine counts_eq_true_iff.mpr ⟨by simp, ?_⟩
          intro hsame
          have hlength := congrArg List.length hsame
          have hpos := List.length_pos_iff.mpr hnil
          simp [dot] at hlength
          exact hnil hlength
        simp [hcounts, hstill]
      · simp [hcounts]

theorem bulk_le_of_isPrefix {short long : Bytes} (h : short <+: long) : bulk short ≤ bulk long := by
  obtain ⟨rest, rfl⟩ := h
  induction rest generalizing short with
  | nil => simp
  | cons b rest ih =>
    have hstep : short ++ b :: rest = short ++ [b] ++ rest := by simp
    rw [hstep]
    exact Nat.le_trans (bulk_le_concat short b) ih

/-- Nothing at the end of a text can be left out without a loss. -/
def IsTight (text : Bytes) : Prop :=
  ∀ short, short <+: text → (⟨short⟩ : Path).components = (⟨text⟩ : Path).components → short = text

theorem isTight_nil : IsTight [] := fun _ hshort _ => List.prefix_nil.mp hshort

theorem isTight_concat {b : UInt8} (h : bulk text < bulk (text ++ [b])) :
    IsTight (text ++ [b]) := by
  intro short hshort hcomponents
  rcases List.prefix_concat_iff.mp hshort with hwhole | hless
  · exact hwhole
  · have hle := bulk_le_of_isPrefix hless
    have heq := bulk_eq_of_components hcomponents
    omega

/-- A text is tight when it ends with a piece that counts. -/
theorem isTight_of_counts (hslash : Bytes.slash ∉ piece) (hcounts : counts piece = true)
    (front : Bytes) : IsTight piece ∧ IsTight (front ++ Bytes.slash :: piece) := by
  rcases List.eq_nil_or_concat piece with rfl | ⟨less, b, rfl⟩
  · simp [counts] at hcounts
  · rw [List.concat_eq_append] at hslash hcounts ⊢
    have hless : Bytes.slash ∉ less := fun hmem => hslash (List.mem_append_left _ hmem)
    constructor
    · apply isTight_concat
      rw [bulk_piece hslash (by simp)]
      by_cases hne : less = []
      · simp [hne, bulk_nil]
      · rw [bulk_piece hless hne]
        simp
    · have htext : front ++ Bytes.slash :: (less ++ [b]) =
          front ++ Bytes.slash :: less ++ [b] := by simp
      rw [htext]
      apply isTight_concat
      rw [← htext, bulk_append_slash front hless, bulk_append_slash front hslash, hcounts]
      simp only [List.length_append, List.length_singleton, if_true]
      split <;> omega

/-- A path above another one, as far as the texts tell: components are cut off at the end, and with
them all that does not count before them. -/
structure Above (q p : Path) : Prop where
  isAbsolute_eq : q.isAbsolute = p.isAbsolute
  isPrefix : q.text <+: p.text
  exists_rest : ∃ c rest, p.components = q.components ++ c :: rest
  isTight : IsTight q.text

def AtOrAbove (q p : Path) : Prop := q = p ∨ q.Above p

theorem Above.length_lt (h : q.Above p) : q.components.length < p.components.length := by
  obtain ⟨c, rest, hcomponents⟩ := h.exists_rest
  rw [hcomponents, List.length_append, List.length_cons]
  omega

theorem Above.trans (hq : q.Above r) (hr : r.Above p) : q.Above p := by
  obtain ⟨c, rest, hqr⟩ := hq.exists_rest
  obtain ⟨d, more, hrp⟩ := hr.exists_rest
  refine ⟨hq.isAbsolute_eq.trans hr.isAbsolute_eq, hq.isPrefix.trans hr.isPrefix,
    ⟨c, rest ++ d :: more, ?_⟩, hq.isTight⟩
  rw [hrp, hqr]
  simp

/-- Of two paths above the same path, the one with fewer components is above the other. -/
theorem Above.eq_or_above (hq : q.Above p) (hr : r.Above p)
    (h : q.components <+: r.components) : q = r ∨ q.Above r := by
  have htexts := List.prefix_or_prefix_of_prefix hq.isPrefix hr.isPrefix
  obtain ⟨rest, hrest⟩ := h
  cases rest with
  | nil =>
    rw [List.append_nil] at hrest
    left
    apply congrArg Path.mk
    rcases htexts with hshort | hlong
    · exact hr.isTight _ hshort hrest
    · exact (hq.isTight _ hlong hrest.symm).symm
  | cons c rest =>
    right
    refine ⟨hq.isAbsolute_eq.trans hr.isAbsolute_eq.symm, ?_, ⟨c, rest, hrest.symm⟩, hq.isTight⟩
    rcases htexts with hshort | hlong
    · exact hshort
    · -- a front of the text cannot have more in it
      have hle := bulk_le_of_isPrefix hlong
      have hpos := c.size_pos
      have hmore : bulk r.text = bulk q.text + (c.size + Component.sizes rest) := by
        rw [bulk, ← hrest, Component.sizes_append, Component.sizes, bulk]
      omega

/-- How the text of a path begins: with a piece that counts, a separator, or a `.` of its own. -/
inductive Beginning (p : Path) : Prop
  | piece {piece : Bytes} {rest : List Bytes} (length_eq : p.headLength = 0)
      (pieces_eq : p.pieces = piece :: rest) (counts_eq : counts piece = true) : Beginning p
  | slash (length_eq : p.headLength = 1) (head_eq : p.text.take 1 = [Bytes.slash]) : Beginning p
  | dot {rest : List Bytes} (length_eq : p.headLength = 1) (head_eq : p.text.take 1 = dot)
      (pieces_eq : p.pieces = [] :: rest) : Beginning p

theorem beginning (h : p.text ≠ []) : Beginning p := by
  obtain ⟨text⟩ := p
  rcases text with _ | ⟨b, text⟩
  · exact absurd rfl h
  by_cases hslash : b = Bytes.slash
  · subst hslash
    exact .slash rfl rfl
  cases hpieces : Bytes.split Bytes.slash (b :: text) with
  | nil => exact absurd hpieces (Bytes.split_ne_nil _ _)
  | cons piece rest =>
    have hjoin : Bytes.join Bytes.slash (piece :: rest) = b :: text := by
      rw [← hpieces, Bytes.join_split]
    rw [Bytes.join_cons_eq] at hjoin
    have hpiece : Bytes.slash ∉ piece := Bytes.notMem_of_mem_split (hpieces ▸ List.mem_cons_self)
    by_cases hcounts : counts piece = true
    · have hlength : (⟨b :: text⟩ : Path).headLength = 0 := by
        rw [← hjoin]
        exact headLength_of_counts hcounts hpiece rest
      have hbegins : (⟨b :: text⟩ : Path).pieces = piece :: rest := by
        rw [pieces, hlength, List.drop_zero, hpieces]
      exact .piece hlength hbegins hcounts
    · rcases not_counts_iff.mp hcounts with rfl | rfl
      · cases rest with
        | nil => simp at hjoin
        | cons next rest =>
          have hb : Bytes.slash = b := by simpa using congrArg List.head? hjoin
          exact absurd hb.symm hslash
      · -- the piece is a dot, at the end or with a separator behind it
        cases rest with
        | nil =>
          obtain ⟨rfl, rfl⟩ : b = 46 ∧ text = [] := by simpa [dot, eq_comm] using hjoin
          exact .dot rfl rfl rfl
        | cons next rest =>
          have htext : b :: text =
              46 :: Bytes.slash :: (next ++ rest.flatMap (Bytes.slash :: ·)) := by
            rw [← hjoin]
            simp [dot]
          rw [htext]
          exact .dot rfl rfl (by rw [pieces]; rfl)

theorem componentsOf_split_join_of_slash {pieces : List Bytes}
    (h : ∀ piece ∈ pieces, Bytes.slash ∉ piece) :
    componentsOf (Bytes.split Bytes.slash (Bytes.join Bytes.slash pieces)) =
      componentsOf pieces := by
  by_cases hne : pieces = []
  · subst hne
    rfl
  · rw [Bytes.split_join hne h]

def cutTo (p : Path) (pieces : List Bytes) : Path :=
  ⟨p.text.take p.headLength ++ Bytes.join Bytes.slash pieces⟩

theorem isAbsolute_of_take {b : UInt8} (h : p.text.take 1 = [b]) :
    p.isAbsolute = (b == Bytes.slash) := by
  obtain ⟨text⟩ := p
  cases text with
  | nil => simp at h
  | cons c text =>
    obtain rfl : c = b := by simpa using h
    rfl

/-- A path that is cut between two pieces has the components of the pieces that stay. -/
theorem components_cutTo {pieces : List Bytes} (hne : p.text ≠ []) (h : pieces <+: p.pieces) :
    (p.cutTo pieces).components = p.headComponents ++ componentsOf pieces := by
  have hslash : ∀ piece ∈ pieces, Bytes.slash ∉ piece := fun piece hpiece =>
    Bytes.notMem_of_mem_split (h.subset hpiece)
  unfold cutTo
  cases beginning hne with
  | @piece piece rest length_eq pieces_eq counts_eq =>
    have hhead : ∀ first, pieces.head? = some first → counts first = true := by
      intro first hfirst
      rw [pieces_eq] at h
      obtain rfl : first = piece := by
        cases pieces with
        | nil => simp at hfirst
        | cons other more => simp_all [List.cons_prefix_cons]
      exact counts_eq
    rw [headComponents, if_pos length_eq, length_eq, List.take_zero, List.nil_append,
      List.nil_append]
    exact (components_join_of_head hslash hhead).2
  | slash length_eq head_eq =>
    have habsolute : p.isAbsolute = true := isAbsolute_of_take head_eq
    rw [headComponents, if_neg (by simp [length_eq]), if_pos habsolute, length_eq, head_eq]
    show (⟨Bytes.slash :: Bytes.join Bytes.slash pieces⟩ : Path).components = _
    rw [components_slash, componentsOf_split_join_of_slash hslash]
    rfl
  | @dot rest length_eq head_eq pieces_eq =>
    have hrelative : p.isAbsolute = false := isAbsolute_of_take head_eq
    rw [headComponents, if_neg (by simp [length_eq]), if_neg (by simp [hrelative]), length_eq,
      head_eq]
    rw [pieces_eq] at h
    rcases pieces with _ | ⟨piece, _ | ⟨next, more⟩⟩
    · rfl
    · obtain rfl : piece = [] := by simpa using h
      rfl
    · obtain rfl : piece = [] := (List.cons_prefix_cons.mp h).1
      have hmore : ∀ piece ∈ next :: more, Bytes.slash ∉ piece := fun piece hpiece =>
        hslash piece (List.mem_cons_of_mem _ hpiece)
      rw [Bytes.join_cons_of_ne_nil _ _ (by simp), List.nil_append,
        components_append_slash (by decide), componentsOf_split_join_of_slash hmore]
      rfl

theorem isPrefix_text_cutTo {pieces : List Bytes} (h : pieces <+: p.pieces) :
    (p.cutTo pieces).text <+: p.text := by
  have htext : p.text.take p.headLength ++ Bytes.join Bytes.slash p.pieces = p.text := by
    rw [Path.pieces, Bytes.join_split, List.take_append_drop]
  have hjoin : Bytes.join Bytes.slash pieces <+: Bytes.join Bytes.slash p.pieces :=
    Bytes.isPrefix_join h
  have hwhole := (List.prefix_append_right_inj (p.text.take p.headLength)).mpr hjoin
  rwa [htext] at hwhole

theorem take_of_isAbsolute (h : p.isAbsolute = true) :
    p.headLength = 1 ∧ p.text.take 1 = [Bytes.slash] := by
  obtain ⟨text⟩ := p
  cases text with
  | nil => simp [isAbsolute] at h
  | cons b text =>
    obtain rfl : b = Bytes.slash := by simpa [isAbsolute] using h
    exact ⟨rfl, rfl⟩

theorem isAbsolute_cutTo {pieces : List Bytes} (h : pieces <+: p.pieces) :
    (p.cutTo pieces).isAbsolute = p.isAbsolute := by
  cases habsolute : p.isAbsolute with
  | true =>
    obtain ⟨hlength, htake⟩ := take_of_isAbsolute habsolute
    simp [cutTo, hlength, htake, isAbsolute]
  | false =>
    obtain ⟨rest, hrest⟩ := isPrefix_text_cutTo h
    rw [isAbsolute, beq_eq_false_iff_ne]
    intro hhead
    rw [isAbsolute, ← hrest, List.head?_append, hhead] at habsolute
    simp at habsolute

/-- A text that is cut behind a piece that counts is tight, and so is the head alone. -/
theorem isTight_cutTo {pieces : List Bytes} (hne : p.text ≠ []) (h : pieces <+: p.pieces)
    (hlast : ∀ piece, pieces.getLast? = some piece → counts piece = true) :
    IsTight (p.cutTo pieces).text := by
  have hslash : ∀ piece ∈ pieces, Bytes.slash ∉ piece := fun piece hpiece =>
    Bytes.notMem_of_mem_split (h.subset hpiece)
  unfold cutTo
  rcases List.eq_nil_or_concat pieces with rfl | ⟨front, last, rfl⟩
  · rw [Bytes.join, List.append_nil]
    cases beginning hne with
    | piece length_eq =>
      rw [length_eq]
      exact isTight_nil
    | slash length_eq head_eq =>
      have hbulk : bulk [] < bulk ([] ++ [Bytes.slash]) := by decide
      rw [length_eq, head_eq]
      exact isTight_concat hbulk
    | dot length_eq head_eq =>
      have hbulk : bulk [] < bulk ([] ++ dot) := by decide
      rw [length_eq, head_eq]
      exact isTight_concat hbulk
  · rw [List.concat_eq_append] at h hlast hslash ⊢
    have hcounts : counts last = true := hlast last (by simp)
    obtain ⟨halone, hbehind⟩ := isTight_of_counts (hslash last (by simp)) hcounts []
    by_cases hfront : front = []
    · subst hfront
      show IsTight (p.text.take p.headLength ++ last)
      cases beginning hne with
      | piece length_eq =>
        rw [length_eq]
        exact halone
      | slash length_eq head_eq =>
        rw [length_eq, head_eq]
        exact hbehind
      | dot length_eq head_eq pieces_eq =>
        rw [pieces_eq] at h
        obtain rfl : last = [] := by simpa using h
        simp [counts] at hcounts
    · rw [Bytes.join_append _ _ (by simp) hfront, ← List.append_assoc]
      exact (isTight_of_counts (hslash last (by simp)) hcounts _).2

theorem isPrefix_trimPieces (pieces : List Bytes) : trimPieces pieces <+: pieces := by
  obtain ⟨rest, hrest⟩ := List.dropWhile_suffix (l := pieces.reverse) (!counts ·)
  refine ⟨rest.reverse, ?_⟩
  rw [trimPieces, ← List.reverse_append, hrest, List.reverse_reverse]

theorem componentsOf_trimPieces (pieces : List Bytes) :
    componentsOf (trimPieces pieces) = componentsOf pieces := by
  rw [componentsOf, componentsOf, filter_trimPieces]

theorem text_ne_nil_of_components (h : p.components ≠ []) : p.text ≠ [] := by
  intro hnil
  obtain ⟨text⟩ := p
  obtain rfl : text = [] := hnil
  exact h rfl

theorem headLength_le_one (p : Path) : p.headLength ≤ 1 := by
  unfold headLength
  split <;> omega

/-- A path is cut in front of its last piece that counts, and of all before it that does not. -/
theorem above_cutTo {before : List Bytes} {last : Bytes}
    (htrim : trimPieces p.pieces = before ++ [last]) :
    (p.cutTo (trimPieces before)).Above p ∧
      p.components = (p.cutTo (trimPieces before)).components ++ [componentOf last] := by
  have hcounts : counts last = true := getLast?_trimPieces (by rw [htrim]; simp)
  have hbefore : trimPieces before <+: p.pieces :=
    (isPrefix_trimPieces before).trans
      ((List.prefix_append before [last]).trans (htrim ▸ isPrefix_trimPieces p.pieces))
  have hwhole : p.components =
      p.headComponents ++ componentsOf (trimPieces before) ++ [componentOf last] := by
    rw [components_eq, ← componentsOf_trimPieces, htrim, componentsOf_append,
      componentsOf_trimPieces, List.append_assoc]
    simp [componentsOf, hcounts]
  have hne : p.text ≠ [] := text_ne_nil_of_components (by simp [hwhole])
  have hcut : p.components =
      (p.cutTo (trimPieces before)).components ++ [componentOf last] := by
    rw [hwhole, components_cutTo hne hbefore]
  exact ⟨⟨isAbsolute_cutTo hbefore, isPrefix_text_cutTo hbefore, ⟨_, [], hcut⟩,
    isTight_cutTo hne hbefore fun piece => getLast?_trimPieces⟩, hcut⟩

/-- The parent of a path is the lowest path above it. -/
theorem parent?_cases (p : Path) :
    (p.parent? = none ∧ ∀ q : Path, ¬ q.Above p) ∨
      ∃ r c, p.parent? = some r ∧ r.Above p ∧ p.components = r.components ++ [c] := by
  unfold parent?
  rcases List.eq_nil_or_concat (trimPieces p.pieces) with htrim | ⟨before, last, htrim⟩
  · have hwhole : p.components = p.headComponents := by
      rw [components_eq, ← componentsOf_trimPieces, htrim]
      simp [componentsOf]
    simp only [htrim, List.reverse_nil]
    split
    · next hdot =>
      obtain ⟨hlength, hrelative⟩ := hdot
      have hhere : p.components = [.here] := by
        rw [hwhole, headComponents, if_neg (by simp [hlength]), if_neg (by simp [hrelative])]
      exact Or.inr ⟨⟨[]⟩, .here, rfl,
        ⟨hrelative.symm, List.nil_prefix, ⟨.here, [], hhere⟩, isTight_nil⟩, hhere⟩
    · next hnot =>
      refine Or.inl ⟨rfl, ?_⟩
      intro q hq
      obtain ⟨c, rest, hcomponents⟩ := hq.exists_rest
      rw [hwhole, headComponents] at hcomponents
      split at hcomponents
      · simp at hcomponents
      · next hlength =>
        have habsolute : p.isAbsolute = true := by
          have hle := p.headLength_le_one
          by_contra hrelative
          exact hnot ⟨by omega, by simpa using hrelative⟩
        rw [if_pos habsolute] at hcomponents
        have hroot : q.components = [] := by
          cases hq : q.components with
          | nil => rfl
          | cons d more => simp [hq] at hcomponents
        have hnil : q.text = [] := by
          by_contra hne
          exact components_ne_nil hne hroot
        have hsame := hq.isAbsolute_eq
        rw [habsolute, isAbsolute, hnil] at hsame
        simp at hsame
  · rw [List.concat_eq_append] at htrim
    obtain ⟨habove, hcut⟩ := above_cutTo htrim
    refine Or.inr ⟨_, _, ?_, habove, hcut⟩
    rw [htrim, List.reverse_append]
    simp [cutTo]

theorem AtOrAbove.length_le (h : q.AtOrAbove p) : q.components.length ≤ p.components.length := by
  rcases h with rfl | habove
  · exact Nat.le_refl _
  · exact Nat.le_of_lt habove.length_lt

theorem AtOrAbove.prefix_components (h : q.AtOrAbove p) : q.components <+: p.components := by
  rcases h with rfl | habove
  · exact List.prefix_refl _
  · obtain ⟨c, rest, hrest⟩ := habove.exists_rest
    exact ⟨c :: rest, hrest.symm⟩

/-- Of two paths above a third, one is above the other. -/
theorem AtOrAbove.eq_or_above (hq : q.AtOrAbove p) (hr : r.AtOrAbove p)
    (h : q.components <+: r.components) : q = r ∨ q.Above r := by
  rcases hr with rfl | hr
  · exact hq
  · rcases hq with rfl | hq
    · -- what is above a path does not have all its components
      have hle := h.length_le
      have hlt := hr.length_lt
      omega
    · exact hq.eq_or_above hr h

/-- The paths at or above a path are one below the other. -/
theorem AtOrAbove.trichotomy (hq : q.AtOrAbove p) (hr : r.AtOrAbove p) :
    q = r ∨ q.Above r ∨ r.Above q := by
  rcases List.prefix_or_prefix_of_prefix hq.prefix_components hr.prefix_components with hle | hge
  · rcases hq.eq_or_above hr hle with heq | habove
    · exact Or.inl heq
    · exact Or.inr (Or.inl habove)
  · rcases hr.eq_or_above hq hge with heq | habove
    · exact Or.inl heq.symm
    · exact Or.inr (Or.inr habove)

/-- What is above a path is its parent, or above it. -/
theorem above_iff_atOrAbove_parent {c : Component} (hparent : r.Above p)
    (hcut : p.components = r.components ++ [c]) : q.Above p ↔ q.AtOrAbove r := by
  constructor
  · intro hq
    have hprefix : q.components <+: p.components := by
      obtain ⟨d, rest, hrest⟩ := hq.exists_rest
      exact ⟨d :: rest, hrest.symm⟩
    have hlength : q.components.length ≤ r.components.length := by
      have hlt := hq.length_lt
      rw [hcut, List.length_append, List.length_singleton] at hlt
      omega
    apply hq.eq_or_above hparent
    exact List.prefix_of_prefix_length_le hprefix ⟨[c], hcut.symm⟩ hlength
  · rintro (rfl | hq)
    · exact hparent
    · exact hq.trans hparent

/-- The ancestors of a path are the path and all paths above it. -/
theorem mem_ancestorsUpTo {fuel : Nat} (hfuel : p.components.length < fuel) :
    q ∈ p.ancestorsUpTo fuel ↔ q.AtOrAbove p := by
  induction fuel generalizing p with
  | zero => omega
  | succ fuel ih =>
    unfold ancestorsUpTo
    rcases parent?_cases p with ⟨hnone, htop⟩ | ⟨r, c, hsome, habove, hcut⟩
    · rw [hnone, List.mem_singleton]
      exact ⟨Or.inl, fun h => h.resolve_right (htop q)⟩
    · have hlt := habove.length_lt
      rw [hsome, List.mem_cons, ih (by omega), ← above_iff_atOrAbove_parent habove hcut]
      exact Iff.rfl

/-- The ancestors of a path are the paths at or above it, all of them. -/
theorem mem_ancestors_iff : q ∈ p.ancestors ↔ q.AtOrAbove p :=
  mem_ancestorsUpTo (Nat.lt_succ_self _)

example : (ofString "./a//./b/..").ancestors =
    ["./a//./b/..", "./a//./b", "./a", ".", ""].map ofString := by
  decide +kernel

/-- The ancestors of a path have fewer and fewer components. -/
theorem pairwise_ancestorsUpTo {fuel : Nat} (hfuel : p.components.length < fuel) :
    (p.ancestorsUpTo fuel).Pairwise fun a b => b.components.length < a.components.length := by
  induction fuel generalizing p with
  | zero => omega
  | succ fuel ih =>
    unfold ancestorsUpTo
    rcases parent?_cases p with ⟨hnone, -⟩ | ⟨r, c, hsome, habove, -⟩
    · rw [hnone]
      exact List.pairwise_singleton _ _
    · have hlt := habove.length_lt
      rw [hsome, List.pairwise_cons]
      refine ⟨?_, ih (by omega)⟩
      intro a ha
      have hle := ((mem_ancestorsUpTo (by omega)).mp ha).length_le
      omega

/-- The nearest ancestor comes first: each has fewer components than those before it. -/
theorem pairwise_ancestors (p : Path) :
    p.ancestors.Pairwise fun a b => b.components.length < a.components.length :=
  pairwise_ancestorsUpTo (Nat.lt_succ_self _)

end Path

end ReleasePublisher
