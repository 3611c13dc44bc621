import ReleasePublisher.Context.Listing
import ReleasePublisher.Proofs.FileSystem.Faces
import ReleasePublisher.Proofs.Path.Components

/-!
What the walk over a context finds: every place in it that is not left out, each once, a directory
before its contents and siblings in the byte order of their names. Left out are the directory of the
lock, what the ignore files on the way to it exclude, and all that is below.
-/
namespace ReleasePublisher

open ReleasePublisher.Path (IsFileName)

namespace Bytes

theorem precedes_total (a b : Bytes) : precedes a b = true ∨ precedes b a = true := by
  induction a generalizing b with
  | nil => exact Or.inl rfl
  | cons x a ih =>
    cases b with
    | nil => exact Or.inr rfl
    | cons y b =>
      have := ih b
      simp only [precedes, Bool.or_eq_true, decide_eq_true_eq, Bool.and_eq_true, beq_iff_eq]
      grind

theorem precedes_trans {a b c : Bytes} (h : precedes a b = true) (h' : precedes b c = true) :
    precedes a c = true := by
  induction a generalizing b c with
  | nil => rfl
  | cons x a ih =>
    cases b with
    | nil => simp [precedes] at h
    | cons y b =>
      cases c with
      | nil => simp [precedes] at h'
      | cons z c =>
        simp only [precedes, Bool.or_eq_true, decide_eq_true_eq, Bool.and_eq_true,
          beq_iff_eq] at h h' ⊢
        grind

theorem precedes_antisymm {a b : Bytes} (h : precedes a b = true) (h' : precedes b a = true) :
    a = b := by
  induction a generalizing b with
  | nil =>
    cases b with
    | nil => rfl
    | cons y b => simp [precedes] at h'
  | cons x a ih =>
    cases b with
    | nil => simp [precedes] at h
    | cons y b =>
      simp only [precedes, Bool.or_eq_true, decide_eq_true_eq, Bool.and_eq_true,
        beq_iff_eq] at h h'
      grind

end Bytes

namespace Node

def Throughout (p : Node → Prop) (root : Node) : Prop :=
  ∀ location node, root.at? location = some node → p node

/-- The names in every directory are such, and each stands for one entry. -/
def WellNamed : Node → Prop := Throughout fun node =>
  (node.entries.map Prod.fst).Nodup ∧ ∀ entry ∈ node.entries, IsFileName entry.1

def isSpecial : Node → Bool
  | .special .. => true
  | _ => false

def isLink : Node → Bool
  | .link _ => true
  | _ => false

def SpecialFree : Node → Prop := Throughout fun node => node.isSpecial = false

mutual
def all (p : Node → Bool) : Node → Bool
  | .directory attributes entries => p (.directory attributes entries) && allEntries p entries
  | node => p node

def allEntries (p : Node → Bool) : List (Bytes × Node) → Bool
  | [] => true
  | (_, node) :: rest => all p node && allEntries p rest
end

variable {p : Node → Prop} {name : Bytes} {node : Node} {attributes : Attributes}
  {entries : List (Bytes × Node)}

theorem mem_of_child? (h : child? name entries = some node) : (name, node) ∈ entries := by
  rw [child?, List.lookup_eq_some_iff] at h
  obtain ⟨before, after, rfl, -⟩ := h
  simp

theorem child?_of_mem (h : (name, node) ∈ entries) (hnodup : (entries.map Prod.fst).Nodup) :
    child? name entries = some node := by
  obtain ⟨before, after, rfl⟩ := List.append_of_mem h
  refine List.lookup_eq_some_iff.mpr ⟨before, after, rfl, fun entry hentry => ?_⟩
  rw [List.map_append, List.nodup_append] at hnodup
  simpa using (hnodup.2.2 entry.1 (List.mem_map_of_mem hentry) name (by simp)).symm

theorem WellNamed.at?_cons (h : WellNamed (.directory attributes entries))
    (hmem : (name, node) ∈ entries) (rest : Location) :
    at? (name :: rest) (.directory attributes entries) = at? rest node := by
  rw [at?, child?_of_mem hmem (h [] _ (at?_nil _)).1]
  rfl

theorem all_of_mem {p : Node → Bool} (h : allEntries p entries = true)
    (hmem : (name, node) ∈ entries) : all p node = true := by
  induction entries with
  | nil => simp at hmem
  | cons entry entries ih =>
    rw [allEntries, Bool.and_eq_true] at h
    rcases List.mem_cons.mp hmem with rfl | hmem
    · exact h.1
    · exact ih h.2 hmem

theorem throughout_of_all [DecidablePred p] (h : node.all (p ·) = true) : Throughout p node := by
  intro location found hat
  induction location generalizing node with
  | nil =>
    obtain rfl : node = found := by simpa using hat
    cases node <;> simp_all [all]
  | cons name rest ih =>
    cases node with
    | directory attributes entries =>
      rw [all, Bool.and_eq_true] at h
      rw [at?, Option.bind_eq_some_iff] at hat
      obtain ⟨child, hchild, hat⟩ := hat
      exact ih (all_of_mem h.2 (mem_of_child? hchild)) hat
    | _ => simp [at?] at hat

theorem ne_link_of_all (h : node.all (!isLink ·) = true) (location : Location) (target : Bytes) :
    node.at? location ≠ some (.link target) := by
  intro hat
  have hnone : Throughout (fun node => (!isLink node) = true) node :=
    throughout_of_all (by simpa using h)
  simpa [isLink] using hnone _ _ hat

theorem sizeOf_lt_of_mem {entry : Bytes × Node} (h : entry ∈ entries) :
    sizeOf entry.2 < sizeOf (Node.directory attributes entries) := by
  have hentry := List.sizeOf_lt_of_mem h
  have hnode : sizeOf entry.2 < sizeOf entry := by
    cases entry
    simp only [Prod.mk.sizeOf_spec]
    omega
  simp only [directory.sizeOf_spec]
  omega

theorem Throughout.child (h : Throughout p (.directory attributes entries))
    (hchild : child? name entries = some node) : Throughout p node := by
  intro rest found hfound
  exact h (name :: rest) found (by rw [at?, hchild]; exact hfound)

end Node

namespace BuildContext

inductive Ahead : Location → Location → Prop
  | contents (name : Bytes) (rest : Location) : Ahead [] (name :: rest)
  | siblings {name other : Bytes} (hne : name ≠ other) (horder : Bytes.precedes name other = true)
      (rest rest' : Location) : Ahead (name :: rest) (other :: rest')
  | inside (name : Bytes) {rest rest' : Location} (h : Ahead rest rest') :
      Ahead (name :: rest) (name :: rest')

theorem Ahead.irrefl (place : Location) : ¬ Ahead place place := by
  induction place with
  | nil => nofun
  | cons name rest ih =>
    intro h
    cases h with
    | siblings hne => exact hne rfl
    | inside _ h => exact ih h

theorem Ahead.asymm {place other : Location} (h : Ahead place other) : ¬ Ahead other place := by
  induction h with
  | contents => nofun
  | siblings hne horder =>
    intro h
    cases h with
    | siblings _ horder' => exact hne (Bytes.precedes_antisymm horder horder')
    | inside => exact hne rfl
  | inside _ h ih =>
    intro h'
    cases h' with
    | siblings hne => exact hne rfl
    | inside _ h' => exact ih h'

theorem Ahead.append_left (front : Location) {rest rest' : Location} (h : Ahead rest rest') :
    Ahead (front ++ rest) (front ++ rest') := by
  induction front with
  | nil => exact h
  | cons name front ih => exact .inside name ih

section

variable (fs : FileSystem) (context : Path) (root : Node)

def pathAt (place : Location) : Path := place.foldl (fun path name => path / ⟨name⟩) context

def scopeAt (place : Location) : IgnoreScope :=
  .of (pathAt context place)
    (rulesIn fs (pathAt context place) ((root.at? place).elim [] Node.entries))

/-- The rules of the directories around a place, the innermost first. -/
def scopesAround (place : Location) : List IgnoreScope :=
  (List.range place.length).reverse.map fun depth => scopeAt fs context root (place.take depth)

/-- What the ignore files on the way to a place say about it alone. -/
def Excluded (place : Location) : Prop :=
  IgnoreScope.excludes (scopesAround fs context root place)
    ((root.at? place).any Node.isDirectory) (pathAt context place) = true

def LeftOut (place : Location) : Prop :=
  place.head? = some (Bytes.ofString RunLock.directoryName) ∨
    ∃ front, front <+: place ∧ front ≠ [] ∧ Excluded fs context root front

/-- The places of a context in the order in which they are sent. -/
structure IsListing (places : List Location) : Prop where
  mem_iff : ∀ place, place ∈ places ↔
    place ≠ [] ∧ root.at? place ≠ none ∧ ¬ LeftOut fs context root place
  sorted : places.Pairwise Ahead

variable {fs context root}

theorem IsListing.nodup {places : List Location} (h : IsListing fs context root places) :
    places.Nodup :=
  h.sorted.imp fun {place other} (hahead : Ahead place other) (heq : place = other) =>
    Ahead.irrefl other (heq ▸ hahead)

/-- There is only one listing of a context. -/
theorem IsListing.unique {places places' : List Location} (h : IsListing fs context root places)
    (h' : IsListing fs context root places') : places = places' := by
  have hperm : places.Perm places' :=
    (List.perm_ext_iff_of_nodup h.nodup h'.nodup).mpr fun place =>
      (h.mem_iff place).trans (h'.mem_iff place).symm
  exact hperm.eq_of_pairwise (fun _ _ _ _ hahead hbehind => absurd hbehind hahead.asymm)
    h.sorted h'.sorted

theorem pathAt_concat (context : Path) (place : Location) (name : Bytes) :
    pathAt context (place ++ [name]) = pathAt context place / ⟨name⟩ := by
  simp [pathAt]

/-- The path of a place is that of the context with the names of the place behind it. -/
theorem components_pathAt (context : Path) {place : Location}
    (h : ∀ name ∈ place, IsFileName name) :
    (pathAt context place).components = context.components ++ place.map .named := by
  induction place generalizing context with
  | nil => simp [pathAt]
  | cons name rest ih =>
    obtain ⟨hname, hrest⟩ := List.forall_mem_cons.mp h
    have hinner := ih (context / ⟨name⟩) hrest
    rw [Path.components_div hname] at hinner
    simpa [pathAt] using hinner

theorem scopesAround_concat (place : Location) (name : Bytes) :
    scopesAround fs context root (place ++ [name]) =
      scopeAt fs context root place :: scopesAround fs context root place := by
  have hshort : ∀ depth ∈ (List.range place.length).reverse,
      scopeAt fs context root ((place ++ [name]).take depth) =
        scopeAt fs context root (place.take depth) := by
    intro depth hdepth
    have hle : depth ≤ place.length := by simp at hdepth; omega
    rw [List.take_append_of_le_length hle]
  rw [scopesAround, scopesAround, List.length_append, List.length_singleton, List.range_succ,
    List.reverse_append, List.map_append, List.map_congr_left hshort]
  simp

def foundAt (context : Path) (root : Node) (place : Location) : Found :=
  ⟨pathAt context place, (root.at? place).any Node.isDirectory,
    match root.at? place with
    | some node => entryOf (pathAt context place) place node
    | none => .error (.system .notFound)⟩

def Lists (context : Path) (root : Node) (wanted : Location → Prop) (found : List Found) : Prop :=
  ∃ places : List Location, found = places.map (foundAt context root) ∧ places.Pairwise Ahead ∧
    ∀ place, place ∈ places ↔ wanted place

namespace Lists

variable {wanted wanted' : Location → Prop} {found found' : List Found}

theorem congr (h : Lists context root wanted found) (hiff : ∀ place, wanted place ↔ wanted' place) :
    Lists context root wanted' found := by
  obtain ⟨places, hfound, hsorted, hmem⟩ := h
  exact ⟨places, hfound, hsorted, fun place => (hmem place).trans (hiff place)⟩

theorem nil (h : ∀ place, ¬ wanted place) : Lists context root wanted [] :=
  ⟨[], rfl, .nil, fun place => by simp [h place]⟩

/-- Two listings make one if all of the first comes ahead of all of the second. -/
theorem append (h : Lists context root wanted found) (h' : Lists context root wanted' found')
    (hahead : ∀ place other, wanted place → wanted' other → Ahead place other) :
    Lists context root (fun place => wanted place ∨ wanted' place) (found ++ found') := by
  obtain ⟨places, rfl, hsorted, hmem⟩ := h
  obtain ⟨places', rfl, hsorted', hmem'⟩ := h'
  refine ⟨places ++ places', by simp, List.pairwise_append.mpr ⟨hsorted, hsorted', ?_⟩, ?_⟩
  · intro place hplace other hother
    exact hahead place other ((hmem place).mp hplace) ((hmem' other).mp hother)
  · intro place
    rw [List.mem_append, hmem, hmem']

theorem singleton (place : Location) :
    Lists context root (· = place) [foundAt context root place] :=
  ⟨[place], rfl, List.pairwise_singleton _ _, fun other => by simp⟩

/-- Siblings one after the other, each with what is below it. -/
theorem flatMap {start : Location} {entries : List (Bytes × Node)}
    {wanted : Bytes × Node → Location → Prop} {below : Bytes × Node → List Found}
    (hsorted : entries.Pairwise fun a b => Bytes.precedes a.1 b.1 = true ∧ a.1 ≠ b.1)
    (h : ∀ entry ∈ entries, Lists context root (wanted entry) (below entry))
    (hwanted : ∀ entry place, wanted entry place → start ++ [entry.1] <+: place) :
    Lists context root (fun place => ∃ entry ∈ entries, wanted entry place)
      (entries.flatMap below) := by
  induction entries with
  | nil => exact nil (by simp)
  | cons first entries ih =>
    obtain ⟨hfirst, hentries⟩ := List.forall_mem_cons.mp h
    obtain ⟨hahead, hrest⟩ := List.pairwise_cons.mp hsorted
    rw [List.flatMap_cons]
    refine (hfirst.append (ih hrest hentries) ?_).congr fun place => by simp
    rintro place other hplace ⟨entry, hentry, hother⟩
    obtain ⟨inner, rfl⟩ := hwanted first place hplace
    obtain ⟨inner', rfl⟩ := hwanted entry other hother
    rw [List.append_assoc, List.append_assoc]
    exact Ahead.append_left start (.siblings (hahead entry hentry).2 (hahead entry hentry).1 _ _)

/-- What is listed under each of some names is listed under all of them when the names are in
order. -/
theorem inNameOrder {start : Location} {entries : List (Bytes × Node)}
    {wanted : Bytes × Node → Location → Prop} {below : Bytes × Node → List Found}
    (hnodup : (entries.map Prod.fst).Nodup)
    (h : ∀ entry ∈ entries, Lists context root (wanted entry) (below entry))
    (hwanted : ∀ entry place, wanted entry place → start ++ [entry.1] <+: place) :
    Lists context root (fun place => ∃ entry ∈ entries, wanted entry place)
      (inNameOrder (entries.map fun entry => (entry.1, below entry))) := by
  have hperm := List.mergeSort_perm entries fun a b => Bytes.precedes a.1 b.1
  have hordered : (entries.mergeSort fun a b => Bytes.precedes a.1 b.1).Pairwise
      fun a b => Bytes.precedes a.1 b.1 = true := by
    apply List.pairwise_mergeSort
    · exact fun _ _ _ => Bytes.precedes_trans
    · exact fun a b => by simpa using Bytes.precedes_total a.1 b.1
  have hdistinct := List.pairwise_map.mp ((hperm.map Prod.fst).nodup_iff.mpr hnodup)
  have hmap := List.map_mergeSort (l := entries) (r := fun a b => Bytes.precedes a.1 b.1)
    (s := fun a b => Bytes.precedes a.1 b.1) (f := fun entry => (entry.1, below entry))
    fun _ _ _ _ => rfl
  rw [BuildContext.inNameOrder, ← hmap, List.flatMap_map]
  refine (flatMap (hordered.and hdistinct) (fun entry hentry => h entry (hperm.mem_iff.mp hentry))
    hwanted).congr fun place => ?_
  simp only [hperm.mem_iff]

end Lists

/-- The places from a starting point on that the rules below it keep. -/
def Kept (fs : FileSystem) (context : Path) (root : Node) (start place : Location) : Prop :=
  start <+: place ∧ root.at? place ≠ none ∧
    ∀ front, start <+: front → front <+: place → front ≠ start → ¬ Excluded fs context root front

/-- What is kept below a name that is not left out is what is kept there of the whole. -/
theorem kept_concat_iff {start : Location} {name : Bytes}
    (h : ¬ Excluded fs context root (start ++ [name])) (place : Location) :
    Kept fs context root (start ++ [name]) place ↔
      start ++ [name] <+: place ∧ Kept fs context root start place := by
  constructor
  · rintro ⟨hstart, hat, hkept⟩
    refine ⟨hstart, (List.prefix_append start [name]).trans hstart, hat, ?_⟩
    intro front hfront hplace hne hexcluded
    have hlength : (start ++ [name]).length ≤ front.length := by
      obtain ⟨rest, rfl⟩ := hfront
      cases rest with
      | nil => simp at hne
      | cons other rest => simp
    refine hkept front (List.prefix_of_prefix_length_le hstart hplace hlength) hplace ?_ hexcluded
    rintro rfl
    exact h hexcluded
  · rintro ⟨hstart, -, hat, hkept⟩
    refine ⟨hstart, hat, fun front hfront hplace _ => ?_⟩
    refine hkept front ((List.prefix_append start [name]).trans hfront) hplace ?_
    rintro rfl
    exact absurd hfront.length_le (by simp)

theorem kept_self {place : Location} {node : Node} (hat : root.at? place = some node) :
    Kept fs context root place place := by
  refine ⟨List.prefix_refl _, by simp [hat], fun front hfront hplace hne => ?_⟩
  exact absurd (hplace.eq_of_length_le hfront.length_le) hne

theorem kept_of_bare {place other : Location} {node : Node} (hat : root.at? place = some node)
    (hbare : node.IsBare) : Kept fs context root place other ↔ other = place := by
  constructor
  · rintro ⟨⟨rest, rfl⟩, hother, -⟩
    cases rest with
    | nil => simp
    | cons name rest =>
      rw [Node.at?_append, hat] at hother
      exact absurd (hbare name rest) hother
  · rintro rfl
    exact kept_self hat

/-- What a directory keeps is itself and what its entries keep. -/
theorem kept_of_directory {place other : Location} {attributes : Attributes}
    {entries : List (Bytes × Node)} (hat : root.at? place = some (.directory attributes entries)) :
    Kept fs context root place other ↔
      other = place ∨ ∃ entry ∈ entries, place ++ [entry.1] <+: other ∧
        Kept fs context root place other := by
  constructor
  · intro hkept
    obtain ⟨⟨rest, rfl⟩, hother, -⟩ := id hkept
    cases rest with
    | nil => exact Or.inl (List.append_nil place)
    | cons name rest =>
      rw [Node.at?_append, hat, Option.bind_some, Node.at?] at hother
      cases hchild : Node.child? name entries with
      | none => simp [hchild] at hother
      | some child =>
        refine Or.inr ⟨(name, child), Node.mem_of_child? hchild, ⟨rest, by simp⟩, hkept⟩
  · rintro (rfl | ⟨entry, -, hkept⟩)
    · exact kept_self hat
    · exact hkept.2

theorem walkEntries_eq (fs : FileSystem) (scopes : List IgnoreScope) (path : Path)
    (names : List Bytes) (entries : List (Bytes × Node)) :
    walkEntries fs scopes path names entries = entries.map fun entry =>
      (entry.1, if IgnoreScope.excludes scopes entry.2.isDirectory (path / ⟨entry.1⟩) then []
        else walk fs scopes (path / ⟨entry.1⟩) (names ++ [entry.1]) entry.2) := by
  induction entries with
  | nil => rfl
  | cons entry entries ih => rw [walkEntries, ih, List.map_cons]

/-- What is found in a directory, when that is so for each of its entries. -/
theorem lists_walkEntries (fs : FileSystem) (context : Path) {place : Location}
    {attributes : Attributes} {entries shown : List (Bytes × Node)}
    (hat : root.at? place = some (.directory attributes entries))
    (hnodup : (entries.map Prod.fst).Nodup) (hshown : shown.Sublist entries)
    (h : ∀ entry ∈ entries, Lists context root (Kept fs context root (place ++ [entry.1]))
      (walk fs (scopesAround fs context root (place ++ [entry.1]))
        (pathAt context (place ++ [entry.1])) (place ++ [entry.1]) entry.2)) :
    Lists context root
      (fun other => ∃ entry ∈ shown, place ++ [entry.1] <+: other ∧
        Kept fs context root place other)
      (inNameOrder (walkEntries fs (.of (pathAt context place)
        (rulesIn fs (pathAt context place) entries) :: scopesAround fs context root place)
        (pathAt context place) place shown)) := by
  have hscope : IgnoreScope.of (pathAt context place)
      (rulesIn fs (pathAt context place) entries) = scopeAt fs context root place := by
    rw [scopeAt, hat]
    rfl
  rw [walkEntries_eq]
  refine Lists.inNameOrder (hnodup.sublist (hshown.map _)) (fun entry hentry => ?_)
    fun entry other hother => hother.1
  have hchild : root.at? (place ++ [entry.1]) = some entry.2 := by
    rw [Node.at?_concat hat]
    exact Node.child?_of_mem (hshown.subset hentry) hnodup
  rw [hscope, ← pathAt_concat, ← scopesAround_concat]
  have hexcluded : Excluded fs context root (place ++ [entry.1]) ↔
      IgnoreScope.excludes (scopesAround fs context root (place ++ [entry.1]))
        entry.2.isDirectory (pathAt context (place ++ [entry.1])) = true := by
    rw [Excluded, hchild]
    rfl
  split
  next hleft =>
    refine .nil fun other hother => ?_
    exact hother.2.2.2 _ (List.prefix_append _ _) hother.1 (by simp) (hexcluded.mpr hleft)
  next hleft =>
    exact (h entry (hshown.subset hentry)).congr (kept_concat_iff (hleft ∘ hexcluded.mp))

theorem foundAt_eq {place : Location} {node : Node} (hat : root.at? place = some node) :
    foundAt context root place =
      ⟨pathAt context place, node.isDirectory, entryOf (pathAt context place) place node⟩ := by
  rw [foundAt, hat]
  rfl

/-- A node that is no directory is found, and nothing below it. -/
theorem lists_walk_leaf {place : Location} {node : Node} (hat : root.at? place = some node)
    (hleaf : node.isDirectory = false) :
    Lists context root (Kept fs context root place)
      (walk fs (scopesAround fs context root place) (pathAt context place) place node) := by
  have hwalk : walk fs (scopesAround fs context root place) (pathAt context place) place node =
      [foundAt context root place] := by
    rw [foundAt_eq hat]
    cases node with
    | directory attributes entries => simp [Node.isDirectory] at hleaf
    | _ => rfl
  rw [hwalk]
  exact (Lists.singleton place).congr fun other =>
    (kept_of_bare hat (Node.isBare_of_isDirectory_eq_false hleaf)).symm

/-- What is found at a node and below it. -/
theorem lists_walk {place : Location} {node : Node} (hat : root.at? place = some node)
    (hnamed : node.WellNamed) :
    Lists context root (Kept fs context root place)
      (walk fs (scopesAround fs context root place) (pathAt context place) place node) := by
  match node with
  | .directory attributes entries =>
    have hnodup := (hnamed [] _ (Node.at?_nil _)).1
    have hinner := lists_walkEntries fs context hat hnodup (.refl entries)
      fun entry hentry =>
        have hchild := Node.child?_of_mem hentry hnodup
        lists_walk ((Node.at?_concat hat entry.1).trans hchild)
          (hnamed.child hchild)
    rw [walk, ← Node.isDirectory.eq_1 attributes entries, ← foundAt_eq hat]
    refine ((Lists.singleton place).append hinner ?_).congr fun other =>
      (kept_of_directory hat).symm
    rintro first other hfirst ⟨entry, -, ⟨rest, rfl⟩, -⟩
    rw [hfirst]
    simpa using Ahead.append_left place (.contents entry.1 rest)
  | .file serial attributes content => exact lists_walk_leaf hat rfl
  | .link target => exact lists_walk_leaf hat rfl
  | .special kind attributes => exact lists_walk_leaf hat rfl
termination_by sizeOf node
decreasing_by exact Node.sizeOf_lt_of_mem hentry

/-- The walk over a context finds what is in its listing. -/
theorem exists_isListing (fs : FileSystem) (context : Path) {attributes : Attributes}
    {entries : List (Bytes × Node)}
    (hroot : root = .directory attributes entries) (hnamed : root.WellNamed) :
    ∃ places, IsListing fs context root places ∧
      walkContext fs context entries = places.map (foundAt context root) := by
  have hat : root.at? [] = some (.directory attributes entries) := by rw [hroot]; rfl
  have hnodup := (hnamed [] _ hat).1
  have hchild : ∀ entry ∈ entries, Node.child? entry.1 entries = some entry.2 :=
    fun entry hentry => Node.child?_of_mem hentry hnodup
  obtain ⟨places, hplaces, hsorted, hmem⟩ := lists_walkEntries fs context hat
    hnodup (List.filter_sublist (p := (·.1 != Bytes.ofString RunLock.directoryName)))
    fun entry hentry => lists_walk ((Node.at?_concat hat entry.1).trans (hchild entry hentry))
      ((hroot ▸ hnamed).child (hchild entry hentry))
  refine ⟨places, ⟨fun place => (hmem place).trans ?_, hsorted⟩, hplaces⟩
  constructor
  · rintro ⟨entry, hentry, ⟨rest, rfl⟩, -, hpresent, hkept⟩
    obtain ⟨-, hvisible⟩ := List.mem_filter.mp hentry
    refine ⟨by simp, hpresent, ?_⟩
    rintro (hlock | ⟨front, hfront, hne, hexcluded⟩)
    · have hname : entry.1 = Bytes.ofString RunLock.directoryName := by simpa using hlock
      simp [hname] at hvisible
    · exact hkept front List.nil_prefix hfront hne hexcluded
  · rintro ⟨hne, hpresent, hleft⟩
    obtain ⟨hlock, hkept⟩ := not_or.mp hleft
    cases place with
    | nil => exact absurd rfl hne
    | cons name rest =>
      rw [hroot, Node.at?] at hpresent
      cases hfirst : Node.child? name entries with
      | none => simp [hfirst] at hpresent
      | some child =>
        refine ⟨(name, child), List.mem_filter.mpr ⟨Node.mem_of_child? hfirst, ?_⟩, ⟨rest, rfl⟩,
          List.nil_prefix, ?_, fun front _ hfront hne hexcluded =>
            hkept ⟨front, hfront, hne, hexcluded⟩⟩
        · simpa using hlock
        · rw [hroot, Node.at?]
          exact hpresent

mutual
/-- The walk over a tree that is in name order already. -/
def tour (fs : FileSystem) (scopes : List IgnoreScope) (path : Path) (names : List Bytes) :
    Node → List Found
  | .directory attributes entries =>
    ⟨path, true, entryOf path names (.directory attributes entries)⟩ ::
      tourEntries fs (.of path (rulesIn fs path entries) :: scopes) path names entries
  | node => [⟨path, false, entryOf path names node⟩]

def tourEntries (fs : FileSystem) (scopes : List IgnoreScope) (path : Path)
    (names : List Bytes) : List (Bytes × Node) → List Found
  | [] => []
  | (name, node) :: rest =>
    (if IgnoreScope.excludes scopes node.isDirectory (path / ⟨name⟩) then []
      else tour fs scopes (path / ⟨name⟩) (names ++ [name]) node) ++
      tourEntries fs scopes path names rest
end

def InOrder (entries : List (Bytes × Node)) : Prop :=
  entries.Pairwise fun a b => Bytes.precedes a.1 b.1 = true

instance : DecidablePred InOrder := fun entries =>
  inferInstanceAs (Decidable (entries.Pairwise fun a b => Bytes.precedes a.1 b.1 = true))

theorem inNameOrder_of_pairwise {found : List (Bytes × List Found)}
    (h : found.Pairwise fun a b => Bytes.precedes a.1 b.1 = true) :
    inNameOrder found = found.flatMap Prod.snd := by
  rw [inNameOrder, List.mergeSort_of_pairwise h]

theorem flatMap_walkEntries {scopes : List IgnoreScope} {path : Path} {names : List Bytes}
    {entries : List (Bytes × Node)} (h : ∀ entry ∈ entries, ∀ path names,
      walk fs scopes path names entry.2 = tour fs scopes path names entry.2) :
    (walkEntries fs scopes path names entries).flatMap Prod.snd =
      tourEntries fs scopes path names entries := by
  induction entries with
  | nil => rfl
  | cons entry entries ih =>
    obtain ⟨hentry, hentries⟩ := List.forall_mem_cons.mp h
    rw [walkEntries, List.flatMap_cons, ih hentries, tourEntries, hentry]

theorem inNameOrder_walkEntries {scopes : List IgnoreScope} {path : Path} {names : List Bytes}
    {entries : List (Bytes × Node)} (horder : InOrder entries)
    (h : ∀ entry ∈ entries, ∀ path names,
      walk fs scopes path names entry.2 = tour fs scopes path names entry.2) :
    inNameOrder (walkEntries fs scopes path names entries) =
      tourEntries fs scopes path names entries := by
  rw [inNameOrder_of_pairwise, flatMap_walkEntries h]
  rw [walkEntries_eq]
  exact List.pairwise_map.mpr horder

/-- In a tree that is in name order, the walk meets the entries as they stand. -/
theorem walk_eq_tour {node : Node} (h : node.all (InOrder ·.entries) = true)
    (scopes : List IgnoreScope) (path : Path) (names : List Bytes) :
    walk fs scopes path names node = tour fs scopes path names node := by
  match node with
  | .directory attributes entries =>
    rw [Node.all, Bool.and_eq_true, decide_eq_true_eq] at h
    have horder : InOrder entries := h.1
    rw [walk, tour, inNameOrder_walkEntries horder fun entry hentry path names =>
      walk_eq_tour (Node.all_of_mem h.2 hentry) _ path names]
  | .file serial attributes content => rfl
  | .link target => rfl
  | .special kind attributes => rfl
termination_by sizeOf node
decreasing_by exact Node.sizeOf_lt_of_mem hentry

theorem walkContext_eq_tour {attributes : Attributes} {entries : List (Bytes × Node)}
    (h : (Node.directory attributes entries).all (InOrder ·.entries) = true) :
    walkContext fs context entries =
      tourEntries fs [.of context (rulesIn fs context entries)] context []
        (visibleEntries entries) := by
  rw [Node.all, Bool.and_eq_true, decide_eq_true_eq] at h
  have horder : InOrder entries := h.1
  have hvisible : InOrder (visibleEntries entries) := horder.filter _
  rw [walkContext, inNameOrder_walkEntries hvisible fun entry hentry path names =>
    walk_eq_tour (Node.all_of_mem h.2 (List.mem_filter.mp hentry).1) _ path names]

end

end BuildContext

end ReleasePublisher
