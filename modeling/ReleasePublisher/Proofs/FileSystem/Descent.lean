import ReleasePublisher.Proofs.FileSystem.Places
import ReleasePublisher.Proofs.Path.Components

/-!
Where the paths below a directory lead. A path whose components are those of another one and some
names more leads from where that one leads down by these names, however both are written.
-/
namespace ReleasePublisher

open FileSystem ReleasePublisher.Path

namespace Turns

variable {turns : Turns} {here l : Location} {pieces longer names : List Bytes}

/-- Pieces that do not count stay where they are. -/
theorem route_skip (last : LastLink) (henter : turns here = some .enter) {skipped : List Bytes}
    (hskip : ∀ piece ∈ skipped, ¬ counts piece) (rest : List Bytes) :
    route turns last here (skipped ++ rest) = route turns last here rest := by
  induction skipped with
  | nil => rfl
  | cons piece skipped ih =>
    obtain ⟨hpiece, hskipped⟩ := List.forall_mem_cons.mp hskip
    simp only [List.cons_append, route, henter, if_pos (not_counts_iff.mp hpiece)]
    exact ih hskipped

/-- A longer way begins as the shorter one, as far as its end or the first link. -/
theorem route_longer (h : longer.filter counts = pieces.filter counts ++ names) :
    (∀ l, route turns .follow here pieces = .ok (.arrived (.taken l)) →
      ∃ rest, rest.filter counts = names ∧
        route turns .follow here longer = route turns .follow l rest) ∧
    ∀ directory target rest,
      route turns .follow here pieces = .ok (.atLink directory target rest) →
      ∃ rest', rest'.filter counts = rest.filter counts ++ names ∧
        route turns .follow here longer = .ok (.atLink directory target rest') := by
  induction pieces generalizing here longer with
  | nil =>
    have hend : ∀ {r : Route}, route turns .follow here [] = .ok r →
        r = .arrived (.taken here) := by
      intro r hr
      rw [route] at hr
      split at hr <;> simp_all
    refine ⟨fun l hl => ?_, fun directory target rest hlink => absurd (hend hlink) (by simp)⟩
    obtain rfl : l = here := by simpa using hend hl
    exact ⟨longer, by simpa using h, rfl⟩
  | cons piece rest ih =>
    by_cases henter : turns here = some .enter
    · by_cases hcounts : counts piece = true
      · rw [List.filter_cons_of_pos hcounts, List.cons_append, List.filter_eq_cons_iff] at h
        obtain ⟨skipped, onward, rfl, hskip, -, honward⟩ := h
        obtain ⟨hnil, hdot⟩ := counts_eq_true_iff.mp hcounts
        have hstay : ¬ (piece = [] ∨ piece = dot) := not_or.mpr ⟨hnil, hdot⟩
        rw [route_skip .follow henter hskip]
        by_cases hup : piece = dotDot
        · simpa only [route, henter, if_neg hstay, if_pos hup] using ih honward
        by_cases hlong : nameLimit < piece.length
        · simp [route, henter, hstay, hup, hlong]
        cases hturn : turns (here ++ [piece]) with
        | none =>
          simp only [route, henter, if_neg hstay, if_neg hup, if_neg hlong, hturn]
          split <;> simp
        | some turn =>
          cases turn with
          | follow target => simpa [route, henter, hstay, hup, hlong, hturn] using honward
          | _ =>
            simpa only [route, henter, if_neg hstay, if_neg hup, if_neg hlong, hturn] using
              ih honward
      · rw [List.filter_cons_of_neg hcounts] at h
        simpa only [route, henter, if_pos (not_counts_iff.mp hcounts)] using ih h
    · cases hturn : turns here with
      | none => simp [route, hturn]
      | some turn => cases turn <;> simp_all [route]

/-- A longer way leads through the end of the shorter one. -/
theorem follow_longer {links : Nat}
    (hshort : follow turns .follow links here pieces = .ok (.taken l))
    (h : longer.filter counts = pieces.filter counts ++ names) :
    ∃ left rest, rest.filter counts = names ∧
      follow turns .follow links here longer = follow turns .follow left l rest := by
  replace hshort := leads_of_follow hshort
  induction hshort generalizing longer with
  | @arrived links here pieces hstep =>
    obtain ⟨rest, hrest, hroute⟩ := (route_longer h).1 l hstep
    refine ⟨links, rest, hrest, ?_⟩
    rw [follow, follow, hroute]
  | link hstep honward ih =>
    obtain ⟨rest, hrest, hroute⟩ := (route_longer h).2 _ _ _ hstep
    rw [(follow_succ_of_atLink hroute).1]
    exact ih (by simp [hrest])

/-- No link is on the way down to a node. -/
theorem exists_turn {root target : Node} (hat : root.at? (here ++ names) = some target)
    (hlink : ∀ text, target ≠ .link text) :
    ∃ turn, root.turns here = some turn ∧ ∀ text, turn ≠ .follow text := by
  rw [Node.at?_append, Option.bind_eq_some_iff] at hat
  obtain ⟨node, hnode, hbelow⟩ := hat
  refine ⟨node.face.turn, by rw [Node.turns, hnode]; rfl, fun text hturn => ?_⟩
  cases node with
  | link inner =>
    cases names with
    | nil => exact hlink inner (by simpa using hbelow.symm)
    | cons name rest => simp [Node.at?] at hbelow
  | _ => simp [Node.face, Face.turn] at hturn

/-- Names of directories lead from each to the next. -/
theorem route_down {root target : Node} {r : Route}
    (hnames : pieces.filter counts = names) (hplain : ∀ name ∈ names, IsFileName name)
    (hat : root.at? (here ++ names) = some target) (hlink : ∀ text, target ≠ .link text)
    (h : route root.turns .follow here pieces = .ok r) : r = .arrived (.taken (here ++ names)) := by
  induction pieces generalizing here names with
  | nil =>
    obtain rfl : names = [] := by simpa using hnames.symm
    rw [route] at h
    split at h <;> simp_all
  | cons piece rest ih =>
    have henter := turns_eq_enter_of_route h
    by_cases hcounts : counts piece = true
    · rw [List.filter_cons_of_pos hcounts] at hnames
      subst hnames
      obtain ⟨hpiece, hrest⟩ := List.forall_mem_cons.mp hplain
      have hstay : ¬ (piece = [] ∨ piece = dot) := not_or.mpr ⟨hpiece.ne_nil, hpiece.ne_dot⟩
      rw [List.append_cons] at hat ⊢
      obtain ⟨turn, hturn, hfollow⟩ := exists_turn hat hlink
      simp only [route, henter, if_neg hstay, if_neg hpiece.ne_dotDot, hturn] at h
      split at h
      · simp at h
      · cases turn with
        | follow text => exact absurd rfl (hfollow text)
        | _ => exact ih rfl hrest hat h
    · rw [List.filter_cons_of_neg hcounts] at hnames
      simp only [route, henter, if_pos (not_counts_iff.mp hcounts)] at h
      exact ih hnames hplain hat h

/-- Names lead down to the node under them, if there is one and it is no link. -/
theorem follow_down {root target : Node} {links : Nat} {place : Place}
    (hnames : pieces.filter counts = names) (hplain : ∀ name ∈ names, IsFileName name)
    (hat : root.at? (here ++ names) = some target) (hlink : ∀ text, target ≠ .link text)
    (h : follow root.turns .follow links here pieces = .ok place) :
    place = .taken (here ++ names) := by
  cases leads_of_follow h with
  | arrived hstep => exact Route.arrived.inj (route_down hnames hplain hat hlink hstep)
  | link hstep _ => exact absurd (route_down hnames hplain hat hlink hstep) (by simp)

end Turns

namespace Path

def isHead : Component → Bool
  | .root => true
  | .here => true
  | _ => false

theorem isHead_componentOf (piece : Bytes) : isHead (componentOf piece) = false := by
  rw [componentOf]
  split <;> rfl

theorem filter_isHead_components (p : Path) :
    p.components.filter isHead = p.headComponents ∧
      p.components.filter (!isHead ·) = componentsOf p.pieces := by
  have hhead : ∀ c ∈ p.headComponents, isHead c = true := by
    rw [headComponents]
    split
    · simp
    · split <;> simp [isHead]
  have hinner : ∀ c ∈ componentsOf p.pieces, isHead c = false := by
    intro c hc
    obtain ⟨piece, -, rfl⟩ := List.mem_map.mp hc
    exact isHead_componentOf piece
  rw [components_eq, List.filter_append, List.filter_append, List.filter_eq_self.mpr hhead,
    List.filter_eq_nil_iff.mpr (by simpa using hinner),
    List.filter_eq_nil_iff.mpr (by simpa using hhead),
    List.filter_eq_self.mpr (by simpa using hinner)]
  simp

theorem isAbsolute_iff (p : Path) : p.isAbsolute = true ↔ p.headComponents = [.root] := by
  constructor
  · intro h
    have hlength : p.headLength = 1 := by
      rw [isAbsolute, beq_iff_eq] at h
      obtain ⟨rest, hrest⟩ := List.head?_eq_some_iff.mp h
      rw [headLength, hrest]
      rfl
    rw [headComponents, if_neg (by simp [hlength]), if_pos h]
  · intro h
    rw [headComponents] at h
    split at h
    · simp at h
    · split at h <;> simp_all

theorem startOf_of_isAbsolute {p : Path} (h : p.isAbsolute = true) (here : Location) :
    startOf here p.text = ([], Bytes.split Bytes.slash (p.text.drop 1)) := by
  rw [startOf, if_pos (by simpa [isAbsolute] using h)]

theorem startOf_of_not_isAbsolute {p : Path} (h : p.isAbsolute ≠ true) (here : Location) :
    startOf here p.text = (here, Bytes.split Bytes.slash p.text) := by
  rw [startOf, if_neg (by simpa [isAbsolute] using h)]

/-- The pieces of a path as they are followed. -/
theorem componentsOf_startOf (here : Location) (p : Path) :
    componentsOf (startOf here p.text).2 = componentsOf p.pieces := by
  obtain ⟨text⟩ := p
  by_cases habsolute : text.head? = some Bytes.slash
  · obtain ⟨rest, rfl⟩ := List.head?_eq_some_iff.mp habsolute
    rfl
  · rw [startOf, if_neg habsolute]
    by_cases hhead : (⟨text⟩ : Path).headLength = 0
    · rw [pieces, hhead, List.drop_zero]
    · -- the head is a dot, which does not count among the pieces either
      rw [headLength] at hhead
      split at hhead
      · next rest htext =>
        obtain rfl : text = 47 :: rest := htext
        exact absurd rfl habsolute
      · next htext =>
        obtain rfl : text = [46] := htext
        rfl
      · next rest htext =>
        obtain rfl : text = 46 :: 47 :: rest := htext
        show componentsOf (Bytes.split Bytes.slash ([46] ++ Bytes.slash :: rest)) =
          componentsOf (Bytes.split Bytes.slash ([] ++ Bytes.slash :: rest))
        rw [Bytes.split_append, Bytes.split_append, componentsOf_append, componentsOf_append]
        rfl
      · exact absurd rfl hhead

theorem filter_counts_of_componentsOf {longer pieces names : List Bytes}
    (hplain : ∀ name ∈ names, IsFileName name)
    (h : componentsOf longer = componentsOf pieces ++ names.map .named) :
    longer.filter counts = pieces.filter counts ++ names := by
  have hinjective : Function.Injective componentOf := by
    intro piece other hsame
    rw [componentOf, componentOf] at hsame
    split at hsame <;> split at hsame <;> simp_all
  rw [← IsFileName.componentsOf_eq hplain, ← componentsOf_append, componentsOf, componentsOf,
    List.map_inj_right fun _ _ hsame => hinjective hsame, List.filter_append] at h
  rw [h, List.filter_eq_self.mpr fun name hname => (hplain name hname).counts_eq]

end Path

namespace FileSystem

open Turns

theorem leaveRemoved_skip (levels : Nat) {skipped : List Bytes}
    (hskip : ∀ piece ∈ skipped, ¬ counts piece) (rest : List Bytes) :
    leaveRemoved (levels + 1) (skipped ++ rest) = leaveRemoved (levels + 1) rest := by
  induction skipped with
  | nil => rfl
  | cons piece skipped ih =>
    obtain ⟨hpiece, hskipped⟩ := List.forall_mem_cons.mp hskip
    rw [List.cons_append, leaveRemoved, if_pos (not_counts_iff.mp hpiece)]
    exact ih hskipped

/-- Names behind a path that leads out of a removed directory come behind what it leads to. -/
theorem leaveRemoved_longer {levels : Nat} {pieces longer names rest : List Bytes}
    (h : longer.filter counts = pieces.filter counts ++ names)
    (hleft : leaveRemoved levels pieces = .ok (0, rest)) :
    ∃ rest', leaveRemoved levels longer = .ok (0, rest') ∧
      rest'.filter counts = rest.filter counts ++ names := by
  induction pieces generalizing levels longer with
  | nil =>
    cases levels with
    | zero =>
      obtain rfl : [] = rest := by simpa [leaveRemoved] using hleft
      exact ⟨longer, by rw [leaveRemoved], h⟩
    | succ levels => simp [leaveRemoved] at hleft
  | cons piece more ih =>
    cases levels with
    | zero =>
      obtain rfl : piece :: more = rest := by simpa [leaveRemoved] using hleft
      exact ⟨longer, by rw [leaveRemoved], h⟩
    | succ levels =>
      rw [leaveRemoved] at hleft
      by_cases hcounts : counts piece = true
      · rw [List.filter_cons_of_pos hcounts, List.cons_append, List.filter_eq_cons_iff] at h
        obtain ⟨skipped, onward, rfl, hskip, -, honward⟩ := h
        have hstay : ¬ (piece = [] ∨ piece = dot) := fun hor => not_counts_iff.mpr hor hcounts
        rw [if_neg hstay] at hleft
        rw [leaveRemoved_skip levels hskip, leaveRemoved, if_neg hstay]
        by_cases hup : piece = dotDot
        · rw [if_pos hup] at hleft ⊢
          exact ih honward hleft
        · rw [if_neg hup] at hleft
          simp at hleft
      · rw [if_pos (not_counts_iff.mp hcounts)] at hleft
        rw [List.filter_cons_of_neg hcounts] at h
        exact ih h hleft

theorem entry_longer {here : WorkingDirectory} {base path : Path} {start : Location}
    {pieces names : List Bytes} (hplain : ∀ name ∈ names, IsFileName name)
    (hcomponents : path.components = base.components ++ names.map .named)
    (h : entry here base = .ok (.inr (start, pieces))) :
    ∃ longer, entry here path = .ok (.inr (start, longer)) ∧
      longer.filter counts = pieces.filter counts ++ names := by
  have hnames : (names.map Component.named).filter isHead = [] ∧
      (names.map Component.named).filter (!isHead ·) = names.map .named := by
    simp [isHead]
  have hhead := congrArg (List.filter isHead) hcomponents
  have hinner := congrArg (List.filter (!isHead ·)) hcomponents
  rw [List.filter_append, (filter_isHead_components path).1, (filter_isHead_components base).1,
    hnames.1, List.append_nil] at hhead
  rw [List.filter_append, (filter_isHead_components path).2, (filter_isHead_components base).2,
    hnames.2] at hinner
  have habsolute : path.isAbsolute = base.isAbsolute := by
    rw [Bool.eq_iff_iff, isAbsolute_iff, isAbsolute_iff, hhead]
  have hpieces : ∀ here, (startOf here path.text).2.filter counts =
      (startOf here base.text).2.filter counts ++ names := fun here =>
    filter_counts_of_componentsOf hplain
      (by rw [componentsOf_startOf, componentsOf_startOf, hinner])
  by_cases hroot : base.isAbsolute = true
  · have hsplit := hpieces []
    rw [startOf_of_isAbsolute hroot, startOf_of_isAbsolute (habsolute.trans hroot)] at hsplit
    rw [entry, if_pos hroot, startOf_of_isAbsolute hroot] at h
    obtain ⟨rfl, rfl⟩ : [] = start ∧ Bytes.split Bytes.slash (base.text.drop 1) = pieces := by
      simpa using h
    rw [entry, if_pos (habsolute.trans hroot), startOf_of_isAbsolute (habsolute.trans hroot)]
    exact ⟨_, rfl, hsplit⟩
  · have hsplit := hpieces here.location
    rw [startOf_of_not_isAbsolute hroot, startOf_of_not_isAbsolute (habsolute ▸ hroot)] at hsplit
    rw [entry, if_neg hroot] at h
    rw [entry, if_neg (habsolute ▸ hroot)]
    split at h
    · simp at h
    · next left hleft =>
      obtain ⟨rfl, rfl⟩ : here.location = start ∧ left = pieces := by simpa using h
      obtain ⟨rest, hrest, hcounted⟩ := leaveRemoved_longer hsplit hleft
      exact ⟨rest, by rw [hrest], hcounted⟩
    · simp at h

/-- A path with some more names leads to the node under these names. -/
theorem place_down {fs : FileSystem} {base path : Path} {names : List Bytes} {l : Location}
    {target : Node} {place : Place} (hbase : fs.place .follow base = .ok (.taken l))
    (hplace : fs.place .follow path = .ok place)
    (hcomponents : path.components = base.components ++ names.map .named)
    (hplain : ∀ name ∈ names, IsFileName name)
    (hat : fs.root.at? (l ++ names) = some target) (hlink : ∀ text, target ≠ .link text) :
    place = .taken (l ++ names) := by
  obtain ⟨start, pieces, hentry, hfollow, -⟩ := follow_of_place hbase (by simp)
  obtain ⟨longer, hentry', hlonger⟩ := entry_longer hplain hcomponents hentry
  obtain ⟨left, rest, hrest, hsame⟩ := follow_longer hfollow hlonger
  have hfault := pathFault?_of_place hplace
  simp only [place_eq, hfault, hentry', placeFrom, hsame] at hplace
  cases honward : follow fs.turns .follow left l rest with
  | error e => simp [honward] at hplace
  | ok reached =>
    obtain rfl : reached = place := by simpa [honward] using hplace
    exact follow_down hrest hplain hat hlink honward

/-- A path below a directory leads to what stands there, unless that is a link. -/
theorem find_down {fs : FileSystem} {base path : Path} {names : List Bytes}
    {node target found : Node} (hbase : fs.find .follow base = .ok node)
    (hfound : fs.find .follow path = .ok found)
    (hcomponents : path.components = base.components ++ names.map .named)
    (hplain : ∀ name ∈ names, IsFileName name) (hne : names ≠ [])
    (hat : node.at? names = some target) (hlink : ∀ text, target ≠ .link text) :
    found = target := by
  rw [find] at hbase hfound
  cases hresolve : fs.resolve .follow base with
  | error e => simp [hresolve] at hbase
  | ok destination =>
    cases destination with
    | absent directory name => simp [hresolve] at hbase
    | removed directory =>
      obtain rfl : fs.emptyDirectory = node := by simpa [hresolve] using hbase
      cases names with
      | nil => exact absurd rfl hne
      | cons name rest => simp [emptyDirectory, Node.at?, Node.child?] at hat
    | present l node' =>
      obtain rfl : node' = node := by simpa [hresolve] using hbase
      obtain ⟨hplace, hnode⟩ := resolve_eq_present_iff.mp hresolve
      have hbelow : fs.root.at? (l ++ names) = some target := by
        rw [Node.at?_append, hnode]
        exact hat
      cases hresolve' : fs.resolve .follow path with
      | error e => simp [hresolve'] at hfound
      | ok destination =>
        have hplace' : fs.place .follow path = .ok destination.place := by
          rw [place, hresolve']
          rfl
        have hdown := place_down hplace hplace' hcomponents hplain hbelow hlink
        have hpresent := resolve_eq_present_iff.mpr ⟨hdown ▸ hplace', hbelow⟩
        simpa [hpresent] using hfound.symm

end FileSystem

end ReleasePublisher
