import ReleasePublisher.Proofs.FileSystem.Trails

/-!
Where the paths of a file system lead. The place of a path depends on the faces on its trail alone,
so that what is done beside the trail does not show in it. Growth keeps every place that is taken;
what is taken away from a trail leaves a path that leads nowhere or to the place itself.
-/
namespace ReleasePublisher

theorem eq_ok_of_toOption {ε α : Type} {x : Except ε α} {a : α} (h : x.toOption = some a) :
    x = .ok a := by
  cases x <;> simp_all [Except.toOption]

namespace FileSystem

open Turns

theorem turns_directory {root : Node} {location : Location} {attributes : Attributes}
    {entries : List (Bytes × Node)}
    (h : root.at? location = some (.directory attributes entries)) :
    root.turns location = some .enter := by
  simp [Node.turns, h, Face.turn]

theorem turns_child {root : Node} {location : Location} {attributes : Attributes}
    {entries : List (Bytes × Node)}
    (h : root.at? location = some (.directory attributes entries)) (name : Bytes) :
    root.turns (location ++ [name]) =
      (Node.child? name entries).map fun node => node.face.turn := by
  rw [Node.turns, Node.at?_concat h]

/-- Following pieces in a tree is following them by its turns. -/
theorem route_turns (root : Node) (last : LastLink) (here : Location) (pieces : List Bytes) :
    route root.turns last here pieces = (advance root last here pieces).map Advance.route := by
  induction here, pieces using advance.induct root last with
  | case4 here piece rest attributes entries hat hskip ih =>
    simp only [route, advance, turns_directory hat, hat, if_pos hskip, ih]
  | case5 here rest attributes entries hat hskip ih =>
    simp only [route, advance, turns_directory hat, hat, if_neg hskip, if_pos, ih]
  | case6 here piece rest attributes entries hat hskip hup hlong =>
    simp only [route, advance, turns_directory hat, hat, if_neg hskip, if_neg hup, if_pos hlong]
    rfl
  | case11 here piece rest attributes entries hat hskip hup hlong child hlink hchild ih =>
    simp only [route, advance, turns_directory hat, hat, turns_child hat, if_neg hskip,
      if_neg hup, if_neg hlong, hchild]
    cases child with
    | link target => exact absurd rfl (hlink target)
    | _ => exact ih
  | case12 here piece rest node hdirectory hat =>
    cases node with
    | directory attributes entries => exact absurd rfl (hdirectory attributes entries)
    | _ => simp [route, advance, Node.turns, hat, Face.turn, Node.face, Except.map]
  | case7 here piece attributes entries hat hskip hup hlong hchild =>
    simp only [route, advance, turns_directory hat, hat, turns_child hat, if_neg hskip,
      if_neg hup, if_neg hlong, hchild, Option.map_none, if_pos]
    rfl
  | case8 here piece rest attributes entries hat hskip hup hlong hchild hrest =>
    simp only [route, advance, turns_directory hat, hat, turns_child hat, if_neg hskip,
      if_neg hup, if_neg hlong, hchild, Option.map_none, if_neg hrest]
    rfl
  | case9 here piece rest attributes entries hat hskip hup hlong target hchild hlast =>
    simp only [route, advance, turns_directory hat, hat, turns_child hat, if_neg hskip,
      if_neg hup, if_neg hlong, hchild, Option.map_some, Node.face, Face.turn, if_pos hlast]
    rfl
  | case10 here piece rest attributes entries hat hskip hup hlong target hchild hlast =>
    simp only [route, advance, turns_directory hat, hat, turns_child hat, if_neg hskip,
      if_neg hup, if_neg hlong, hchild, Option.map_some, Node.face, Face.turn, if_neg hlast]
    rfl
  | _ here =>
    simp_all [route, advance, Node.turns, Except.map, Advance.route, Destination.place]

/-- Following links on the tree comes to the place that the turns alone lead to. -/
theorem follow_turns (root : Node) (last : LastLink) (links : Nat) (here : Location)
    (pieces : List Bytes) :
    follow root.turns last links here pieces =
      (followLinks root last links here pieces).map Destination.place := by
  have hroute := route_turns root last here pieces
  rw [follow, followLinks, hroute]
  cases advance root last here pieces with
  | error e => rfl
  | ok step =>
    cases step with
    | arrived destination => rfl
    | atLink directory target rest =>
      cases links with
      | zero => rfl
      | succ links => exact follow_turns root last links _ _

theorem at?_of_advance {root : Node} {last : LastLink} {here : Location} {pieces : List Bytes}
    {destination : Destination}
    (h : advance root last here pieces = .ok (.arrived destination)) :
    (∀ l node, destination = .present l node → root.at? l = some node) ∧
      ∀ l name, destination = .absent l name → ∃ attributes entries,
        root.at? l = some (.directory attributes entries) ∧ Node.child? name entries = none := by
  induction here, pieces using advance.induct root last with
  | case4 here piece rest attributes entries hat hskip ih =>
    simp only [advance, hat, if_pos hskip] at h
    exact ih h
  | case5 here rest attributes entries hat hskip ih =>
    simp only [advance, hat, if_neg hskip, if_pos] at h
    exact ih h
  | case7 here piece attributes entries hat hskip hup hlong hchild =>
    simp only [advance, hat, if_neg hskip, if_neg hup, if_neg hlong, hchild, if_pos,
      Except.ok.injEq, Advance.arrived.injEq] at h
    subst h
    refine ⟨by simp, ?_⟩
    rintro _ _ ⟨⟩
    exact ⟨attributes, entries, hat, hchild⟩
  | case9 here piece rest attributes entries hat hskip hup hlong target hchild hlast =>
    simp only [advance, hat, if_neg hskip, if_neg hup, if_neg hlong, hchild, if_pos hlast,
      Except.ok.injEq, Advance.arrived.injEq] at h
    subst h
    refine ⟨?_, by simp⟩
    rintro _ _ ⟨⟩
    rw [Node.at?_concat hat, hchild]
  | case11 here piece rest attributes entries hat hskip hup hlong child hlink hchild ih =>
    cases child with
    | link target => exact absurd rfl (hlink target)
    | _ =>
      simp only [advance, hat, if_neg hskip, if_neg hup, if_neg hlong, hchild] at h
      exact ih h
  | case12 here piece rest node hdirectory hat =>
    cases node <;> simp_all [advance]
  | _ => grind [advance]

theorem at?_of_followLinks {root : Node} {last : LastLink} {links : Nat} {here : Location}
    {pieces : List Bytes} {destination : Destination}
    (h : followLinks root last links here pieces = .ok destination) :
    (∀ l node, destination = .present l node → root.at? l = some node) ∧
      ∀ l name, destination = .absent l name → ∃ attributes entries,
        root.at? l = some (.directory attributes entries) ∧ Node.child? name entries = none := by
  rw [followLinks] at h
  cases hstep : advance root last here pieces with
  | error e => simp [hstep] at h
  | ok step =>
    cases step with
    | arrived destination' =>
      simp only [hstep, Except.ok.injEq] at h
      exact at?_of_advance (h ▸ hstep)
    | atLink directory target rest =>
      cases links with
      | zero => simp [hstep] at h
      | succ links =>
        simp only [hstep] at h
        exact at?_of_followLinks h

def pathFault? (path : Path) : Option FileFault :=
  if path.text.contains 0 then some .zeroByteInPath
  else if path.text = [] then some (.system .notFound)
  else if pathLimit ≤ path.text.length then some (.system .nameTooLong)
  else none

def entry (here : WorkingDirectory) (path : Path) :
    Except SystemError (WorkingDirectory ⊕ Location × List Bytes) :=
  if path.isAbsolute then .ok (.inr (startOf [] path.text))
  else
    match leaveRemoved here.removed (Bytes.split Bytes.slash path.text) with
    | .error e => .error e
    | .ok (0, pieces) => .ok (.inr (here.location, pieces))
    | .ok (levels + 1, _) => .ok (.inl ⟨here.location, levels + 1⟩)

def turns (fs : FileSystem) : Turns := fs.root.turns

def place (fs : FileSystem) (last : LastLink) (path : Path) : Except FileFault Place :=
  (fs.resolve last path).map Destination.place

def trail (fs : FileSystem) (last : LastLink) (path : Path) : List Location :=
  match entry fs.workingDirectory path with
  | .ok (.inr (start, pieces)) => followTrail fs.turns last linkLimit start pieces
  | _ => []

theorem turns_eq_map_face? (fs : FileSystem) (location : Location) :
    fs.turns location = (fs.face? location).map Face.turn := by
  simp only [turns, Node.turns, face?, Option.map_map]
  rfl

theorem turns_eq_none_iff {fs : FileSystem} {location : Location} :
    fs.turns location = none ↔ fs.face? location = none := by
  simp [turns_eq_map_face?]

theorem turns_eq_of_face?_eq {fs fs' : FileSystem} {location : Location}
    (h : fs'.face? location = fs.face? location) : fs'.turns location = fs.turns location := by
  rw [turns_eq_map_face?, turns_eq_map_face?, h]

theorem exists_directory_of_turns {fs : FileSystem} {location : Location}
    (h : fs.turns location = some .enter) :
    ∃ attributes entries, fs.root.at? location = some (.directory attributes entries) := by
  rw [turns_eq_map_face?, Option.map_eq_some_iff] at h
  obtain ⟨face, hface, hturn⟩ := h
  obtain ⟨node, hat, rfl⟩ := face?_eq_some_iff.mp hface
  cases node with
  | directory attributes entries => exact ⟨attributes, entries, hat⟩
  | _ => simp [Node.face, Face.turn] at hturn

@[simp] theorem mapError_ok {ε ε' α : Type} (f : ε → ε') (a : α) :
    Except.mapError f (.ok a) = .ok a := rfl

@[simp] theorem mapError_error {ε ε' α : Type} (f : ε → ε') (e : ε) :
    Except.mapError f (.error e : Except ε α) = .error (f e) := rfl

theorem resolveFrom_eq (root : Node) (here : WorkingDirectory) (last : LastLink) (path : Path) :
    resolveFrom root here last path =
      match entry here path with
      | .error e => .error e
      | .ok (.inl here) => .ok (.removed here)
      | .ok (.inr (start, pieces)) => followLinks root last linkLimit start pieces := by
  unfold resolveFrom entry
  by_cases habs : path.isAbsolute
  · simp only [if_pos habs]
  · simp only [if_neg habs]
    rcases leaveRemoved here.removed _ with e | ⟨levels, pieces⟩
    · rfl
    · cases levels <;> rfl

theorem resolve_eq (fs : FileSystem) (last : LastLink) (path : Path) :
    fs.resolve last path =
      match pathFault? path with
      | some fault => .error fault
      | none => (resolveFrom fs.root fs.workingDirectory last path).mapError .system := by
  unfold resolve pathFault?
  split
  · rfl
  · split
    · rfl
    · split
      · rfl
      · simp only
        cases resolveFrom fs.root fs.workingDirectory last path <;> rfl

def placeFrom (turns : Turns) (last : LastLink) :
    Except SystemError (WorkingDirectory ⊕ Location × List Bytes) → Except FileFault Place
  | .error e => .error (.system e)
  | .ok (.inl here) => .ok (.removed here)
  | .ok (.inr (start, pieces)) => (follow turns last linkLimit start pieces).mapError .system

theorem place_eq (fs : FileSystem) (last : LastLink) (path : Path) :
    fs.place last path =
      match pathFault? path with
      | some fault => .error fault
      | none => placeFrom fs.turns last (entry fs.workingDirectory path) := by
  rw [place, resolve_eq]
  cases pathFault? path with
  | some fault => rfl
  | none =>
    simp only [resolveFrom_eq]
    rcases entry fs.workingDirectory path with e | here | ⟨start, pieces⟩
    · rfl
    · rfl
    · simp only [placeFrom, turns, follow_turns]
      cases followLinks fs.root last linkLimit start pieces <;> rfl

instance (fs : FileSystem) (last : LastLink) (path : Path) (l : Location) :
    Decidable (fs.place last path = .ok (.taken l)) :=
  match h : fs.place last path with
  | .ok place => decidable_of_iff (place = .taken l) (by simp)
  | .error _ => isFalse (by simp)

instance decidableAtPlace {fs : FileSystem} {last : LastLink} {path : Path} {p : Location → Prop}
    [DecidablePred p] : Decidable (∀ l, fs.place last path = .ok (.taken l) → p l) :=
  match h : fs.place last path with
  | .ok (.taken l) => decidable_of_iff (p l) (by simp)
  | .ok (.free _) => isTrue (by simp)
  | .ok (.removed _) => isTrue (by simp)
  | .error _ => isTrue (by simp)

theorem follow_of_place {fs : FileSystem} {last : LastLink} {path : Path} {place : Place}
    (h : fs.place last path = .ok place) (hne : ∀ here, place ≠ .removed here) :
    ∃ start pieces, entry fs.workingDirectory path = .ok (.inr (start, pieces)) ∧
      follow fs.turns last linkLimit start pieces = .ok place ∧
      fs.trail last path = followTrail fs.turns last linkLimit start pieces := by
  rw [place_eq] at h
  cases hfault : pathFault? path with
  | some fault => simp [hfault] at h
  | none =>
    simp only [hfault] at h
    rcases hentry : entry fs.workingDirectory path with e | here | ⟨start, pieces⟩
    · simp [hentry, placeFrom] at h
    · simp only [hentry, placeFrom, Except.ok.injEq] at h
      exact absurd h.symm (hne here)
    · refine ⟨start, pieces, rfl, ?_, by rw [trail, hentry]⟩
      simp only [hentry, placeFrom] at h
      cases hfollow : follow fs.turns last linkLimit start pieces with
      | error e => simp [hfollow] at h
      | ok place' => simpa [hfollow] using h

theorem pathFault?_of_place {fs : FileSystem} {last : LastLink} {path : Path} {place : Place}
    (h : fs.place last path = .ok place) : pathFault? path = none := by
  rw [place_eq] at h
  cases hfault : pathFault? path with
  | some fault => simp [hfault] at h
  | none => rfl

theorem place_of_follow {fs : FileSystem} {last : LastLink} {path : Path} {place : Place}
    {start : Location} {pieces : List Bytes} (hfault : pathFault? path = none)
    (hentry : entry fs.workingDirectory path = .ok (.inr (start, pieces)))
    (hfollow : follow fs.turns last linkLimit start pieces = .ok place) :
    fs.place last path = .ok place := by
  simp only [place_eq, hfault, hentry, placeFrom, hfollow]
  rfl

variable {fs fs' : FileSystem} {last : LastLink} {path : Path}

theorem at?_of_resolve {destination : Destination} (h : fs.resolve last path = .ok destination) :
    (∀ l node, destination = .present l node → fs.root.at? l = some node) ∧
      ∀ l name, destination = .absent l name → ∃ attributes entries,
        fs.root.at? l = some (.directory attributes entries) ∧ Node.child? name entries = none := by
  rw [resolve_eq] at h
  cases hfault : pathFault? path with
  | some fault => simp [hfault] at h
  | none =>
    simp only [hfault, resolveFrom_eq] at h
    rcases hentry : entry fs.workingDirectory path with e | here | ⟨start, pieces⟩
    · simp [hentry] at h
    · simp only [hentry, mapError_ok, Except.ok.injEq] at h
      simp [← h]
    · simp only [hentry] at h
      cases hfollow : followLinks fs.root last linkLimit start pieces with
      | error e => simp [hfollow] at h
      | ok destination' =>
        simp only [hfollow, mapError_ok, Except.ok.injEq] at h
        exact at?_of_followLinks (h ▸ hfollow)

/-- A path is resolved to the node at its place. -/
theorem resolve_eq_present_iff {l : Location} {node : Node} :
    fs.resolve last path = .ok (.present l node) ↔
      fs.place last path = .ok (.taken l) ∧ fs.root.at? l = some node := by
  constructor
  · intro h
    exact ⟨by rw [place, h]; rfl, (at?_of_resolve h).1 l node rfl⟩
  · rintro ⟨hplace, hat⟩
    rw [place] at hplace
    cases hresolve : fs.resolve last path with
    | error e => simp [hresolve, Except.map] at hplace
    | ok destination =>
      cases destination with
      | present l' node' =>
        simp only [hresolve, Except.map, Destination.place, Except.ok.injEq,
          Place.taken.injEq] at hplace
        subst hplace
        rw [(at?_of_resolve hresolve).1 l' node' rfl, Option.some.injEq] at hat
        rw [hat]
      | _ => simp [hresolve, Except.map, Destination.place] at hplace

theorem resolve_of_place_free {l : Location} (h : fs.place last path = .ok (.free l)) :
    ∃ directory name attributes entries, l = directory ++ [name] ∧
      fs.resolve last path = .ok (.absent directory name) ∧
      fs.root.at? directory = some (.directory attributes entries) ∧
      Node.child? name entries = none := by
  rw [place] at h
  cases hresolve : fs.resolve last path with
  | error e => simp [hresolve, Except.map] at h
  | ok destination =>
    cases destination with
    | absent directory name =>
      simp only [hresolve, Except.map, Destination.place, Except.ok.injEq, Place.free.injEq] at h
      obtain ⟨attributes, entries, hat, hchild⟩ := (at?_of_resolve hresolve).2 directory name rfl
      exact ⟨directory, name, attributes, entries, h.symm, rfl, hat, hchild⟩
    | _ => simp [hresolve, Except.map, Destination.place] at h

theorem mem_trail_of_taken {l : Location} (h : fs.place last path = .ok (.taken l)) :
    l ∈ fs.trail last path ∧ fs.face? l ≠ none := by
  obtain ⟨start, pieces, -, hfollow, htrail⟩ := follow_of_place h (by simp)
  rw [htrail, Ne, ← turns_eq_none_iff]
  exact mem_followTrail_of_taken hfollow

theorem mem_trail_of_free {l : Location} (h : fs.place last path = .ok (.free l)) :
    l ∈ fs.trail last path ∧ fs.face? l = none := by
  obtain ⟨start, pieces, -, hfollow, htrail⟩ := follow_of_place h (by simp)
  rw [htrail, ← turns_eq_none_iff]
  exact mem_followTrail_of_free hfollow

/-- All that a path passes on its way to a node shows. -/
theorem face?_ne_none_of_mem_trail {l x : Location} (h : fs.place last path = .ok (.taken l))
    (hx : x ∈ fs.trail last path) : fs.face? x ≠ none := by
  obtain ⟨start, pieces, -, hfollow, htrail⟩ := follow_of_place h (by simp)
  rw [htrail] at hx
  intro hnone
  exact absurd (eq_free_of_mem_followTrail hfollow hx (turns_eq_none_iff.mpr hnone)) (by simp)

/-- A path that passes what is no directory and no link ends there. -/
theorem eq_of_mem_trail_of_stop {l x : Location} (h : fs.place last path = .ok (.taken l))
    (hx : x ∈ fs.trail last path) (hstop : fs.turns x = some .stop) : x = l := by
  obtain ⟨start, pieces, -, hfollow, htrail⟩ := follow_of_place h (by simp)
  rw [htrail] at hx
  simpa using (eq_taken_of_mem_followTrail hfollow hx hstop).symm

theorem place_follow_of_keep {l : Location} (h : fs.place .keep path = .ok (.taken l))
    (hlink : ∀ target, fs.turns l ≠ some (.follow target)) :
    fs.place .follow path = .ok (.taken l) := by
  obtain ⟨start, pieces, hentry, hfollow, -⟩ := follow_of_place h (by simp)
  exact place_of_follow (pathFault?_of_place h) hentry (Turns.follow_of_keep hfollow hlink)

/-- A path that can be followed to its end also leads somewhere if the last link is kept. -/
theorem exists_place_keep {l : Location} (h : fs.place .follow path = .ok (.taken l)) :
    ∃ x, fs.place .keep path = .ok (.taken x) := by
  obtain ⟨start, pieces, hentry, hfollow, -⟩ := follow_of_place h (by simp)
  obtain ⟨x, hkeep⟩ := Turns.exists_follow_keep hfollow
  exact ⟨x, place_of_follow (pathFault?_of_place h) hentry hkeep⟩

theorem trail_keep_subset {x : Location} (h : x ∈ fs.trail .keep path) :
    x ∈ fs.trail .follow path := by
  rw [trail] at h ⊢
  split at h
  · exact followTrail_keep_subset h
  · exact h

theorem entry_congr (h : path.isAbsolute = true ∨ fs'.workingDirectory = fs.workingDirectory) :
    entry fs'.workingDirectory path = entry fs.workingDirectory path := by
  rcases h with h | h
  · simp only [entry, if_pos h]
  · rw [h]

/-- What is beside the trail of a path does not matter to it. -/
theorem place_congr (hturns : ∀ l ∈ fs.trail last path, fs'.turns l = fs.turns l)
    (hhere : path.isAbsolute = true ∨ fs'.workingDirectory = fs.workingDirectory) :
    fs'.place last path = fs.place last path ∧ fs'.trail last path = fs.trail last path := by
  have hentry := entry_congr hhere
  rw [place_eq, place_eq, trail, hentry]
  rcases hstart : entry fs.workingDirectory path with e | here | ⟨start, pieces⟩
  · simp [trail, hstart, placeFrom]
  · simp [trail, hstart, placeFrom]
  · simp only [trail, hstart] at hturns
    obtain ⟨htrail, hfollow⟩ := follow_congr last hturns
    simp [trail, hstart, placeFrom, htrail, hfollow]

/-- A path that leads into the tree and starts from the working directory passes it. -/
theorem mem_trail_of_isAbsolute_eq_false {place : Place} (h : fs.place last path = .ok place)
    (hne : ∀ here, place ≠ .removed here) (hrelative : path.isAbsolute = false) :
    fs.workingDirectory.location ∈ fs.trail last path ∧
      fs.face? fs.workingDirectory.location ≠ none := by
  obtain ⟨start, pieces, hentry, hfollow, htrail⟩ := follow_of_place h hne
  have hstart : start = fs.workingDirectory.location := by
    rw [entry, if_neg (by simp [hrelative])] at hentry
    split at hentry <;> simp_all
  rw [htrail, Ne, ← turns_eq_none_iff, ← hstart]
  exact ⟨head_mem_followTrail .., turns_ne_none_of_follow hfollow⟩

/-- Where a path leads stays when only what is beside its trail goes away. -/
theorem Keeps.place_taken {location l : Location} (h : Keeps location fs fs')
    (hplace : fs.place last path = .ok (.taken l)) (hbeside : location ∉ fs.trail last path) :
    fs'.place last path = .ok (.taken l) ∧ fs'.trail last path = fs.trail last path ∧
      fs'.face? l = fs.face? l := by
  have hface : ∀ x ∈ fs.trail last path, fs'.face? x = fs.face? x := fun x hx =>
    h.face?_eq x (fun hxl => hbeside (hxl ▸ hx)) (face?_ne_none_of_mem_trail hplace hx)
  have hhere : path.isAbsolute = true ∨ fs'.workingDirectory = fs.workingDirectory := by
    cases habsolute : path.isAbsolute with
    | true => exact Or.inl rfl
    | false =>
      obtain ⟨hmem, hsome⟩ := mem_trail_of_isAbsolute_eq_false hplace (by simp) habsolute
      exact Or.inr (h.here_eq (fun hxl => hbeside (hxl ▸ hmem)) hsome)
  obtain ⟨hplace', htrail⟩ := place_congr (fun x hx => turns_eq_of_face?_eq (hface x hx)) hhere
  exact ⟨hplace'.trans hplace, htrail, hface l (mem_trail_of_taken hplace).1⟩

/-- Where more shows, a path leads on to where it led. -/
theorem Grows.place_taken {l : Location} (h : Grows fs fs')
    (hplace : fs.place last path = .ok (.taken l)) :
    fs'.place last path = .ok (.taken l) ∧ fs'.trail last path = fs.trail last path ∧
      fs'.face? l = fs.face? l := by
  have hface : ∀ x ∈ fs.trail last path, fs'.face? x = fs.face? x := fun x hx =>
    h.face?_eq x (face?_ne_none_of_mem_trail hplace hx)
  obtain ⟨hplace', htrail⟩ :=
    place_congr (fun x hx => turns_eq_of_face?_eq (hface x hx)) (Or.inr h.here_eq)
  exact ⟨hplace'.trans hplace, htrail, hface l (mem_trail_of_taken hplace).1⟩

/-- A path that leads to nothing leads to what is put there, unless that is a link. -/
theorem ChangesOnly.place_filled {l : Location} {face : Face} (h : ChangesOnly l fs fs')
    (hhere : fs'.workingDirectory = fs.workingDirectory)
    (hplace : fs.place last path = .ok (.free l)) (hface : fs'.face? l = some face)
    (hlink : ∀ target, face.turn ≠ .follow target) :
    fs'.place last path = .ok (.taken l) ∧ fs'.trail last path = fs.trail last path := by
  obtain ⟨start, pieces, hentry, hfollow, htrail⟩ := follow_of_place hplace (by simp)
  have hoff : ∀ x, x ≠ l → fs'.turns x = fs.turns x := fun x hx =>
    turns_eq_of_face?_eq (h.face?_eq x hx)
  have hturn : fs'.turns l = some face.turn := by rw [turns_eq_map_face?, hface]; rfl
  obtain ⟨hfollow', htrail'⟩ := follow_of_filled hfollow hoff (by simp [hturn])
    (by simpa [hturn] using hlink)
  have hentry' : entry fs'.workingDirectory path = .ok (.inr (start, pieces)) :=
    (entry_congr (Or.inr hhere)).trans hentry
  refine ⟨place_of_follow (pathFault?_of_place hplace) hentry' hfollow', ?_⟩
  simp only [trail, hentry', hentry, htrail']

/-- What a node is in is a directory. -/
theorem turns_dropLast {x : Location} (h : fs.turns x = some .enter) :
    fs.turns x.dropLast = some .enter := by
  rcases List.eq_nil_or_concat x with rfl | ⟨front, name, rfl⟩
  · exact h
  · obtain ⟨attributes, entries, hat⟩ := exists_directory_of_turns h
    rw [List.concat_eq_append, Node.at?_append] at hat
    rw [List.concat_eq_append, List.dropLast_concat]
    cases hfront : fs.root.at? front with
    | none => simp [hfront] at hat
    | some node =>
      cases node with
      | directory attributes' entries' => exact turns_directory hfront
      | _ => simp [hfront, Node.at?] at hat

/-- A path that leads to a file leads to where that was when it is taken away. -/
theorem ChangesOnly.place_emptied {l : Location} (h : ChangesOnly l fs fs')
    (hhere : fs'.workingDirectory = fs.workingDirectory)
    (henter : fs.turns fs.workingDirectory.location = some .enter)
    (hplace : fs.place last path = .ok (.taken l)) (hstop : fs.turns l = some .stop)
    (hnone : fs'.face? l = none) : fs'.place last path = .ok (.free l) := by
  obtain ⟨start, pieces, hentry, hfollow, -⟩ := follow_of_place hplace (by simp)
  have hoff : ∀ x, x ≠ l → fs'.turns x = fs.turns x := fun x hx =>
    turns_eq_of_face?_eq (h.face?_eq x hx)
  have hroot : l ≠ [] := by
    rintro rfl
    simp [face?] at hnone
  have hstart : start ≠ l := by
    rw [entry] at hentry
    split at hentry
    · have hempty : start = [] := by
        have hfst := startOf_fst [] path.text
        simp_all
      exact hempty ▸ hroot.symm
    · have hworking : start = fs.workingDirectory.location := by
        split at hentry <;> simp_all
      rintro rfl
      simp [hworking, henter] at hstop
  have hfollow' := follow_of_emptied hfollow hstop hstart hroot (fun _ => turns_dropLast) hoff
    (turns_eq_none_iff.mpr hnone)
  exact place_of_follow (pathFault?_of_place hplace) ((entry_congr (Or.inr hhere)).trans hentry)
    hfollow'

end FileSystem

end ReleasePublisher
