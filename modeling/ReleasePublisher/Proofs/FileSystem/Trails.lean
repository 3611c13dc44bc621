import ReleasePublisher.Proofs.FileSystem.Faces

/-!
Where paths lead and what they pass on the way. A path is followed by the turns that the nodes on
its way make it take, and its trail holds every location that is looked at. A change beside the
trail does not show in where the path leads; a node that is taken away from the trail stops the path
there, and a file that is made where a path leads to nothing is where the path leads from then on.
-/
namespace ReleasePublisher

inductive Place
  | taken (location : Location)
  | free (location : Location)
  | removed (directory : WorkingDirectory)
  deriving DecidableEq, Repr

def Destination.place : Destination → Place
  | .present location _ => .taken location
  | .absent directory name => .free (directory ++ [name])
  | .removed directory => .removed directory

inductive Turn
  | enter
  | follow (target : Bytes)
  | stop
  deriving DecidableEq, Repr

def Face.turn : Face → Turn
  | .directory _ => .enter
  | .link target => .follow target
  | _ => .stop

abbrev Turns := Location → Option Turn

def Node.turns (root : Node) : Turns := fun location =>
  (root.at? location).map fun node => node.face.turn

inductive Route
  | arrived (place : Place)
  | atLink (directory : Location) (target : Bytes) (rest : List Bytes)
  deriving DecidableEq, Repr

def Advance.route : Advance → Route
  | .arrived destination => .arrived destination.place
  | .atLink directory target rest => .atLink directory target rest

namespace Turns

open FileSystem

/-- Follows pieces by the turns alone, as far as the first link to replace. -/
def route (turns : Turns) (last : LastLink) :
    Location → List Bytes → Except SystemError Route
  | here, [] =>
    match turns here with
    | some _ => .ok (.arrived (.taken here))
    | none => .error .notFound
  | here, piece :: rest =>
    match turns here with
    | none => .error .notFound
    | some .enter =>
      if piece = [] ∨ piece = Path.dot then route turns last here rest
      else if piece = Path.dotDot then route turns last here.dropLast rest
      else if nameLimit < piece.length then .error .nameTooLong
      else
        match turns (here ++ [piece]) with
        | none => if rest = [] then .ok (.arrived (.free (here ++ [piece]))) else .error .notFound
        | some (.follow target) =>
          if rest = [] ∧ last = .keep then .ok (.arrived (.taken (here ++ [piece])))
          else .ok (.atLink here target rest)
        | some _ => route turns last (here ++ [piece]) rest
    | some _ => .error .notADirectory

def routeTrail (turns : Turns) : Location → List Bytes → List Location
  | here, [] => [here]
  | here, piece :: rest =>
    here ::
      match turns here with
      | some .enter =>
        if piece = [] ∨ piece = Path.dot then routeTrail turns here rest
        else if piece = Path.dotDot then routeTrail turns here.dropLast rest
        else if nameLimit < piece.length then []
        else
          match turns (here ++ [piece]) with
          | none => [here ++ [piece]]
          | some (.follow _) => [here ++ [piece]]
          | some _ => routeTrail turns (here ++ [piece]) rest
      | _ => []

def follow (turns : Turns) (last : LastLink) :
    (links : Nat) → Location → List Bytes → Except SystemError Place
  | links, here, pieces =>
    match route turns last here pieces with
    | .error e => .error e
    | .ok (.arrived place) => .ok place
    | .ok (.atLink directory target rest) =>
      match links with
      | 0 => .error .tooManyLinks
      | links + 1 =>
        let (start, inner) := startOf directory target
        follow turns last links start (inner ++ rest)

def followTrail (turns : Turns) (last : LastLink) :
    (links : Nat) → Location → List Bytes → List Location
  | links, here, pieces =>
    routeTrail turns here pieces ++
      match route turns last here pieces with
      | .ok (.atLink directory target rest) =>
        match links with
        | 0 => []
        | links + 1 =>
          let (start, inner) := startOf directory target
          followTrail turns last links start (inner ++ rest)
      | _ => []

attribute [local grind =] route routeTrail

theorem head_mem_routeTrail (turns : Turns) (here : Location) (pieces : List Bytes) :
    here ∈ routeTrail turns here pieces := by
  cases pieces <;> simp [routeTrail]

theorem head_mem_followTrail (turns : Turns) (last : LastLink) (links : Nat) (here : Location)
    (pieces : List Bytes) : here ∈ followTrail turns last links here pieces := by
  rw [followTrail]
  exact List.mem_append_left _ (head_mem_routeTrail turns here pieces)

theorem route_congr {turns turns' : Turns} (last : LastLink) {here : Location}
    {pieces : List Bytes} (h : ∀ l ∈ routeTrail turns here pieces, turns' l = turns l) :
    routeTrail turns' here pieces = routeTrail turns here pieces ∧
      route turns' last here pieces = route turns last here pieces := by
  have hhere := h here (head_mem_routeTrail turns here pieces)
  induction here, pieces using route.induct turns last with
  | case1 here turn hturn => simp [route, routeTrail, hhere]
  | case2 here hturn => simp [route, routeTrail, hhere]
  | case3 here piece rest hturn => simp [route, routeTrail, hhere, hturn]
  | case4 here piece rest hturn hskip ih =>
    simp only [routeTrail, hturn, if_pos hskip, List.forall_mem_cons] at h
    have hrest := ih h.2 (h.2 here (head_mem_routeTrail ..))
    simp [route, routeTrail, hhere, hturn, hskip, hrest]
  | case5 here rest hturn hskip ih =>
    simp only [routeTrail, hturn, if_neg hskip, if_pos, List.forall_mem_cons] at h
    have hrest := ih h.2 (h.2 here.dropLast (head_mem_routeTrail ..))
    simp [route, routeTrail, hhere, hturn, hskip, hrest]
  | case6 here piece rest hturn hskip hup hlong =>
    simp [route, routeTrail, hhere, hturn, hskip, hup, hlong]
  | case11 here piece rest hturn hskip hup hlong turn hfollow hchild ih =>
    simp only [routeTrail, hturn, if_neg hskip, if_neg hup, if_neg hlong, hchild] at h
    cases turn with
    | follow target => exact absurd rfl (hfollow target)
    | _ =>
      rw [List.forall_mem_cons] at h
      have hrest := ih h.2 (h.2 _ (head_mem_routeTrail ..))
      have hchild' := h.2 _ (head_mem_routeTrail ..)
      simp [route, routeTrail, hhere, hturn, hskip, hup, hlong, hchild, hchild', hrest]
  | case12 here piece rest turn henter hturn =>
    cases turn <;> simp_all [route, routeTrail]
  | _ here piece =>
    simp_all [route, routeTrail]

/-- On a way that does not fail, nothing is missing but what it ends at. -/
theorem eq_free_of_mem_routeTrail {turns : Turns} {last : LastLink} {here : Location}
    {pieces : List Bytes} {r : Route} (h : route turns last here pieces = .ok r) {l : Location}
    (hl : l ∈ routeTrail turns here pieces) (hnone : turns l = none) : r = .arrived (.free l) := by
  induction here, pieces using route.induct turns last with
  | case11 here piece rest hturn hskip hup hlong turn hfollow hchild ih =>
    cases turn <;> grind
  | _ => grind

theorem mem_routeTrail_of_taken {turns : Turns} {last : LastLink} {here : Location}
    {pieces : List Bytes} {l : Location}
    (h : route turns last here pieces = .ok (.arrived (.taken l))) :
    l ∈ routeTrail turns here pieces ∧ turns l ≠ none := by
  induction here, pieces using route.induct turns last with
  | case11 here piece rest hturn hskip hup hlong turn hfollow hchild ih =>
    cases turn <;> grind
  | _ => grind

theorem mem_routeTrail_of_free {turns : Turns} {last : LastLink} {here : Location}
    {pieces : List Bytes} {l : Location}
    (h : route turns last here pieces = .ok (.arrived (.free l))) :
    l ∈ routeTrail turns here pieces ∧ turns l = none := by
  induction here, pieces using route.induct turns last with
  | case11 here piece rest hturn hskip hup hlong turn hfollow hchild ih =>
    cases turn <;> grind
  | _ => grind

theorem route_of_none {turns : Turns} {here : Location} (h : turns here = none)
    (last : LastLink) (pieces : List Bytes) :
    route turns last here pieces = .error .notFound := by
  cases pieces <;> simp [route, h]

/-- A way ends where a location on it is taken away. -/
theorem route_of_missing {turns turns' : Turns} (last : LastLink) {here : Location}
    {pieces : List Bytes} {l : Location} (hl : l ∈ routeTrail turns here pieces)
    (hoff : ∀ x, x ≠ l → turns' x = turns x) (hnone : turns' l = none) :
    route turns' last here pieces = .error .notFound ∨
      route turns' last here pieces = .ok (.arrived (.free l)) := by
  -- a step upwards to the location fails; a step downwards to it may be the last one
  by_cases hhere : here = l
  · exact Or.inl (route_of_none (hhere ▸ hnone) last pieces)
  · have hturn' := hoff here hhere
    induction here, pieces using route.induct turns last with
    | case5 here rest hturn hskip ih =>
      by_cases hup : here.dropLast = l
      · left
        rw [route, hturn', hturn]
        simp [hskip, route_of_none (hup ▸ hnone)]
      · grind
    | case11 here piece rest hturn hskip hup hlong turn hfollow hchild ih =>
      have hrest : l ∈ routeTrail turns (here ++ [piece]) rest := by
        cases turn <;> grind
      by_cases hdown : here ++ [piece] = l
      · subst hdown
        simp only [route, hturn', hturn, if_neg hskip, if_neg hup, if_neg hlong, hnone]
        by_cases hend : rest = []
        · exact Or.inr (if_pos hend)
        · exact Or.inl (if_neg hend)
      · have hstep : route turns' last here (piece :: rest) =
            route turns' last (here ++ [piece]) rest := by
          have hchild' := (hoff _ hdown).trans hchild
          cases turn with
          | follow target => exact absurd rfl (hfollow target)
          | _ => simp only [route, hturn', hturn, if_neg hskip, if_neg hup, if_neg hlong, hchild']
        rw [hstep]
        exact ih hrest hdown (hoff _ hdown)
    | case12 here piece rest turn henter hturn =>
      cases turn <;> grind
    | _ => grind

/-- A way that ends at nothing ends at what is put there. -/
theorem route_of_filled {turns turns' : Turns} {last : LastLink} {here : Location}
    {pieces : List Bytes} {l : Location}
    (h : route turns last here pieces = .ok (.arrived (.free l)))
    (hoff : ∀ x, x ≠ l → turns' x = turns x) (hsome : turns' l ≠ none)
    (hfollow : ∀ target, turns' l ≠ some (.follow target)) :
    route turns' last here pieces = .ok (.arrived (.taken l)) ∧
      routeTrail turns' here pieces = routeTrail turns here pieces := by
  have hnone := (mem_routeTrail_of_free h).2
  have hkeep : ∀ {x turn}, turns x = some turn → turns' x = some turn := fun {x turn} hx =>
    (hoff x (by rintro rfl; simp [hnone] at hx)).trans hx
  induction here, pieces using route.induct turns last with
  | case4 here piece rest hturn hskip ih =>
    simp only [route, hturn, if_pos hskip] at h
    simp [route, routeTrail, hkeep hturn, hturn, hskip, ih h]
  | case5 here rest hturn hskip ih =>
    simp only [route, hturn, if_neg hskip, if_pos] at h
    simp [route, routeTrail, hkeep hturn, hturn, hskip, ih h]
  | case7 here piece hturn hskip hup hlong hchild =>
    simp only [route, hturn, if_neg hskip, if_neg hup, if_neg hlong, hchild, if_pos,
      Except.ok.injEq, Route.arrived.injEq, Place.free.injEq] at h
    subst h
    cases hnew : turns' (here ++ [piece]) with
    | none => exact absurd hnew hsome
    | some turn =>
      cases turn with
      | follow target => exact absurd hnew (hfollow target)
      | _ =>
        simp only [route, routeTrail, hkeep hturn, hturn, if_neg hskip, if_neg hup, if_neg hlong,
          hchild, hnew, and_self]
  | case11 here piece rest hturn hskip hup hlong turn hlink hchild ih =>
    cases turn with
    | follow target => exact absurd rfl (hlink target)
    | _ =>
      simp only [route, hturn, if_neg hskip, if_neg hup, if_neg hlong, hchild] at h
      simp only [route, routeTrail, hkeep hturn, hturn, if_neg hskip, if_neg hup, if_neg hlong,
        hchild, hkeep hchild, ih h, and_self]
  | case12 here piece rest turn henter hturn =>
    cases turn <;> simp_all [route]
  | _ => grind

/-- A way does not lead past what it cannot enter. -/
theorem eq_taken_of_mem_routeTrail {turns : Turns} {last : LastLink} {here : Location}
    {pieces : List Bytes} {r : Route} (h : route turns last here pieces = .ok r) {l : Location}
    (hl : l ∈ routeTrail turns here pieces) (hstop : turns l = some .stop) :
    r = .arrived (.taken l) := by
  induction here, pieces using route.induct turns last with
  | case11 here piece rest hturn hskip hup hlong turn hfollow hchild ih =>
    cases turn <;> grind
  | _ => grind

/-- A link in the last place that is not followed ends the way; else it plays no part. -/
theorem route_keep_follow (turns : Turns) (here : Location) (pieces : List Bytes) :
    route turns .keep here pieces = route turns .follow here pieces ∨
      ∃ l target, route turns .keep here pieces = .ok (.arrived (.taken l)) ∧
        turns l = some (.follow target) := by
  induction here, pieces using route.induct turns .follow with
  | case11 here piece rest hturn hskip hup hlong turn hfollow hchild ih =>
    cases turn <;> grind
  | case12 here piece rest turn henter hturn =>
    cases turn <;> grind
  | _ => grind

section Links

variable {turns : Turns} {last : LastLink} {links : Nat} {here : Location} {pieces : List Bytes}

theorem follow_of_error {e : SystemError} (h : route turns last here pieces = .error e) :
    follow turns last links here pieces = .error e ∧
      followTrail turns last links here pieces = routeTrail turns here pieces := by
  rw [follow, followTrail, h]
  simp

theorem follow_of_arrived {place : Place}
    (h : route turns last here pieces = .ok (.arrived place)) :
    follow turns last links here pieces = .ok place ∧
      followTrail turns last links here pieces = routeTrail turns here pieces := by
  rw [follow, followTrail, h]
  simp

theorem follow_zero_of_atLink {directory : Location} {target : Bytes} {rest : List Bytes}
    (h : route turns last here pieces = .ok (.atLink directory target rest)) :
    follow turns last 0 here pieces = .error .tooManyLinks ∧
      followTrail turns last 0 here pieces = routeTrail turns here pieces := by
  rw [follow, followTrail, h]
  simp

theorem follow_succ_of_atLink {directory : Location} {target : Bytes} {rest : List Bytes}
    (h : route turns last here pieces = .ok (.atLink directory target rest)) :
    follow turns last (links + 1) here pieces =
        follow turns last links (startOf directory target).1 ((startOf directory target).2 ++ rest) ∧
      followTrail turns last (links + 1) here pieces = routeTrail turns here pieces ++
        followTrail turns last links (startOf directory target).1
          ((startOf directory target).2 ++ rest) := by
  constructor
  · rw [follow, h]
  · rw [followTrail, h]

theorem mem_followTrail_of_mem_routeTrail {l : Location} (h : l ∈ routeTrail turns here pieces) :
    l ∈ followTrail turns last links here pieces := by
  rw [followTrail]
  exact List.mem_append_left _ h

end Links

/-- A path is followed as before if nothing has changed on its trail. -/
theorem follow_congr {turns turns' : Turns} (last : LastLink) {links : Nat} {here : Location}
    {pieces : List Bytes}
    (h : ∀ l ∈ followTrail turns last links here pieces, turns' l = turns l) :
    followTrail turns' last links here pieces = followTrail turns last links here pieces ∧
      follow turns' last links here pieces = follow turns last links here pieces := by
  induction links generalizing here pieces with
  | zero =>
    obtain ⟨htrail, hroute⟩ :=
      route_congr last fun l hl => h l (mem_followTrail_of_mem_routeTrail hl)
    rw [followTrail, followTrail, follow, follow, htrail, hroute]
    simp
  | succ links ih =>
    obtain ⟨htrail, hroute⟩ :=
      route_congr last fun l hl => h l (mem_followTrail_of_mem_routeTrail hl)
    cases hstep : route turns last here pieces with
    | error e =>
      simp [follow_of_error hstep, follow_of_error (hroute.trans hstep), htrail]
    | ok r =>
      cases r with
      | arrived place =>
        simp [follow_of_arrived hstep, follow_of_arrived (hroute.trans hstep), htrail]
      | atLink directory target rest =>
        rw [(follow_succ_of_atLink hstep).2] at h
        have hrest := ih fun l hl => h l (List.mem_append_right _ hl)
        simp [follow_succ_of_atLink hstep, follow_succ_of_atLink (hroute.trans hstep), htrail,
          hrest]

inductive Leads (turns : Turns) (last : LastLink) (place : Place) :
    Nat → Location → List Bytes → Prop
  | arrived {links : Nat} {here : Location} {pieces : List Bytes}
      (step : route turns last here pieces = .ok (.arrived place)) :
      Leads turns last place links here pieces
  | link {links : Nat} {here : Location} {pieces : List Bytes} {directory : Location}
      {target : Bytes} {rest : List Bytes}
      (step : route turns last here pieces = .ok (.atLink directory target rest))
      (onward : Leads turns last place links (startOf directory target).1
        ((startOf directory target).2 ++ rest)) :
      Leads turns last place (links + 1) here pieces

theorem leads_of_follow {turns : Turns} {last : LastLink} {place : Place} {links : Nat}
    {here : Location} {pieces : List Bytes}
    (h : follow turns last links here pieces = .ok place) :
    Leads turns last place links here pieces := by
  cases hstep : route turns last here pieces with
  | error e => simp [follow_of_error hstep] at h
  | ok r =>
    cases r with
    | arrived place' =>
      rw [(follow_of_arrived hstep).1, Except.ok.injEq] at h
      exact .arrived (h ▸ hstep)
    | atLink directory target rest =>
      cases links with
      | zero => simp [follow_zero_of_atLink hstep] at h
      | succ links =>
        rw [(follow_succ_of_atLink hstep).1] at h
        exact .link hstep (leads_of_follow h)

theorem Leads.follow_eq {turns : Turns} {last : LastLink} {place : Place} {links : Nat}
    {here : Location} {pieces : List Bytes} (h : Leads turns last place links here pieces) :
    follow turns last links here pieces = .ok place := by
  induction h with
  | arrived step => exact (follow_of_arrived step).1
  | link step onward ih => exact (follow_succ_of_atLink step).1.trans ih

/-- A trail with a hole in it ends there. -/
theorem eq_free_of_mem_followTrail {turns : Turns} {last : LastLink} {links : Nat}
    {here : Location} {pieces : List Bytes} {place : Place}
    (h : follow turns last links here pieces = .ok place) {l : Location}
    (hl : l ∈ followTrail turns last links here pieces) (hnone : turns l = none) :
    place = .free l := by
  revert hl
  replace h := leads_of_follow h
  induction h with
  | arrived hstep =>
    rw [(follow_of_arrived hstep).2]
    intro hl
    exact Route.arrived.inj (eq_free_of_mem_routeTrail hstep hl hnone)
  | link hstep honward ih =>
    rw [(follow_succ_of_atLink hstep).2, List.mem_append]
    rintro (hl | hl)
    · exact absurd (eq_free_of_mem_routeTrail hstep hl hnone) (by simp)
    · exact ih hl

theorem mem_followTrail_of_taken {turns : Turns} {last : LastLink} {links : Nat}
    {here : Location} {pieces : List Bytes} {l : Location}
    (h : follow turns last links here pieces = .ok (.taken l)) :
    l ∈ followTrail turns last links here pieces ∧ turns l ≠ none := by
  replace h := leads_of_follow h
  induction h with
  | arrived hstep =>
    rw [(follow_of_arrived hstep).2]
    exact mem_routeTrail_of_taken hstep
  | link hstep honward ih =>
    rw [(follow_succ_of_atLink hstep).2]
    exact ⟨List.mem_append_right _ ih.1, ih.2⟩

theorem mem_followTrail_of_free {turns : Turns} {last : LastLink} {links : Nat}
    {here : Location} {pieces : List Bytes} {l : Location}
    (h : follow turns last links here pieces = .ok (.free l)) :
    l ∈ followTrail turns last links here pieces ∧ turns l = none := by
  replace h := leads_of_follow h
  induction h with
  | arrived hstep =>
    rw [(follow_of_arrived hstep).2]
    exact mem_routeTrail_of_free hstep
  | link hstep honward ih =>
    rw [(follow_succ_of_atLink hstep).2]
    exact ⟨List.mem_append_right _ ih.1, ih.2⟩

/-- A path leads nowhere, or to the place itself, when a location on its trail is taken away. -/
theorem follow_of_missing {turns turns' : Turns} (last : LastLink) {links : Nat}
    {here : Location} {pieces : List Bytes} {l : Location}
    (hl : l ∈ followTrail turns last links here pieces)
    (hoff : ∀ x, x ≠ l → turns' x = turns x) (hnone : turns' l = none) :
    (∃ e, follow turns' last links here pieces = .error e) ∨
      follow turns' last links here pieces = .ok (.free l) := by
  -- the location is met before the first link, or the way to that link stays
  by_cases hfirst : l ∈ routeTrail turns here pieces
  · rcases route_of_missing last hfirst hoff hnone with hstep | hstep
    · exact Or.inl ⟨_, (follow_of_error hstep).1⟩
    · exact Or.inr (follow_of_arrived hstep).1
  · have hsame : ∀ x ∈ routeTrail turns here pieces, turns' x = turns x :=
      fun x hx => hoff x fun hxl => hfirst (hxl ▸ hx)
    obtain ⟨htrail, hroute⟩ := route_congr last hsame
    cases hstep : route turns last here pieces with
    | error e => exact Or.inl ⟨e, (follow_of_error (hroute.trans hstep)).1⟩
    | ok r =>
      cases r with
      | arrived place =>
        rw [(follow_of_arrived hstep).2] at hl
        exact absurd hl hfirst
      | atLink directory target rest =>
        cases links with
        | zero => exact Or.inl ⟨_, (follow_zero_of_atLink (hroute.trans hstep)).1⟩
        | succ links =>
          rw [(follow_succ_of_atLink hstep).2, List.mem_append] at hl
          rw [(follow_succ_of_atLink (hroute.trans hstep)).1]
          exact follow_of_missing last (hl.resolve_left hfirst) hoff hnone

/-- A path that leads to nothing leads to what is put there, unless that is a link. -/
theorem follow_of_filled {turns turns' : Turns} {last : LastLink} {links : Nat}
    {here : Location} {pieces : List Bytes} {l : Location}
    (h : follow turns last links here pieces = .ok (.free l))
    (hoff : ∀ x, x ≠ l → turns' x = turns x) (hsome : turns' l ≠ none)
    (hfollow : ∀ target, turns' l ≠ some (.follow target)) :
    follow turns' last links here pieces = .ok (.taken l) ∧
      followTrail turns' last links here pieces = followTrail turns last links here pieces := by
  replace h := leads_of_follow h
  induction h with
  | arrived hstep =>
    obtain ⟨hstep', htrail⟩ := route_of_filled hstep hoff hsome hfollow
    rw [(follow_of_arrived hstep).2, (follow_of_arrived hstep').2]
    exact ⟨(follow_of_arrived hstep').1, htrail⟩
  | @link links here pieces _ _ _ hstep honward ih =>
    -- nothing is missing on the way to a link, so that way stays
    have hnone := (mem_followTrail_of_free honward.follow_eq).2
    have hsame : ∀ x ∈ routeTrail turns here pieces, turns' x = turns x := by
      intro x hx
      refine hoff x ?_
      rintro rfl
      exact absurd (eq_free_of_mem_routeTrail hstep hx hnone) (by simp)
    obtain ⟨htrail, hroute⟩ := route_congr last hsame
    rw [(follow_succ_of_atLink hstep).2, (follow_succ_of_atLink (hroute.trans hstep)).2,
      (follow_succ_of_atLink (hroute.trans hstep)).1, ih.2, htrail]
    exact ⟨ih.1, rfl⟩

/-- A trail ends at a node that is neither a directory nor a link. -/
theorem eq_taken_of_mem_followTrail {turns : Turns} {last : LastLink} {links : Nat}
    {here : Location} {pieces : List Bytes} {place : Place}
    (h : follow turns last links here pieces = .ok place) {l : Location}
    (hl : l ∈ followTrail turns last links here pieces) (hstop : turns l = some .stop) :
    place = .taken l := by
  revert hl
  replace h := leads_of_follow h
  induction h with
  | arrived hstep =>
    rw [(follow_of_arrived hstep).2]
    intro hl
    exact Route.arrived.inj (eq_taken_of_mem_routeTrail hstep hl hstop)
  | link hstep honward ih =>
    rw [(follow_succ_of_atLink hstep).2, List.mem_append]
    rintro (hl | hl)
    · exact absurd (eq_taken_of_mem_routeTrail hstep hl hstop) (by simp)
    · exact ih hl

/-- Keeping the link in the last place only cuts the trail. -/
theorem followTrail_keep_subset {turns : Turns} {links : Nat} {here : Location}
    {pieces : List Bytes} {l : Location}
    (h : l ∈ followTrail turns .keep links here pieces) :
    l ∈ followTrail turns .follow links here pieces := by
  rcases route_keep_follow turns here pieces with hroute | ⟨x, target, hroute, -⟩
  · cases hstep : route turns .follow here pieces with
    | error e =>
      rw [hstep] at hroute
      rwa [(follow_of_error hroute).2, ← (follow_of_error hstep).2] at h
    | ok r =>
      rw [hstep] at hroute
      cases r with
      | arrived place => rwa [(follow_of_arrived hroute).2, ← (follow_of_arrived hstep).2] at h
      | atLink directory target rest =>
        cases links with
        | zero =>
          rwa [(follow_zero_of_atLink hroute).2, ← (follow_zero_of_atLink hstep).2] at h
        | succ links =>
          rw [(follow_succ_of_atLink hroute).2, List.mem_append] at h
          rw [(follow_succ_of_atLink hstep).2, List.mem_append]
          exact h.imp_right followTrail_keep_subset
  · rw [(follow_of_arrived hroute).2] at h
    exact mem_followTrail_of_mem_routeTrail h

/-- A path that ends at a node that is no link leads there however its last link is treated. -/
theorem follow_of_keep {turns : Turns} {links : Nat} {here : Location} {pieces : List Bytes}
    {l : Location} (h : follow turns .keep links here pieces = .ok (.taken l))
    (hlink : ∀ target, turns l ≠ some (.follow target)) :
    follow turns .follow links here pieces = .ok (.taken l) := by
  replace h := leads_of_follow h
  induction h with
  | @arrived links here pieces hstep =>
    rcases route_keep_follow turns here pieces with hroute | ⟨x, target, hroute, hturn⟩
    · exact (follow_of_arrived (hroute.symm.trans hstep)).1
    · rw [hstep] at hroute
      cases hroute
      exact absurd hturn (hlink target)
  | @link links here pieces _ _ _ hstep honward ih =>
    rcases route_keep_follow turns here pieces with hroute | ⟨x, target, hroute, hturn⟩
    · rw [(follow_succ_of_atLink (hroute.symm.trans hstep)).1]
      exact ih
    · rw [hstep] at hroute
      simp at hroute

/-- A path that leads to a node leads to one without following its last link as well. -/
theorem exists_follow_keep {turns : Turns} {links : Nat} {here : Location} {pieces : List Bytes}
    {l : Location} (h : follow turns .follow links here pieces = .ok (.taken l)) :
    ∃ x, follow turns .keep links here pieces = .ok (.taken x) := by
  replace h := leads_of_follow h
  induction h with
  | @arrived links here pieces hstep =>
    rcases route_keep_follow turns here pieces with hroute | ⟨x, target, hroute, -⟩
    · exact ⟨l, (follow_of_arrived (hroute.trans hstep)).1⟩
    · exact ⟨x, (follow_of_arrived hroute).1⟩
  | @link links here pieces _ _ _ hstep honward ih =>
    rcases route_keep_follow turns here pieces with hroute | ⟨x, target, hroute, -⟩
    · rw [(follow_succ_of_atLink (hroute.trans hstep)).1]
      exact ih
    · exact ⟨x, (follow_of_arrived hroute).1⟩

theorem turns_ne_none_of_route {turns : Turns} {last : LastLink} {here : Location}
    {pieces : List Bytes} {r : Route} (h : route turns last here pieces = .ok r) :
    turns here ≠ none := by
  intro hnone
  rw [route_of_none hnone] at h
  simp at h

theorem turns_ne_none_of_follow {turns : Turns} {last : LastLink} {links : Nat}
    {here : Location} {pieces : List Bytes} {place : Place}
    (h : follow turns last links here pieces = .ok place) : turns here ≠ none := by
  cases leads_of_follow h with
  | arrived step => exact turns_ne_none_of_route step
  | link step _ => exact turns_ne_none_of_route step

/-- Pieces are only followed from a directory. -/
theorem turns_eq_enter_of_route {turns : Turns} {last : LastLink} {here : Location}
    {piece : Bytes} {rest : List Bytes} {r : Route}
    (h : route turns last here (piece :: rest) = .ok r) : turns here = some .enter := by
  cases hturn : turns here with
  | none => simp [route, hturn] at h
  | some turn =>
    cases turn with
    | enter => rfl
    | _ => simp [route, hturn] at h

theorem turns_eq_enter_of_follow {turns : Turns} {last : LastLink} {links : Nat}
    {here : Location} {piece : Bytes} {rest : List Bytes} {place : Place}
    (h : follow turns last links here (piece :: rest) = .ok place) :
    turns here = some .enter := by
  cases leads_of_follow h with
  | arrived step => exact turns_eq_enter_of_route step
  | link step _ => exact turns_eq_enter_of_route step

theorem startOf_fst (here : Location) (text : Bytes) :
    (startOf here text).1 = [] ∨ (startOf here text).1 = here := by
  rw [startOf]
  split
  · exact Or.inl rfl
  · exact Or.inr rfl

/-- A link is come to from a directory. -/
theorem turns_eq_enter_of_atLink {turns : Turns} {last : LastLink} {here directory : Location}
    {pieces rest : List Bytes} {target : Bytes}
    (h : route turns last here pieces = .ok (.atLink directory target rest)) :
    turns directory = some .enter := by
  induction here, pieces using route.induct turns last with
  | case11 here piece rest hturn hskip hup hlong turn hfollow hchild ih =>
    cases turn <;> grind
  | _ => grind

/-- A way that ends at what it cannot enter ends there when that is taken away. -/
theorem route_of_emptied {turns turns' : Turns} {last : LastLink} {here : Location}
    {pieces : List Bytes} {l : Location}
    (h : route turns last here pieces = .ok (.arrived (.taken l))) (hstop : turns l = some .stop)
    (hhere : here ≠ l) (habove : ∀ x, turns x = some .enter → turns x.dropLast = some .enter)
    (hoff : ∀ x, x ≠ l → turns' x = turns x) (hnone : turns' l = none) :
    route turns' last here pieces = .ok (.arrived (.free l)) := by
  have hturn' := hoff here hhere
  induction here, pieces using route.induct turns last with
  | case5 here rest hturn hskip ih =>
    have hup : here.dropLast ≠ l := by
      rintro rfl
      simp [habove here hturn] at hstop
    simp only [route, hturn, if_neg hskip, if_pos] at h
    simp only [route, hturn', hturn, if_neg hskip, if_pos]
    exact ih h hup (hoff _ hup)
  | case11 here piece rest hturn hskip hup hlong turn hlink hchild ih =>
    have hstep : route turns last (here ++ [piece]) rest = .ok (.arrived (.taken l)) := by
      cases turn with
      | follow target => exact absurd rfl (hlink target)
      | _ => simpa only [route, hturn, if_neg hskip, if_neg hup, if_neg hlong, hchild] using h
    by_cases hdown : here ++ [piece] = l
    · subst hdown
      -- nothing can follow on what cannot be entered
      have hend : rest = [] := by
        cases rest with
        | nil => rfl
        | cons piece' rest' => simp [turns_eq_enter_of_route hstep] at hstop
      simp only [route, hturn', hturn, if_neg hskip, if_neg hup, if_neg hlong, hnone, if_pos hend]
    · have hchild' := (hoff _ hdown).trans hchild
      have hrest := ih hstep hdown (hoff _ hdown)
      cases turn with
      | follow target => exact absurd rfl (hlink target)
      | _ => simpa only [route, hturn', hturn, if_neg hskip, if_neg hup, if_neg hlong, hchild']
  | case12 here piece rest turn henter hturn =>
    cases turn <;> simp_all [route]
  | _ => grind

/-- When the file that a path leads to is gone, the path leads to its free place. -/
theorem follow_of_emptied {turns turns' : Turns} {last : LastLink} {links : Nat}
    {here : Location} {pieces : List Bytes} {l : Location}
    (h : follow turns last links here pieces = .ok (.taken l)) (hstop : turns l = some .stop)
    (hhere : here ≠ l) (hroot : l ≠ [])
    (habove : ∀ x, turns x = some .enter → turns x.dropLast = some .enter)
    (hoff : ∀ x, x ≠ l → turns' x = turns x) (hnone : turns' l = none) :
    follow turns' last links here pieces = .ok (.free l) := by
  replace h := leads_of_follow h
  induction h with
  | arrived hstep =>
    exact (follow_of_arrived (route_of_emptied hstep hstop hhere habove hoff hnone)).1
  | @link links here pieces directory target rest hstep honward ih =>
    -- nothing that cannot be entered is on the way to a link, so that way stays
    have hsame : ∀ x ∈ routeTrail turns here pieces, turns' x = turns x := by
      intro x hx
      refine hoff x ?_
      rintro rfl
      exact absurd (eq_taken_of_mem_routeTrail hstep hx hstop) (by simp)
    have hstart : (startOf directory target).1 ≠ l := by
      rcases startOf_fst directory target with heq | heq
      · exact heq ▸ hroot.symm
      · rintro rfl
        simp [heq, turns_eq_enter_of_atLink hstep] at hstop
    obtain ⟨-, hroute⟩ := route_congr last hsame
    rw [(follow_succ_of_atLink (hroute.trans hstep)).1]
    exact ih hstart

/-- Some turns lead no further than others: where they differ, there is nothing or an end. -/
def Within (turns' turns : Turns) : Prop :=
  ∀ l, turns' l = turns l ∨ turns' l = none ∨ turns' l = some .stop

theorem Within.enter {turns turns' : Turns} (h : Within turns' turns) {here : Location}
    (henter : turns' here = some .enter) : turns here = some .enter := by
  rcases h here with hsame | hnone | hstop <;> simp_all

theorem routeTrail_of_not_enter {turns : Turns} {here : Location}
    (h : turns here ≠ some .enter) (last : LastLink) (pieces : List Bytes) :
    routeTrail turns here pieces = [here] ∧ ∀ directory target rest,
      route turns last here pieces ≠ .ok (.atLink directory target rest) := by
  cases pieces with
  | nil => cases hturn : turns here <;> simp [route, routeTrail, hturn]
  | cons piece rest =>
    cases hturn : turns here with
    | none => simp [route, routeTrail, hturn]
    | some turn => cases turn <;> simp_all [route, routeTrail]

theorem child_mem_routeTrail {turns : Turns} {here : Location} {piece : Bytes}
    {rest : List Bytes} (hturn : turns here = some .enter)
    (hskip : ¬ (piece = [] ∨ piece = Path.dot)) (hup : piece ≠ Path.dotDot)
    (hlong : ¬ nameLimit < piece.length) :
    here ++ [piece] ∈ routeTrail turns here (piece :: rest) := by
  simp only [routeTrail, hturn, if_neg hskip, if_neg hup, if_neg hlong]
  refine List.mem_cons_of_mem _ ?_
  split
  · exact List.mem_singleton_self _
  · exact List.mem_singleton_self _
  · exact head_mem_routeTrail ..

/-- A way that goes no further passes nothing else, and a link that it comes to is the same. -/
theorem Within.route_within {turns turns' : Turns} (h : Within turns' turns) (last : LastLink)
    (here : Location) (pieces : List Bytes) :
    routeTrail turns' here pieces ⊆ routeTrail turns here pieces ∧
      ∀ directory target rest,
        route turns' last here pieces = .ok (.atLink directory target rest) →
        route turns last here pieces = .ok (.atLink directory target rest) := by
  induction pieces generalizing here with
  | nil =>
    refine ⟨by simp [routeTrail], fun directory target rest hlink => ?_⟩
    cases hturn : turns' here <;> simp [route, hturn] at hlink
  | cons piece rest ih =>
    by_cases henter : turns' here = some .enter
    · have henter' := h.enter henter
      by_cases hskip : piece = [] ∨ piece = Path.dot
      · simpa only [routeTrail, route, henter, henter', if_pos hskip] using
          ⟨List.cons_subset_cons _ (ih here).1, (ih here).2⟩
      by_cases hup : piece = Path.dotDot
      · simpa only [routeTrail, route, henter, henter', if_neg hskip, if_pos hup] using
          ⟨List.cons_subset_cons _ (ih here.dropLast).1, (ih here.dropLast).2⟩
      by_cases hlong : nameLimit < piece.length
      · simp [routeTrail, route, henter, henter', hskip, hup, hlong]
      have hpair : [here, here ++ [piece]] ⊆ routeTrail turns here (piece :: rest) := by
        intro l hl
        simp only [List.mem_cons, List.not_mem_nil, or_false] at hl
        rcases hl with rfl | rfl
        · exact head_mem_routeTrail ..
        · exact child_mem_routeTrail henter' hskip hup hlong
      cases hturn : turns' (here ++ [piece]) with
      | none =>
        have htrail : routeTrail turns' here (piece :: rest) = [here, here ++ [piece]] := by
          simp only [routeTrail, henter, if_neg hskip, if_neg hup, if_neg hlong, hturn]
        refine ⟨htrail ▸ hpair, fun directory target rest' hlink => ?_⟩
        simp only [route, henter, if_neg hskip, if_neg hup, if_neg hlong, hturn] at hlink
        split at hlink <;> simp at hlink
      | some turn =>
        cases turn with
        | enter =>
          simpa only [routeTrail, route, henter, henter', if_neg hskip, if_neg hup, if_neg hlong,
            hturn, h.enter hturn] using ⟨List.cons_subset_cons _ (ih _).1, (ih _).2⟩
        | follow target =>
          have hturn' : turns (here ++ [piece]) = some (.follow target) := by
            rcases h (here ++ [piece]) with hsame | hnone | hstop <;> simp_all
          simp only [routeTrail, route, henter, henter', if_neg hskip, if_neg hup, if_neg hlong,
            hturn, hturn']
          exact ⟨List.Subset.refl _, fun _ _ _ hlink => hlink⟩
        | stop =>
          have hstop : turns' (here ++ [piece]) ≠ some .enter := by simp [hturn]
          obtain ⟨hend, hlink⟩ := routeTrail_of_not_enter hstop last rest
          have htrail : routeTrail turns' here (piece :: rest) = [here, here ++ [piece]] := by
            simp only [routeTrail, henter, if_neg hskip, if_neg hup, if_neg hlong, hturn, hend]
          refine ⟨htrail ▸ hpair, fun directory target rest' hstep => ?_⟩
          simp only [route, henter, if_neg hskip, if_neg hup, if_neg hlong, hturn] at hstep
          exact absurd hstep (hlink _ _ _)
    · obtain ⟨htrail, hlink⟩ := routeTrail_of_not_enter henter last (piece :: rest)
      rw [htrail]
      exact ⟨by simp [head_mem_routeTrail], fun d t r hstep => absurd hstep (hlink d t r)⟩

/-- Where turns lead no further, a path sees no more. -/
theorem Within.followTrail_subset {turns turns' : Turns} (h : Within turns' turns)
    (last : LastLink) (links : Nat) (here : Location) (pieces : List Bytes) :
    followTrail turns' last links here pieces ⊆ followTrail turns last links here pieces := by
  obtain ⟨htrail, hlink⟩ := h.route_within last here pieces
  cases hstep : route turns' last here pieces with
  | error e =>
    rw [(follow_of_error hstep).2]
    exact fun x hx => mem_followTrail_of_mem_routeTrail (htrail hx)
  | ok r =>
    cases r with
    | arrived place =>
      rw [(follow_of_arrived hstep).2]
      exact fun x hx => mem_followTrail_of_mem_routeTrail (htrail hx)
    | atLink directory target rest =>
      have hstep' := hlink directory target rest hstep
      cases links with
      | zero =>
        rw [(follow_zero_of_atLink hstep).2, (follow_zero_of_atLink hstep').2]
        exact htrail
      | succ links =>
        rw [(follow_succ_of_atLink hstep).2, (follow_succ_of_atLink hstep').2]
        exact List.append_subset.mpr ⟨List.subset_append_of_subset_left _ htrail,
          List.subset_append_of_subset_right _ (h.followTrail_subset last links _ _)⟩

end Turns

end ReleasePublisher
