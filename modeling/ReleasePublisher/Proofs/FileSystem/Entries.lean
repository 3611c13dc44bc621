import ReleasePublisher.Proofs.FileSystem.Places

/-!
Paths with one more piece. The place of an entry follows from the place of its directory, and the
other way round.
-/
namespace ReleasePublisher

namespace Turns

open FileSystem

def descend (turns : Turns) (name : Bytes) : Place → Except SystemError Place
  | .taken directory =>
    match turns directory with
    | some .enter =>
      match turns (directory ++ [name]) with
      | some _ => .ok (.taken (directory ++ [name]))
      | none => .ok (.free (directory ++ [name]))
    | some _ => .error .notADirectory
    | none => .error .notFound
  | _ => .error .notFound

def extend (turns : Turns) (name : Bytes) : Route → Except SystemError Route
  | .arrived place => (descend turns name place).map .arrived
  | .atLink directory target rest => .ok (.atLink directory target (rest ++ [name]))

structure IsName (piece : Bytes) : Prop where
  ne_nil : piece ≠ []
  ne_dot : piece ≠ Path.dot
  ne_dotDot : piece ≠ Path.dotDot
  length_le : piece.length ≤ nameLimit

theorem route_singleton {turns : Turns} {name : Bytes} (hname : IsName name) {here : Location}
    (hhere : turns here ≠ none) :
    route turns .keep here [name] = (descend turns name (.taken here)).map .arrived := by
  obtain ⟨hnil, hdot, hup, hlong⟩ := hname
  cases hturn : turns here with
  | none => exact absurd hturn hhere
  | some turn =>
    cases turn with
    | enter =>
      cases hchild : turns (here ++ [name]) with
      | none =>
        simp [route, descend, hturn, hchild, hnil, hdot, hup, Nat.not_lt.mpr hlong, Except.map]
      | some turn =>
        cases turn <;>
          simp [route, descend, hturn, hchild, hnil, hdot, hup, Nat.not_lt.mpr hlong, Except.map]
    | _ => simp [route, descend, hturn, Except.map]

/-- A last piece that is a name is taken from where all before it leads to. -/
theorem route_concat (turns : Turns) {name : Bytes} (hname : IsName name) (here : Location)
    (pieces : List Bytes) :
    route turns .keep here (pieces ++ [name]) =
      (route turns .follow here pieces).bind (extend turns name) := by
  induction here, pieces using route.induct turns .follow with
  | case1 here turn hturn =>
    rw [List.nil_append, route_singleton hname (by simp [hturn])]
    simp [route, hturn, Except.bind, extend]
  | case2 here hturn =>
    rw [List.nil_append, route_of_none hturn, route_of_none hturn]
    rfl
  | case3 here piece rest hturn =>
    rw [route_of_none hturn, route_of_none hturn]
    rfl
  | case4 here piece rest hturn hskip ih =>
    simp only [List.cons_append, route, hturn, if_pos hskip, ih]
  | case5 here rest hturn hskip ih =>
    simp only [List.cons_append, route, hturn, if_neg hskip, if_pos, ih]
  | case6 here piece rest hturn hskip hup hlong =>
    simp only [List.cons_append, route, hturn, if_neg hskip, if_neg hup, if_pos hlong]
    rfl
  | case7 here piece hturn hskip hup hlong hchild =>
    simp [route, hturn, hskip, hup, hlong, hchild, Except.bind, extend, descend, Except.map]
  | case8 here piece rest hturn hskip hup hlong hchild hrest =>
    simp [route, hturn, hskip, hup, hlong, hchild, hrest, Except.bind]
  | case9 here piece rest hturn hskip hup hlong target hchild hlast =>
    exact absurd hlast.2 (by simp)
  | case10 here piece rest hturn hskip hup hlong target hchild hlast =>
    simp [route, hturn, hskip, hup, hlong, hchild, Except.bind, extend]
  | case11 here piece rest hturn hskip hup hlong turn hfollow hchild ih =>
    cases turn with
    | follow target => exact absurd rfl (hfollow target)
    | _ =>
      simp only [List.cons_append, route, hturn, if_neg hskip, if_neg hup, if_neg hlong, hchild,
        ih]
  | case12 here piece rest turn henter hturn =>
    cases turn with
    | enter => exact absurd rfl (henter)
    | _ => simp [route, hturn, Except.bind]

theorem follow_concat (turns : Turns) {name : Bytes} (hname : IsName name) (links : Nat)
    (here : Location) (pieces : List Bytes) :
    follow turns .keep links here (pieces ++ [name]) =
      (follow turns .follow links here pieces).bind (descend turns name) := by
  have hroute := route_concat turns hname here pieces
  cases hstep : route turns .follow here pieces with
  | error e =>
    rw [hstep] at hroute
    rw [(follow_of_error hstep).1, (follow_of_error hroute).1]
    rfl
  | ok r =>
    rw [hstep] at hroute
    cases r with
    | arrived place =>
      rw [(follow_of_arrived hstep).1]
      simp only [Except.bind, extend] at hroute ⊢
      cases hdown : descend turns name place with
      | error e =>
        rw [hdown] at hroute
        exact (follow_of_error hroute).1
      | ok place' =>
        rw [hdown] at hroute
        exact (follow_of_arrived hroute).1
    | atLink directory target rest =>
      cases links with
      | zero =>
        rw [(follow_zero_of_atLink hstep).1, (follow_zero_of_atLink hroute).1]
        rfl
      | succ links =>
        rw [(follow_succ_of_atLink hstep).1, (follow_succ_of_atLink hroute).1,
          ← List.append_assoc]
        exact follow_concat turns hname links _ _

end Turns

/-- A path that another piece can be put after with a separator between them. -/
structure Path.IsOpen (path : Path) : Prop where
  ne_nil : path.text ≠ []
  getLast?_ne : path.text.getLast? ≠ some Bytes.slash

structure Path.IsEntry (path : Path) : Prop where
  isName : Turns.IsName path.text
  slash_notMem : Bytes.slash ∉ path.text

namespace Path

theorem IsEntry.isAbsolute_eq {name : Path} (hname : name.IsEntry) : name.isAbsolute = false := by
  rw [isAbsolute, beq_eq_false_iff_ne]
  intro hhead
  exact hname.slash_notMem (List.mem_of_mem_head? (by simp [hhead]))

theorem isAbsolute_append (p q : Path) : (p / q).isAbsolute = (q.isAbsolute || p.isAbsolute) := by
  show (append p q).isAbsolute = _
  rw [append]
  cases hq : q.isAbsolute with
  | true => simp [hq]
  | false =>
    simp only [isAbsolute] at hq ⊢
    rcases hp : p.text with _ | ⟨b, rest⟩
    · simpa using hq
    · simp only [List.isEmpty_cons, Bool.false_or, Bool.false_eq_true, if_false]
      split <;> simp

theorem exists_ancestors_eq_cons (p : Path) : ∃ above, p.ancestors = p :: above := by
  rw [ancestors, ancestorsUpTo]
  split
  · exact ⟨_, rfl⟩
  · exact ⟨[], rfl⟩

theorem withoutEndSlashes_of_isOpen {p : Path} (h : p.IsOpen) : p.withoutEndSlashes = p := by
  obtain ⟨hne, hlast⟩ := h
  obtain ⟨text⟩ := p
  cases text with
  | nil => exact absurd rfl hne
  | cons b rest =>
    rcases List.eq_nil_or_concat rest with rfl | ⟨front, last, rfl⟩
    · rfl
    · have hslash : (last == Bytes.slash) = false := by
        simpa [List.getLast?_cons] using hlast
      simp [withoutEndSlashes, hslash]

end Path

namespace FileSystem

open Turns

theorem text_div {path name : Path} (hopen : path.IsOpen) (hname : name.IsEntry) :
    (path / name).text = path.text ++ Bytes.slash :: name.text := by
  have hclosed : (path.text.isEmpty || path.text.getLast? == some Bytes.slash) = false := by
    simp [hopen.ne_nil, hopen.getLast?_ne]
  show (Path.append path name).text = _
  rw [Path.append, if_neg (by simp [hname.isAbsolute_eq]), if_neg (by simp [hclosed])]

theorem isAbsolute_div {path name : Path} (hname : name.IsEntry) :
    (path / name).isAbsolute = path.isAbsolute := by
  rw [Path.isAbsolute_append, hname.isAbsolute_eq, Bool.false_or]

theorem leaveRemoved_concat {name : Bytes} (hname : IsName name) (levels : Nat)
    (pieces : List Bytes) :
    leaveRemoved levels (pieces ++ [name]) =
      match leaveRemoved levels pieces with
      | .error e => .error e
      | .ok (0, rest) => .ok (0, rest ++ [name])
      | .ok (_ + 1, _) => .error .notFound := by
  induction levels, pieces using leaveRemoved.induct with
  | case1 pieces => simp [leaveRemoved]
  | case2 levels => simp [leaveRemoved, hname.ne_nil, hname.ne_dot, hname.ne_dotDot]
  | case3 levels piece rest hskip ih => simpa [leaveRemoved, hskip] using ih
  | case4 levels rest hskip ih => simpa [leaveRemoved, hskip] using ih
  | case5 levels piece rest hskip hup => simp [leaveRemoved, hskip, hup]

theorem entry_div {path name : Path} (hopen : path.IsOpen) (hname : name.IsEntry)
    (here : WorkingDirectory) :
    entry here (path / name) =
      match entry here path with
      | .error e => .error e
      | .ok (.inl _) => .error .notFound
      | .ok (.inr (start, pieces)) => .ok (.inr (start, pieces ++ [name.text])) := by
  have hpiece := Bytes.split_eq_singleton hname.slash_notMem
  rw [entry, entry, isAbsolute_div hname]
  by_cases habsolute : path.isAbsolute = true
  · rw [if_pos habsolute, if_pos habsolute]
    have hhead : path.text.head? = some Bytes.slash := by
      simpa [Path.isAbsolute] using habsolute
    cases htext : path.text with
    | nil => exact absurd htext hopen.ne_nil
    | cons b rest =>
      have hb : b = Bytes.slash := by simpa [htext] using hhead
      simp [text_div hopen hname, htext, startOf, hb, Bytes.split_append, hpiece]
  · rw [if_neg habsolute, if_neg habsolute, text_div hopen hname, Bytes.split_append, hpiece,
      leaveRemoved_concat hname.isName]
    rcases leaveRemoved here.removed (Bytes.split Bytes.slash path.text) with
      e | ⟨_ | levels, pieces⟩ <;> rfl

theorem pathFault?_of_div {path name : Path} (hopen : path.IsOpen) (hname : name.IsEntry)
    (h : pathFault? (path / name) = none) : pathFault? path = none := by
  simp only [pathFault?, text_div hopen hname] at h ⊢
  split at h
  · simp at h
  · split at h
    · simp at h
    · split at h
      · simp at h
      · next hzero hnil hlong =>
        rw [if_neg, if_neg hopen.ne_nil, if_neg]
        · simp only [List.length_append, List.length_cons] at hlong
          omega
        · intro hmem
          exact hzero (by simp_all)

/-- From a directory a name leads to its entry, or to where there is none. -/
theorem descend_of_enter {fs : FileSystem} {d : Location} (henter : fs.turns d = some .enter)
    (name : Bytes) :
    descend fs.turns name (.taken d) =
      .ok (if fs.face? (d ++ [name]) = none then .free (d ++ [name])
        else .taken (d ++ [name])) := by
  simp only [descend, henter]
  cases hchild : fs.turns (d ++ [name]) with
  | none => simp [turns_eq_none_iff.mp hchild]
  | some turn =>
    have hsome : fs.face? (d ++ [name]) ≠ none := by
      rw [Ne, ← turns_eq_none_iff, hchild]
      simp
    simp [hsome]

/-- In a directory, a name leads to the entry of that name or to its free place. -/
theorem place_div {fs : FileSystem} {path name : Path} (hopen : path.IsOpen)
    (hname : name.IsEntry) (hfault : pathFault? (path / name) = none) {d : Location}
    (hplace : fs.place .follow path = .ok (.taken d)) (hturn : fs.turns d = some .enter) :
    fs.place .keep (path / name) =
      .ok (if fs.face? (d ++ [name.text]) = none then .free (d ++ [name.text])
        else .taken (d ++ [name.text])) := by
  obtain ⟨start, pieces, hentry, hfollow, -⟩ := follow_of_place hplace (by simp)
  have hentry' := entry_div hopen hname fs.workingDirectory
  rw [hentry] at hentry'
  refine place_of_follow hfault hentry' ?_
  rw [follow_concat fs.turns hname.isName, hfollow]
  exact descend_of_enter hturn name.text

/-- Where a name leads, the path before it leads to the directory of it. -/
theorem place_of_place_div {fs : FileSystem} {path name : Path} (hopen : path.IsOpen)
    (hname : name.IsEntry) {l : Location}
    (h : fs.place .keep (path / name) = .ok (.taken l) ∨
      fs.place .keep (path / name) = .ok (.free l)) :
    ∃ d, l = d ++ [name.text] ∧ fs.place .follow path = .ok (.taken d) ∧
      fs.turns d = some .enter := by
  obtain ⟨place, hplace, hl, hne⟩ : ∃ place, fs.place .keep (path / name) = .ok place ∧
      (place = .taken l ∨ place = .free l) ∧ ∀ here, place ≠ .removed here := by
    rcases h with h | h
    · exact ⟨_, h, Or.inl rfl, by simp⟩
    · exact ⟨_, h, Or.inr rfl, by simp⟩
  have hfault := pathFault?_of_div hopen hname (pathFault?_of_place hplace)
  obtain ⟨start, pieces, hentry, hfollow, -⟩ := follow_of_place hplace hne
  rw [entry_div hopen hname] at hentry
  rcases hstart : entry fs.workingDirectory path with e | here | ⟨start', pieces'⟩
  · simp [hstart] at hentry
  · simp [hstart] at hentry
  · simp only [hstart, Except.ok.injEq, Sum.inr.injEq, Prod.mk.injEq] at hentry
    obtain ⟨rfl, rfl⟩ := hentry
    rw [follow_concat fs.turns hname.isName] at hfollow
    cases hdir : follow fs.turns .follow linkLimit start' pieces' with
    | error e => simp [hdir, Except.bind] at hfollow
    | ok place' =>
      simp only [hdir, Except.bind] at hfollow
      cases place' with
      | taken d =>
        refine ⟨d, ?_, place_of_follow hfault hstart hdir, ?_⟩
        · grind [descend]
        · grind [descend]
      | _ => simp [descend] at hfollow

theorem split_append_entry {name : Path} (hname : name.IsEntry) {front : Bytes}
    (hfront : front = [] ∨ ∃ before, front = before ++ [Bytes.slash]) :
    ∃ pieces, Bytes.split Bytes.slash (front ++ name.text) = pieces ++ [name.text] := by
  have hpiece := Bytes.split_eq_singleton hname.slash_notMem
  rcases hfront with rfl | ⟨before, rfl⟩
  · exact ⟨[], hpiece⟩
  · refine ⟨Bytes.split Bytes.slash before, ?_⟩
    rw [List.append_assoc, List.singleton_append, Bytes.split_append, hpiece]

theorem pieces_of_entry {path name : Path} (hname : name.IsEntry) {here : WorkingDirectory}
    {start : Location} {pieces : List Bytes}
    (h : entry here (path / name) = .ok (.inr (start, pieces))) :
    ∃ front, pieces = front ++ [name.text] := by
  have htext : ∃ front, (path / name).text = front ++ name.text ∧
      (front = [] ∨ ∃ before, front = before ++ [Bytes.slash]) := by
    show ∃ front, (Path.append path name).text = _ ∧ _
    rw [Path.append, if_neg (by simp [hname.isAbsolute_eq])]
    split
    · next hclosed =>
      refine ⟨path.text, rfl, ?_⟩
      simpa [List.getLast?_eq_some_iff] using hclosed
    · exact ⟨path.text ++ [Bytes.slash], by simp, Or.inr ⟨_, rfl⟩⟩
  obtain ⟨front, htext, hfront⟩ := htext
  rw [entry, htext] at h
  split at h
  · next habsolute =>
    -- an absolute path has its first separator before the name
    rw [Path.isAbsolute, htext, beq_iff_eq] at habsolute
    have hrest : ∃ front', (front ++ name.text).drop 1 = front' ++ name.text ∧
        (front' = [] ∨ ∃ before, front' = before ++ [Bytes.slash]) := by
      rcases hfront with rfl | ⟨before, rfl⟩
      · exact absurd (List.mem_of_mem_head? habsolute) hname.slash_notMem
      · cases before with
        | nil => exact ⟨[], rfl, Or.inl rfl⟩
        | cons b before => exact ⟨before ++ [Bytes.slash], rfl, Or.inr ⟨before, rfl⟩⟩
    obtain ⟨front', hdrop, hfront'⟩ := hrest
    rw [startOf, if_pos habsolute, hdrop] at h
    obtain ⟨pieces', hpieces⟩ := split_append_entry hname hfront'
    rw [hpieces] at h
    cases h
    exact ⟨pieces', rfl⟩
  · obtain ⟨pieces', hpieces⟩ := split_append_entry hname hfront
    rw [hpieces, leaveRemoved_concat hname.isName] at h
    generalize leaveRemoved here.removed pieces' = left at h
    rcases left with e | ⟨_ | levels, rest⟩
    · simp at h
    · cases h
      exact ⟨rest, rfl⟩
    · simp at h

/-- What a path with an entry at its end leads to has that name. -/
theorem exists_eq_concat_of_place {fs : FileSystem} {path name : Path} (hname : name.IsEntry)
    {l : Location} (h : fs.place .keep (path / name) = .ok (.taken l)) :
    ∃ d, l = d ++ [name.text] := by
  obtain ⟨start, pieces, hentry, hfollow, -⟩ := follow_of_place h (by simp)
  obtain ⟨front, rfl⟩ := pieces_of_entry hname hentry
  rw [follow_concat _ hname.isName] at hfollow
  cases hdirectory : follow fs.turns .follow linkLimit start front with
  | error e => simp [hdirectory, Except.bind] at hfollow
  | ok place =>
    rw [hdirectory] at hfollow
    simp only [Except.bind, descend] at hfollow
    grind

/-- A path to an entry that starts from the working directory starts in a directory. -/
theorem turns_here_of_place_div {fs : FileSystem} {path name : Path} (hopen : path.IsOpen)
    (hname : name.IsEntry) {place : Place} (h : fs.place .keep (path / name) = .ok place)
    (hne : ∀ here, place ≠ .removed here) (hrelative : (path / name).isAbsolute = false) :
    fs.turns fs.workingDirectory.location = some .enter := by
  obtain ⟨start, pieces, hentry, hfollow, -⟩ := follow_of_place h hne
  have hstart : start = fs.workingDirectory.location := by
    rw [entry, if_neg (by simp [hrelative])] at hentry
    split at hentry <;> simp_all
  rw [entry_div hopen hname] at hentry
  rcases hbegin : entry fs.workingDirectory path with e | here | ⟨start', pieces'⟩
  · simp [hbegin] at hentry
  · simp [hbegin] at hentry
  · simp only [hbegin, Except.ok.injEq, Sum.inr.injEq, Prod.mk.injEq] at hentry
    obtain ⟨rfl, rfl⟩ := hentry
    rw [← hstart]
    cases pieces' with
    | nil => exact turns_eq_enter_of_follow hfollow
    | cons piece rest => exact turns_eq_enter_of_follow hfollow

end FileSystem

end ReleasePublisher
