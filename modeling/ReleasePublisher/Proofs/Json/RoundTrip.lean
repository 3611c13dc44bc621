import ReleasePublisher.Proofs.Json.Literals
import ReleasePublisher.Proofs.Json.Numbers

/-!
Objects of texts and natural numbers. They are read back from the form on one line and from the form on
several lines, which differ only in the blanks between their members.
-/
namespace ReleasePublisher

namespace Json

theorem skipBlanks_append {blanks : Bytes} (h : ∀ b ∈ blanks, isBlank b) (rest : Bytes) :
    skipBlanks (blanks ++ rest) = skipBlanks rest :=
  List.dropWhile_append_of_pos h

theorem skipBlanks_cons {b : UInt8} (h : isBlank b = false) (rest : Bytes) :
    skipBlanks (b :: rest) = b :: rest := by
  rw [skipBlanks, List.dropWhile_cons, h]
  rfl

theorem skipBlanks_skipBlanks (b : Bytes) : skipBlanks (skipBlanks b) = skipBlanks b := by
  induction b with
  | nil => rfl
  | cons c rest ih =>
    cases hc : isBlank c with
    | true =>
      have hskip : skipBlanks (c :: rest) = skipBlanks rest := by
        simp [skipBlanks, hc]
      rw [hskip, ih]
    | false => rw [skipBlanks_cons hc, skipBlanks_cons hc]

theorem stops_cons {b : UInt8} (h : isBlank b ∨ b = 44 ∨ b = 125) (rest : Bytes) :
    Stops (b :: rest) := by
  have hall : ∀ b : UInt8, isBlank b ∨ b = 44 ∨ b = 125 →
      isDigit b = false ∧ b ≠ 46 ∧ b ≠ 101 ∧ b ≠ 69 := by
    intro b hb
    simp only [isBlank, Bool.or_eq_true, beq_iff_eq] at hb
    rcases hb with (((rfl | rfl) | rfl) | rfl) | rfl | rfl <;> decide
  obtain ⟨hdigit, hpoint, hexponent⟩ := hall b h
  refine ⟨?_, ?_, ?_⟩
  · rintro _ _ ⟨⟩
    exact hdigit
  · rintro _ ⟨⟩
    exact hpoint rfl
  · rintro _ _ ⟨⟩
    exact hexponent

theorem stops_append {blanks : Bytes} (h : ∀ b ∈ blanks, isBlank b) {b : UInt8}
    (hb : b = 44 ∨ b = 125) (rest : Bytes) : Stops (blanks ++ b :: rest) := by
  cases blanks with
  | nil => exact stops_cons (Or.inr hb) rest
  | cons c blanks => exact stops_cons (Or.inl (h c List.mem_cons_self)) _

/-- Bytes that a value is read from, whatever comes before and after them. -/
def IsWritten (bytes : Bytes) (value : Json) : Prop :=
  ∀ fuel blanks rest, (∀ b ∈ blanks, isBlank b) → Stops rest →
    scanValue (fuel + 1) (blanks ++ (bytes ++ rest)) = .ok (value, rest)

theorem isWritten_text (s : String) : IsWritten (quoted (literalOf s)) (ofText s) := by
  intro fuel blanks rest hblanks hrest
  have hskip : skipBlanks (blanks ++ (quoted (literalOf s) ++ rest)) =
      34 :: (literalOf s ++ 34 :: rest) := by
    rw [skipBlanks_append hblanks, quoted, quote]
    simp only [List.cons_append, List.append_assoc, List.nil_append]
    exact skipBlanks_cons (by decide) _
  simp only [scanValue, hskip, scanString_literalOf]
  rfl

theorem isWritten_nat (n : Nat) : IsWritten (digitsOf n) (ofNat n) := by
  intro fuel blanks rest hblanks hrest
  obtain ⟨d, digits, heq, -⟩ := exists_digitsOf n
  have hd : isDigit d := isDigit_of_mem_digitsOf (heq ▸ List.mem_cons_self)
  have hblank : isBlank d = false := by
    rw [Bool.eq_false_iff]
    intro hblank
    simp only [isBlank, Bool.or_eq_true, beq_iff_eq] at hblank
    rcases hblank with ((rfl | rfl) | rfl) | rfl <;> exact absurd hd (by decide)
  have hother : d ≠ 110 ∧ d ≠ 116 ∧ d ≠ 102 ∧ d ≠ 34 ∧ d ≠ 91 ∧ d ≠ 123 := by
    refine ⟨?_, ?_, ?_, ?_, ?_, ?_⟩ <;> rintro rfl <;> exact absurd hd (by decide)
  have hskip : skipBlanks (blanks ++ (digitsOf n ++ rest)) = d :: (digits ++ rest) := by
    rw [skipBlanks_append hblanks, heq]
    exact skipBlanks_cons hblank _
  have hscan := scanNumber_digitsOf n hrest
  rw [heq, List.cons_append] at hscan
  rw [scanValue, hskip, ofNat_eq, heq]
  split
  case h_8 =>
    rw [hscan]
    rfl
  all_goals simp_all

/-- Members with `before` in front of each and `gap` between a name and its value. -/
def spread (before gap : Bytes) (print : Json → Bytes) : List (Bytes × Json) → Bytes
  | [] => []
  | [(k, v)] => before ++ quoted k ++ 58 :: gap ++ print v
  | (k, v) :: rest =>
    before ++ quoted k ++ 58 :: gap ++ print v ++ 44 :: spread before gap print rest

theorem spread_cons_cons (before gap : Bytes) (print : Json → Bytes) (k : Bytes) (v : Json)
    (m : Bytes × Json) (rest : List (Bytes × Json)) :
    spread before gap print ((k, v) :: m :: rest) =
      before ++ quoted k ++ 58 :: gap ++ print v ++ 44 :: spread before gap print (m :: rest) := by
  rw [spread]
  simp

theorem compactMembers_eq (members : List (Bytes × Json)) :
    compactMembers members = spread [] [] compact members := by
  induction members with
  | nil => rw [compactMembers, spread]
  | cons m rest ih =>
    obtain ⟨k, v⟩ := m
    cases rest with
    | nil => simp [compactMembers, spread]
    | cons m' rest => simp [compactMembers, spread, ih]

theorem prettyMembers_eq (level : Nat) (members : List (Bytes × Json)) :
    prettyMembers level members = spread (lineBreak level) [32] (pretty level) members := by
  induction members with
  | nil => rw [prettyMembers, spread]
  | cons m rest ih =>
    obtain ⟨k, v⟩ := m
    cases rest with
    | nil => simp [prettyMembers, spread]
    | cons m' rest => simp [prettyMembers, spread, ih]

theorem blank_lineBreak (level : Nat) : ∀ b ∈ lineBreak level, isBlank b := by
  intro b hb
  simp only [lineBreak, List.mem_cons, List.mem_replicate] at hb
  rcases hb with rfl | ⟨-, rfl⟩ <;> decide

def IsLiteral (k : Bytes) : Prop := ∀ rest, scanString [] (k ++ 34 :: rest) = .ok (k, rest)

theorem scanMembers_cons {before gap : Bytes} {print : Json → Bytes} {k : Bytes} {v : Json}
    (hbefore : ∀ b ∈ before, isBlank b) (hgap : ∀ b ∈ gap, isBlank b) (hk : IsLiteral k)
    (hv : IsWritten (print v) v) {tail : Bytes} (htail : Stops tail) (fuel : Nat) :
    scanMembers (fuel + 2) (before ++ quoted k ++ 58 :: gap ++ print v ++ tail) =
      match skipBlanks tail with
      | 125 :: rest => .ok ([(k, v)], rest)
      | 44 :: rest => (scanMembers (fuel + 1) rest).map fun (ms, rest) => ((k, v) :: ms, rest)
      | rest => unexpected rest := by
  have hskip : skipBlanks (before ++ quoted k ++ 58 :: gap ++ print v ++ tail) =
      34 :: (k ++ 34 :: (58 :: (gap ++ (print v ++ tail)))) := by
    simp only [List.append_assoc, quoted, quote, List.cons_append, List.nil_append]
    rw [skipBlanks_append hbefore]
    exact skipBlanks_cons (by decide) _
  have hcolon : skipBlanks (58 :: (gap ++ (print v ++ tail))) = 58 :: (gap ++ (print v ++ tail)) :=
    skipBlanks_cons (by decide) _
  have hname : scanString [] (k ++ 34 :: (58 :: (gap ++ (print v ++ tail)))) = .ok (k, _) := hk _
  have hvalue : scanValue (fuel + 1) (gap ++ (print v ++ tail)) = .ok (v, tail) :=
    hv fuel gap tail hgap htail
  rw [scanMembers, hskip]
  simp only [hname, hcolon]
  rewrite [hvalue]
  rfl

/-- Members are read however much space is around them. -/
theorem scanMembers_spread {before gap after : Bytes} {print : Json → Bytes}
    (hbefore : ∀ b ∈ before, isBlank b) (hgap : ∀ b ∈ gap, isBlank b)
    (hafter : ∀ b ∈ after, isBlank b) {members : List (Bytes × Json)} (hne : members ≠ [])
    (hmembers : ∀ m ∈ members, IsLiteral m.1 ∧ IsWritten (print m.2) m.2) {fuel : Nat}
    (hfuel : members.length < fuel) (rest : Bytes) :
    scanMembers fuel (spread before gap print members ++ (after ++ 125 :: rest)) =
      .ok (members, rest) := by
  induction members generalizing fuel with
  | nil => exact absurd rfl hne
  | cons m others ih =>
    obtain ⟨k, v⟩ := m
    obtain ⟨hk, hv⟩ := hmembers (k, v) List.mem_cons_self
    obtain ⟨fuel, rfl⟩ : ∃ n, fuel = n + 2 := ⟨fuel - 2, by simp at hfuel; omega⟩
    cases others with
    | nil =>
      have hclose : skipBlanks (after ++ 125 :: rest) = 125 :: rest := by
        rw [skipBlanks_append hafter]
        exact skipBlanks_cons (by decide) rest
      rw [spread, scanMembers_cons hbefore hgap hk hv (stops_append hafter (Or.inr rfl) rest),
        hclose]
      rfl
    | cons m' others =>
      have hfuel' : (m' :: others).length < fuel + 1 := by
        simp at hfuel ⊢
        omega
      have hnext := ih (by simp) (fun m hm => hmembers m (List.mem_cons_of_mem _ hm)) hfuel'
      have hcomma : ∀ more, skipBlanks (44 :: more) = 44 :: more :=
        fun more => skipBlanks_cons (by decide) more
      rw [spread_cons_cons, List.append_assoc, List.cons_append,
        scanMembers_cons hbefore hgap hk hv (stops_cons (Or.inr (Or.inl rfl)) _), hcomma]
      simp only [hnext, Except.map]

theorem scanMembers_skipBlanks (fuel : Nat) (b : Bytes) :
    scanMembers fuel (skipBlanks b) = scanMembers fuel b := by
  cases fuel with
  | zero => rw [scanMembers, scanMembers]
  | succ fuel => rw [scanMembers, scanMembers, skipBlanks_skipBlanks]

theorem exists_skipBlanks_spread {before : Bytes} (hbefore : ∀ b ∈ before, isBlank b) (gap : Bytes)
    (print : Json → Bytes) {members : List (Bytes × Json)} (hne : members ≠ []) (rest : Bytes) :
    ∃ more, skipBlanks (spread before gap print members ++ rest) = 34 :: more := by
  obtain ⟨k, more, hspread⟩ : ∃ k more, spread before gap print members =
      before ++ (quoted k ++ more) := by
    rcases members with _ | ⟨⟨k, v⟩, _ | ⟨m, others⟩⟩
    · exact absurd rfl hne
    · exact ⟨k, _, by rw [spread, List.append_assoc, List.append_assoc]⟩
    · exact ⟨k, _, by
        rw [spread_cons_cons, List.append_assoc, List.append_assoc, List.append_assoc]⟩
  rw [hspread, List.append_assoc, skipBlanks_append hbefore, quoted]
  simp only [List.cons_append]
  exact ⟨_, skipBlanks_cons (by decide) _⟩

theorem length_le_spread (before gap : Bytes) (print : Json → Bytes)
    (members : List (Bytes × Json)) :
    members.length ≤ (spread before gap print members).length := by
  induction members with
  | nil => exact Nat.le_refl _
  | cons m others ih =>
    obtain ⟨k, v⟩ := m
    cases others with
    | nil =>
      simp [spread]
      omega
    | cons m' others =>
      simp only [spread, List.length_append, List.length_cons] at ih ⊢
      omega

theorem isText_spread {before gap : Bytes} {print : Json → Bytes} (hbefore : IsText before)
    (hgap : IsText gap) {members : List (Bytes × Json)}
    (hmembers : ∀ m ∈ members, IsText m.1 ∧ IsText (print m.2)) :
    IsText (spread before gap print members) := by
  have hquote : IsText [34] := isText_singleton (by decide)
  have hcolon : IsText [58] := isText_singleton (by decide)
  have hcomma : IsText [44] := isText_singleton (by decide)
  have hmember : ∀ m ∈ members, IsText (before ++ quoted m.1 ++ 58 :: gap ++ print m.2) := by
    intro m hm
    have hquoted : IsText (quoted m.1) := (hquote.append (hmembers m hm).1).append hquote
    have hname := (hbefore.append hquoted).append (hcolon.append hgap)
    exact hname.append (hmembers m hm).2
  induction members with
  | nil => exact isText_of_lt (by simp [spread])
  | cons m others ih =>
    have hothers : IsText (spread before gap print others) :=
      ih (fun m' hm => hmembers m' (List.mem_cons_of_mem m hm))
        fun m' hm => hmember m' (List.mem_cons_of_mem m hm)
    have hm := hmember m List.mem_cons_self
    obtain ⟨k, v⟩ := m
    cases others with
    | nil => exact hm
    | cons m' others =>
      rw [spread_cons_cons]
      exact hm.append (hcomma.append hothers)

/-- An object is read back from its members. -/
theorem parse?_spread {before gap after : Bytes} {print : Json → Bytes}
    (hbefore : ∀ b ∈ before, isBlank b) (hgap : ∀ b ∈ gap, isBlank b)
    (hafter : ∀ b ∈ after, isBlank b) {members : List (Bytes × Json)} (hne : members ≠ [])
    (hmembers : ∀ m ∈ members, IsLiteral m.1 ∧ IsWritten (print m.2) m.2) :
    parse? (123 :: spread before gap print members ++ after ++ [125]) =
      some (.object members) := by
  have hopen : ∀ more, skipBlanks (123 :: more) = 123 :: more :=
    fun more => skipBlanks_cons (by decide) more
  have hlength := length_le_spread before gap print members
  have hscan : ∀ fuel, members.length < fuel →
      scanValue (fuel + 1) (123 :: spread before gap print members ++ after ++ [125]) =
        .ok (.object members, []) := by
    intro fuel hfuel
    have hspread := scanMembers_spread hbefore hgap hafter hne hmembers hfuel []
    obtain ⟨more, hmore⟩ := exists_skipBlanks_spread hbefore gap print hne (after ++ [125])
    rw [← scanMembers_skipBlanks, hmore] at hspread
    rw [List.cons_append, List.cons_append, List.append_assoc, scanValue, hopen]
    simp only [hmore]
    change (scanMembers fuel (34 :: more)).map _ = _
    rw [hspread]
    rfl
  have hfuel : members.length <
      2 * (123 :: spread before gap print members ++ after ++ [125]).length + 1 := by
    simp only [List.length_append, List.length_cons]
    omega
  rw [parse?, parse, hscan _ hfuel]
  rfl

inductive IsScalar : Json → Prop
  | text (s : String) : IsScalar (ofText s)
  | nat (n : Nat) : IsScalar (ofNat n)

theorem IsScalar.pretty_eq {v : Json} (h : IsScalar v) (level : Nat) :
    v.pretty level = v.compact := by
  cases h with
  | text s => rw [ofText_eq, pretty, compact]
  | nat n => rw [ofNat_eq, pretty, compact]

theorem IsScalar.isWritten {v : Json} (h : IsScalar v) : IsWritten v.compact v := by
  cases h with
  | text s =>
    rw [ofText_eq, compact]
    exact isWritten_text s
  | nat n =>
    rw [ofNat_eq, compact]
    exact isWritten_nat n

theorem IsScalar.isText {v : Json} (h : IsScalar v) : IsText v.compact := by
  have hquote : IsText [34] := isText_singleton (by decide)
  cases h with
  | text s =>
    rw [ofText_eq, compact]
    exact (hquote.append ⟨_, rfl⟩).append hquote
  | nat n =>
    rw [ofNat_eq, compact]
    exact ⟨_, rfl⟩

theorem ofMembers_eq (members : List (String × Json)) :
    ofMembers members = .object (members.map fun m => (literalOf m.1, m.2)) := rfl

theorem compact_ofMembers (members : List (String × Json)) :
    (ofMembers members).compact =
      123 :: spread [] [] compact (members.map fun m => (literalOf m.1, m.2)) ++ [] ++ [125] := by
  rw [ofMembers_eq, compact, compactMembers_eq, List.append_nil]

theorem pretty_ofMembers {members : List (String × Json)} (hne : members ≠ []) (level : Nat) :
    (ofMembers members).pretty level =
      123 :: spread (lineBreak (level + 1)) [32] (pretty (level + 1))
        (members.map fun m => (literalOf m.1, m.2)) ++ lineBreak level ++ [125] := by
  rw [ofMembers_eq]
  cases members with
  | nil => exact absurd rfl hne
  | cons m rest => rw [List.map_cons, pretty, prettyMembers_eq]

section Members

variable {members : List (String × Json)}

theorem isWritten_of_mem (hscalar : ∀ m ∈ members, IsScalar m.2) {print : Json → Bytes}
    (hprint : ∀ v, IsScalar v → print v = v.compact) :
    ∀ m ∈ members.map fun m => (literalOf m.1, m.2),
      IsLiteral m.1 ∧ IsWritten (print m.2) m.2 := by
  intro m hm
  obtain ⟨m', hm', rfl⟩ := List.mem_map.mp hm
  rw [hprint _ (hscalar m' hm')]
  exact ⟨scanString_literalOf m'.1, (hscalar m' hm').isWritten⟩

theorem isText_of_mem (hscalar : ∀ m ∈ members, IsScalar m.2) {print : Json → Bytes}
    (hprint : ∀ v, IsScalar v → print v = v.compact) :
    ∀ m ∈ members.map fun m => (literalOf m.1, m.2), IsText m.1 ∧ IsText (print m.2) := by
  intro m hm
  obtain ⟨m', hm', rfl⟩ := List.mem_map.mp hm
  rw [hprint _ (hscalar m' hm')]
  exact ⟨⟨_, rfl⟩, (hscalar m' hm').isText⟩

/-- An object of texts and numbers is read back from one line. -/
theorem parse?_compact (hne : members ≠ []) (hscalar : ∀ m ∈ members, IsScalar m.2) :
    parse? (ofMembers members).compact = some (ofMembers members) := by
  have hblank : ∀ b ∈ ([] : Bytes), isBlank b := by simp
  rw [compact_ofMembers]
  exact parse?_spread hblank hblank hblank (by simpa using hne)
    (isWritten_of_mem hscalar fun _ _ => rfl)

/-- An object of texts and numbers is read back from several lines. -/
theorem parse?_pretty (hne : members ≠ []) (hscalar : ∀ m ∈ members, IsScalar m.2) (level : Nat) :
    parse? ((ofMembers members).pretty level) = some (ofMembers members) := by
  have hgap : ∀ b ∈ ([32] : Bytes), isBlank b := List.forall_mem_singleton.mpr (by decide)
  rw [pretty_ofMembers hne]
  exact parse?_spread (blank_lineBreak (level + 1)) hgap (blank_lineBreak level)
    (by simpa using hne) (isWritten_of_mem hscalar fun _ hv => hv.pretty_eq (level + 1))

theorem isText_compact (hscalar : ∀ m ∈ members, IsScalar m.2) :
    IsText (ofMembers members).compact := by
  have hopen : IsText [123] := isText_singleton (by decide)
  have hclose : IsText [125] := isText_singleton (by decide)
  have hempty : IsText [] := isText_of_lt (by simp)
  have hmembers := isText_spread hempty hempty (isText_of_mem hscalar fun _ _ => rfl)
  rw [compact_ofMembers]
  exact ((hopen.append hmembers).append hempty).append hclose

theorem isText_pretty (hne : members ≠ []) (hscalar : ∀ m ∈ members, IsScalar m.2) (level : Nat) :
    IsText ((ofMembers members).pretty level) := by
  have hopen : IsText [123] := isText_singleton (by decide)
  have hclose : IsText [125] := isText_singleton (by decide)
  have hgap : IsText [32] := isText_singleton (by decide)
  have hbreak : ∀ level, IsText (lineBreak level) := by
    intro level
    refine isText_of_lt fun b hb => ?_
    simp only [lineBreak, List.mem_cons, List.mem_replicate] at hb
    rcases hb with rfl | ⟨-, rfl⟩ <;> decide
  have hmembers := isText_spread (hbreak (level + 1)) hgap
    (isText_of_mem hscalar fun _ hv => hv.pretty_eq (level + 1))
  rw [pretty_ofMembers hne]
  exact ((hopen.append hmembers).append (hbreak level)).append hclose

end Members

/-- The names of an object are read back. -/
theorem namedMembers?_map (members : List (String × Json)) :
    namedMembers? (members.map fun m => (literalOf m.1, m.2)) = some members := by
  induction members with
  | nil => rfl
  | cons m rest ih => simp [namedMembers?, literalText?_literalOf, ih]

end Json

end ReleasePublisher
