import Mathlib.Tactic.Ring
import ReleasePublisher.Proofs.Text.Base64
import ReleasePublisher.Proofs.Text.Encoding

/-!
Base 64 told by bits alone. The bits of all bytes stand in one row, the highest of each byte first;
the row is cut into sixes, zeros fill the last one, each six selects a symbol of the alphabet, and
equality signs fill the last four symbols. The groups of three bytes that are encoded one by one
give the same text.
-/
namespace ReleasePublisher.Base64

def alphabet : List Char :=
  "ABCDEFGHIJKLMNOPQRSTUVWXYZabcdefghijklmnopqrstuvwxyz0123456789+/".toList

def bits (b : UInt8) : List Bool := [7, 6, 5, 4, 3, 2, 1, 0].map b.toNat.testBit

def number (row : List Bool) : Nat := row.foldl (fun n bit => 2 * n + bit.toNat) 0

/-- Cuts a row into sixes, of which the last one is filled with zeros. -/
def sixes : List Bool → List (List Bool)
  | [] => []
  | a :: b :: c :: d :: e :: f :: rest => [a, b, c, d, e, f] :: sixes rest
  | short => [short ++ List.replicate (6 - short.length) false]

def character (six : List Bool) : Char := alphabet.getD (number six) '='

/-- Symbols with as many equality signs as make whole fours of them. -/
def padded (symbols : List Char) : List Char :=
  symbols ++ List.replicate ((4 - symbols.length % 4) % 4) '='

def characters (d : Bytes) : List Char := padded ((sixes (d.flatMap bits)).map character)

def text (d : Bytes) : String := String.ofList (characters d)

theorem foldl_number (row : List Bool) (n : Nat) :
    row.foldl (fun n bit => 2 * n + bit.toNat) n = n * 2 ^ row.length + number row := by
  induction row generalizing n with
  | nil => simp [number]
  | cons bit row ih =>
    rw [number, List.foldl_cons, List.foldl_cons, ih, ih, List.length_cons]
    ring

theorem number_append (front back : List Bool) :
    number (front ++ back) = number front * 2 ^ back.length + number back := by
  rw [number, List.foldl_append, foldl_number, ← number]

/-- The first bits of a byte are its quotient. -/
theorem number_take {k : Nat} (hk : k ≤ 8) (b : UInt8) :
    number ((bits b).take k) = b.toNat / 2 ^ (8 - k) := by
  revert b
  refine forall_byte ?_
  revert k
  decide +kernel

/-- The other bits of a byte are its remainder. -/
theorem number_drop {k : Nat} (hk : k ≤ 8) (b : UInt8) :
    number ((bits b).drop k) = b.toNat % 2 ^ (8 - k) := by
  revert b
  refine forall_byte ?_
  revert k
  decide +kernel

/-- The bits of three bytes are four sixes. -/
theorem sixes_group (a b c : UInt8) (rest : List Bool) :
    sixes (bits a ++ (bits b ++ (bits c ++ rest))) =
      (bits a).take 6 :: ((bits a).drop 6 ++ (bits b).take 4) ::
        ((bits b).drop 4 ++ (bits c).take 2) :: (bits c).drop 2 :: sixes rest := rfl

theorem number_high (a : UInt8) : number ((bits a).take 6) = a.toNat / 4 :=
  number_take (by decide) a

theorem number_middle (a b : UInt8) :
    number ((bits a).drop 6 ++ (bits b).take 4) = a.toNat % 4 * 16 + b.toNat / 16 := by
  rw [number_append, number_drop (by decide), number_take (by decide)]
  rfl

theorem number_low (b c : UInt8) :
    number ((bits b).drop 4 ++ (bits c).take 2) = b.toNat % 16 * 4 + c.toNat / 64 := by
  rw [number_append, number_drop (by decide), number_take (by decide)]
  rfl

theorem number_last (c : UInt8) : number ((bits c).drop 2) = c.toNat % 64 :=
  number_drop (by decide) c

/-- Zeros behind a row move it up. -/
theorem number_filled (row : List Bool) (k : Nat) :
    number (row ++ List.replicate k false) = number row * 2 ^ k := by
  have hzeros : number (List.replicate k false) = 0 := by
    induction k with
    | zero => rfl
    | succ k ih => rwa [number, List.replicate_succ, List.foldl_cons]
  rw [number_append, hzeros, List.length_replicate, Nat.add_zero]

/-- Every symbol is a character of one byte. -/
theorem utf8EncodeChar_alphabet {n : Nat} (h : n < 64) :
    String.utf8EncodeChar (alphabet.getD n '=') = [symbol n] := by
  revert n
  decide +kernel

theorem utf8EncodeChar_character {six : List Bool} {n : Nat} (h : number six = n) (hn : n < 64) :
    String.utf8EncodeChar (character six) = [symbol n] := by
  rw [character, h, utf8EncodeChar_alphabet hn]

theorem padded_four (p q r s : Char) (symbols : List Char) :
    padded (p :: q :: r :: s :: symbols) = p :: q :: r :: s :: padded symbols := by
  have hlength : (symbols.length + 1 + 1 + 1 + 1) % 4 = symbols.length % 4 := by omega
  simp only [padded, List.length_cons, hlength, List.cons_append]

theorem padded_three (p q r : Char) : padded [p, q, r] = [p, q, r, '='] := rfl

theorem padded_two (p q : Char) : padded [p, q] = [p, q, '=', '='] := rfl

theorem utf8EncodeChar_pad : String.utf8EncodeChar '=' = [pad] := by decide +kernel

/-- The symbols of the sixes are those that the groups of three bytes are written with. -/
theorem flatMap_characters (d : Bytes) :
    (characters d).flatMap String.utf8EncodeChar = encode d := by
  fun_induction encode d with
  | case1 => rfl
  | case2 a =>
    have hsixes : sixes ([a].flatMap bits) =
        [(bits a).take 6, (bits a).drop 6 ++ List.replicate 4 false] := rfl
    have hsecond : number ((bits a).drop 6 ++ List.replicate 4 false) = a.toNat % 4 * 16 := by
      rw [number_filled, number_drop (by decide)]
      rfl
    have hq : a.toNat % 4 * 16 < 64 := by omega
    rw [characters, hsixes, List.map_cons, List.map_singleton, padded_two]
    simp only [List.flatMap_cons, List.flatMap_nil, utf8EncodeChar_pad,
      utf8EncodeChar_character (number_high a) (high_lt a), utf8EncodeChar_character hsecond hq]
    rfl
  | case3 a b =>
    have hsixes : sixes ([a, b].flatMap bits) =
        [(bits a).take 6, (bits a).drop 6 ++ (bits b).take 4,
          (bits b).drop 4 ++ List.replicate 2 false] := rfl
    have hthird : number ((bits b).drop 4 ++ List.replicate 2 false) = b.toNat % 16 * 4 := by
      rw [number_filled, number_drop (by decide)]
      rfl
    have hr : b.toNat % 16 * 4 < 64 := by omega
    rw [characters, hsixes, List.map_cons, List.map_cons, List.map_singleton, padded_three]
    simp only [List.flatMap_cons, List.flatMap_nil, utf8EncodeChar_pad,
      utf8EncodeChar_character (number_high a) (high_lt a),
      utf8EncodeChar_character (number_middle a b) (middle_lt a b),
      utf8EncodeChar_character hthird hr]
    rfl
  | case4 a b c rest ih =>
    have hs : c.toNat % 64 < 64 := Nat.mod_lt _ (by decide)
    rw [characters, List.flatMap_cons, List.flatMap_cons, List.flatMap_cons, sixes_group]
    simp only [List.map_cons, padded_four, List.flatMap_cons,
      utf8EncodeChar_character (number_high a) (high_lt a),
      utf8EncodeChar_character (number_middle a b) (middle_lt a b),
      utf8EncodeChar_character (number_low b c) (low_lt b c),
      utf8EncodeChar_character (number_last c) hs]
    rw [← characters, ih]
    rfl

/-- The bytes of the standard text are the encoded bytes. -/
theorem ofString_text (d : Bytes) : Bytes.ofString (text d) = encode d := by
  rw [text, Bytes.ofString_ofList, flatMap_characters]

end ReleasePublisher.Base64
