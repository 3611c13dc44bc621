/-!
How much alike two words are: the characters that they share near the same place, and how many of
these stand in another order.
-/
namespace ReleasePublisher.Similarity

abbrev Candidate := Char × Bool

/-- Gives the character `c` at place `i` the first free partner at most `reach` places away; `j` is
the place of the first candidate. -/
def claimPartner (reach i : Nat) (c : Char) : (j : Nat) → List Candidate → Option (List Candidate)
  | _, [] => none
  | j, (d, taken) :: rest =>
    if i + reach < j then none
    else if i ≤ j + reach && c == d && !taken then some ((d, true) :: rest)
    else (claimPartner reach i c (j + 1) rest).map ((d, taken) :: ·)

def matchFrom (reach : Nat) : (i : Nat) → List Char → List Candidate → List Char × List Candidate
  | _, [], candidates => ([], candidates)
  | i, c :: rest, candidates =>
    match claimPartner reach i c 0 candidates with
    | some candidates =>
      let (found, candidates) := matchFrom reach (i + 1) rest candidates
      (c :: found, candidates)
    | none => matchFrom reach (i + 1) rest candidates

def reach (a b : List Char) : Nat := max a.length b.length / 2 - 1

def shared (a b : List Char) : List Char × List Char :=
  let (found, candidates) := matchFrom (reach a b) 0 a (b.map (·, false))
  (found, (candidates.filter Prod.snd).map Prod.fst)

/-- The likeness of two words, from 0 to 1: the mean of the shares of each word that is shared and
of the share of that which stands in the same order. -/
def score (a b : List Char) : Float :=
  let (found, partners) := shared a b
  let count := found.length
  if a.isEmpty && b.isEmpty then 1
  else if count = 0 then 0
  else
    let swapped := ((found.zip partners).countP fun (c, d) => c != d) / 2
    (count.toFloat / a.length.toFloat + count.toFloat / b.length.toFloat +
      (count - swapped).toFloat / count.toFloat) / 3

/-- Puts a scored word among others in ascending order, after its equals. -/
def place (new : Float × String) : List (Float × String) → List (Float × String)
  | [] => [new]
  | old :: rest => if old.1 > new.1 then new :: old :: rest else old :: place new rest

/-- The word most like a given one, if it is like it at all; of equals the last. -/
def closest? (word : String) (words : List String) : Option String :=
  let scored := words.map fun w => (score word.toList w.toList, w)
  let ordered := (scored.filter (·.1 > 0.7)).foldl (fun ordered new => place new ordered) []
  ordered.getLast?.map Prod.snd

end ReleasePublisher.Similarity
