import ReleasePublisher.Time.Date
import ReleasePublisher.Text.Blank

/-!
Points in time, to the nanosecond and in universal time. They are written as a date, `T`, a time of
day and an offset; reading is lenient about blanks, digits and the offset's form. A leap second is
the sixtieth of its minute.
-/
namespace ReleasePublisher

structure Timestamp where
  date : Date
  hour : Nat
  minute : Nat
  second : Nat
  nanosecond : Nat
  hour_lt : hour < 24 := by decide
  minute_lt : minute < 60 := by decide
  second_le : second ≤ 60 := by decide
  nanosecond_lt : nanosecond < 1000000000 := by decide
  deriving DecidableEq, Repr

namespace Timestamp

def sinceEpoch (t : Timestamp) : Int :=
  (((t.date.dayNumber * 24 + t.hour) * 60 + t.minute) * 60 + t.second) * 1000000000 + t.nanosecond

def epoch : Timestamp := ⟨Date.epoch, 0, 0, 0, 0, by decide, by decide, by decide, by decide⟩

instance : Inhabited Timestamp := ⟨epoch⟩

def ofEpoch (n : Int) : Timestamp :=
  let seconds := n.fdiv 1000000000
  let ofDay := (seconds % 86400).toNat
  have h : ofDay < 86400 := by omega
  { date := Date.ofDayNumber (seconds.fdiv 86400)
    hour := ofDay / 3600, minute := ofDay / 60 % 60, second := ofDay % 60
    nanosecond := (n % 1000000000).toNat
    hour_lt := by omega
    minute_lt := by omega
    second_le := by omega
    nanosecond_lt := by omega }

def since (later earlier : Timestamp) : Int := later.sinceEpoch - earlier.sinceEpoch

def padded (width n : Nat) : String :=
  let digits := toString n
  String.ofList (List.replicate (width - digits.length) '0') ++ digits

/-- Years outside 0 to 9999 carry a sign. -/
def yearText (year : Int) : String :=
  if 0 ≤ year ∧ year ≤ 9999 then padded 4 year.toNat
  else if year < 0 then "-" ++ padded 4 year.natAbs
  else "+" ++ padded 4 year.natAbs

/-- No, three, six or nine digits: the fewest that lose nothing. -/
def fractionText (nanosecond : Nat) : String :=
  if nanosecond = 0 then ""
  else if nanosecond % 1000000 = 0 then "." ++ padded 3 (nanosecond / 1000000)
  else if nanosecond % 1000 = 0 then "." ++ padded 6 (nanosecond / 1000)
  else "." ++ padded 9 nanosecond

def text (zone : String) (t : Timestamp) : String :=
  yearText t.date.year ++ "-" ++ padded 2 t.date.month ++ "-" ++ padded 2 t.date.day ++ "T" ++
    padded 2 t.hour ++ ":" ++ padded 2 t.minute ++ ":" ++ padded 2 t.second ++
    fractionText t.nanosecond ++ zone

def display (t : Timestamp) : String := t.text "+00:00"

def stored (t : Timestamp) : String := t.text "Z"

/-! Reading -/

def isDigit (c : Char) : Bool := '0' ≤ c && c ≤ '9'

def digitsValue (ds : List Char) : Nat := ds.foldl (fun n c => n * 10 + (c.toNat - 48)) 0

def digitsValue? (ds : List Char) : Option Nat :=
  ds.foldlM (fun n c =>
    let n := n * 10 + (c.toNat - 48)
    if n < Int64.size / 2 then some n else none) 0

def scanDigits (most : Nat) (cs : List Char) : Option (Nat × List Char) :=
  let ds := (cs.take most).takeWhile isDigit
  if ds.isEmpty then none else (digitsValue? ds).map (·, cs.drop ds.length)

def scanTwo (cs : List Char) : Option (Nat × List Char) := scanDigits 2 (Blank.trimFront cs)

/-- Up to four digits, or a sign and any number of digits. -/
def scanYear (cs : List Char) : Option (Int × List Char) :=
  match Blank.trimFront cs with
  | '-' :: rest => (scanDigits rest.length rest).map fun (n, rest) => (-(n : Int), rest)
  | '+' :: rest => (scanDigits rest.length rest).map fun (n, rest) => ((n : Int), rest)
  | rest => (scanDigits 4 rest).map fun (n, rest) => ((n : Int), rest)

def scanMark (mark : Char) (cs : List Char) : Option (List Char) :=
  match Blank.trimFront cs with
  | c :: rest => if c = mark then some rest else none
  | [] => none

/-- The nanoseconds of a fraction, of which nine digits count. -/
def scanFraction : List Char → Option (Nat × List Char)
  | '.' :: rest =>
    let ds := rest.takeWhile isDigit
    if ds.isEmpty then none
    else
      let kept := ds.take 9
      some (digitsValue (kept.rightpad 9 '0'), rest.drop ds.length)
  | cs => some (0, cs)

/-- The minutes of an offset after its sign: two digits, colons and blanks, two digits. -/
def scanOffsetBody : List Char → Option (Nat × List Char)
  | a :: b :: rest =>
    if isDigit a && isDigit b then
      match rest.dropWhile (fun c => c == ':' || Blank.isBlank c) with
      | c :: d :: rest =>
        if isDigit c && isDigit d && digitsValue [c, d] < 60 && digitsValue [a, b] < 24 then
          some (digitsValue [a, b] * 60 + digitsValue [c, d], rest)
        else none
      | _ => none
    else none
  | _ => none

def scanOffset (cs : List Char) : Option (Int × List Char) :=
  match cs with
  | 'Z' :: rest => some (0, rest)
  | 'z' :: rest => some (0, rest)
  | '+' :: rest => (scanOffsetBody rest).map fun (n, rest) => ((n : Int), rest)
  | '-' :: rest => (scanOffsetBody rest).map fun (n, rest) => (-(n : Int), rest)
  | '−' :: rest => (scanOffsetBody rest).map fun (n, rest) => (-(n : Int), rest)
  | u :: t :: c :: rest =>
    if [u, t, c].map Char.toLower = ['u', 't', 'c'] then some (0, rest) else none
  | _ => none

def scanSeparator : List Char → Option (List Char)
  | 't' :: rest => some rest
  | 'T' :: rest => some rest
  | ' ' :: rest => some rest
  | _ => none

/-- The same point in time `minutes` further west; the offset is less than a day. -/
def shift (t : Timestamp) (minutes : Int) : Timestamp :=
  let total : Int := t.hour * 60 + t.minute - minutes
  let date := if total < 0 then t.date.previous else if 1440 ≤ total then t.date.next else t.date
  let ofDay := (total % 1440).toNat
  have h : ofDay < 1440 := by omega
  { date, hour := ofDay / 60, minute := ofDay % 60, second := t.second, nanosecond := t.nanosecond
    hour_lt := by omega
    minute_lt := by omega
    second_le := t.second_le
    nanosecond_lt := t.nanosecond_lt }

def ofNumbers? (date : Date) (hour minute second nanosecond : Nat) : Option Timestamp :=
  if h : (hour < 24 ∧ minute < 60) ∧ second ≤ 60 ∧ nanosecond < 1000000000 then
    some ⟨date, hour, minute, second, nanosecond, h.1.1, h.1.2, h.2.1, h.2.2⟩
  else none

def parse? (s : String) : Option Timestamp := do
  let (year, cs) ← scanYear s.toList
  let cs ← scanMark '-' cs
  let (month, cs) ← scanTwo cs
  let cs ← scanMark '-' cs
  let (day, cs) ← scanTwo cs
  let cs ← scanSeparator cs
  let (hour, cs) ← scanTwo cs
  let cs ← scanMark ':' cs
  let (minute, cs) ← scanTwo cs
  let cs ← scanMark ':' cs
  let (second, cs) ← scanTwo cs
  let (nanosecond, cs) ← scanFraction cs
  let (offset, cs) ← scanOffset (Blank.trimFront cs)
  let date ← Date.ofNumbers? year month day
  let clock ← ofNumbers? date hour minute second nanosecond
  let t := clock.shift offset
  if cs.all Blank.isBlank && date.inRange && t.date.inRange then some t else none

end Timestamp

end ReleasePublisher
