import ReleasePublisher.Json.Basic

/-!
Reading JSON. The grammar is the strict one: no comments, no trailing commas, no leading zeros, and
nothing but blanks around the value. Escapes are checked for their shape only; whether they make a
text is decided when the string is asked for. Bytes that are no value may be the beginning of one:
what is merely cut off is told apart from what can never become a value.
-/
namespace ReleasePublisher.Json

def isBlank (b : UInt8) : Bool := b == 32 || b == 9 || b == 10 || b == 13

def isDigit (b : UInt8) : Bool := 48 ≤ b && b ≤ 57

def isHexDigit (b : UInt8) : Bool :=
  isDigit b || (65 ≤ b && b ≤ 70) || (97 ≤ b && b ≤ 102)

/-- The letters that may follow a backslash, the one that opens four hexadecimal digits apart. -/
def isShortEscape (b : UInt8) : Bool :=
  b == 34 || b == 92 || b == 47 || b == 98 || b == 102 || b == 110 || b == 114 || b == 116

def skipBlanks (b : Bytes) : Bytes := b.dropWhile isBlank

inductive Fault
  | cutOff
  | malformed
  deriving DecidableEq, Repr

abbrev Scan (α : Type) := Except Fault (α × Bytes)

/-- The fault where something else was expected: bytes that end there are merely cut off. -/
def unexpected {α : Type} : Bytes → Except Fault α
  | [] => .error .cutOff
  | _ :: _ => .error .malformed

/-- Reads up to the closing quote; `seen` holds the literal so far, backwards. -/
def scanString (seen : Bytes) : Bytes → Scan Bytes
  | [] => .error .cutOff
  | 34 :: rest => .ok (seen.reverse, rest)
  | 92 :: 117 :: a :: b :: c :: d :: rest =>
    if isHexDigit a && isHexDigit b && isHexDigit c && isHexDigit d then
      scanString (d :: c :: b :: a :: 117 :: 92 :: seen) rest
    else .error .malformed
  | 92 :: e :: rest =>
    if e == 117 then .error .cutOff
    else if isShortEscape e then scanString (e :: 92 :: seen) rest
    else .error .malformed
  | [92] => .error .cutOff
  | b :: rest => if b < 32 then .error .malformed else scanString (b :: seen) rest

def scanDigits (b : Bytes) : Scan Bytes :=
  match b.span isDigit with
  | ([], rest) => unexpected rest
  | (ds, rest) => .ok (ds, rest)

def scanWhole : Bytes → Scan Bytes
  | 48 :: rest =>
    match rest with
    | d :: _ => if isDigit d then .error .malformed else .ok ([48], rest)
    | [] => .ok ([48], [])
  | b => scanDigits b

def scanFraction : Bytes → Scan Bytes
  | 46 :: rest => (scanDigits rest).map fun (ds, rest) => (46 :: ds, rest)
  | b => .ok ([], b)

def scanExponent : Bytes → Scan Bytes
  | e :: rest =>
    if e == 101 || e == 69 then
      match rest with
      | s :: more =>
        if s == 43 || s == 45 then (scanDigits more).map fun (ds, rest) => (e :: s :: ds, rest)
        else (scanDigits rest).map fun (ds, rest) => (e :: ds, rest)
      | [] => .error .cutOff
    else .ok ([], e :: rest)
  | [] => .ok ([], [])

def scanUnsigned (b : Bytes) : Except Fault (Bytes × Bytes) := do
  let (whole, b) ← scanWhole b
  let (fraction, b) ← scanFraction b
  let (exponent, b) ← scanExponent b
  pure (whole ++ fraction ++ exponent, b)

def scanNumber : Bytes → Scan Bytes
  | 45 :: rest => (scanUnsigned rest).map fun (n, rest) => (45 :: n, rest)
  | b => scanUnsigned b

def scanWord (value : Json) : (word : Bytes) → Bytes → Scan Json
  | [], rest => .ok (value, rest)
  | _ :: _, [] => .error .cutOff
  | w :: word, b :: rest => if b = w then scanWord value word rest else .error .malformed

mutual
def scanValue : (fuel : Nat) → Bytes → Scan Json
  | 0, _ => .error .malformed
  | fuel + 1, b =>
    match skipBlanks b with
    | [] => .error .cutOff
    | 110 :: rest => scanWord .null (Bytes.ofString "ull") rest
    | 116 :: rest => scanWord (.bool true) (Bytes.ofString "rue") rest
    | 102 :: rest => scanWord (.bool false) (Bytes.ofString "alse") rest
    | 34 :: rest => (scanString [] rest).map fun (s, rest) => (.string s, rest)
    | 91 :: rest =>
      match skipBlanks rest with
      | 93 :: rest => .ok (.array [], rest)
      | rest => (scanItems fuel rest).map fun (vs, rest) => (.array vs, rest)
    | 123 :: rest =>
      match skipBlanks rest with
      | 125 :: rest => .ok (.object [], rest)
      | rest => (scanMembers fuel rest).map fun (ms, rest) => (.object ms, rest)
    | rest => (scanNumber rest).map fun (n, rest) => (.number n, rest)

def scanItems : (fuel : Nat) → Bytes → Scan (List Json)
  | 0, _ => .error .malformed
  | fuel + 1, b =>
    match scanValue fuel b with
    | .error fault => .error fault
    | .ok (v, rest) =>
      match skipBlanks rest with
      | 93 :: rest => .ok ([v], rest)
      | 44 :: rest => (scanItems fuel rest).map fun (vs, rest) => (v :: vs, rest)
      | rest => unexpected rest

def scanMembers : (fuel : Nat) → Bytes → Scan (List (Bytes × Json))
  | 0, _ => .error .malformed
  | fuel + 1, b =>
    match skipBlanks b with
    | 34 :: rest =>
      match scanString [] rest with
      | .error fault => .error fault
      | .ok (k, rest) =>
        match skipBlanks rest with
        | 58 :: rest =>
          match scanValue fuel rest with
          | .error fault => .error fault
          | .ok (v, rest) =>
            match skipBlanks rest with
            | 125 :: rest => .ok ([(k, v)], rest)
            | 44 :: rest => (scanMembers fuel rest).map fun (ms, rest) => ((k, v) :: ms, rest)
            | rest => unexpected rest
        | rest => unexpected rest
    | rest => unexpected rest
end

/-- Reads the whole of the bytes as one value. Each step consumes a byte or enters one level, so
the fuel never runs out first. -/
def parse (b : Bytes) : Except Fault Json :=
  match scanValue (2 * b.length + 2) b with
  | .ok (v, rest) => if (skipBlanks rest).isEmpty then .ok v else .error .malformed
  | .error fault => .error fault

def parse? (b : Bytes) : Option Json := (parse b).toOption

end ReleasePublisher.Json
