import ReleasePublisher.Text.Utf8

/-!
JSON values. Strings and numbers keep the literal they were written with, so that a value nobody
asks for need not make sense: only reading a string decodes its escapes. A value is printed either
on one line or with two blanks of indentation per level.
-/
namespace ReleasePublisher

/-- A JSON value. The bytes of a string literal are those between its quotes. -/
inductive Json
  | null
  | bool (value : Bool)
  | number (literal : Bytes)
  | string (literal : Bytes)
  | array (items : List Json)
  | object (members : List (Bytes × Json))
  deriving Repr, Inhabited

namespace Json

def hexDigit (n : Nat) : Char :=
  if n < 10 then Char.ofNat (48 + n) else Char.ofNat (87 + n)

def escapeChar (c : Char) : List Char :=
  if c = '"' then ['\\', '"']
  else if c = '\\' then ['\\', '\\']
  else if c = '\n' then ['\\', 'n']
  else if c = '\r' then ['\\', 'r']
  else if c = '\t' then ['\\', 't']
  else if c = Char.ofNat 8 then ['\\', 'b']
  else if c = Char.ofNat 12 then ['\\', 'f']
  else if c.toNat < 32 then ['\\', 'u', '0', '0', hexDigit (c.toNat / 16), hexDigit (c.toNat % 16)]
  else [c]

def escape (cs : List Char) : List Char := cs.flatMap escapeChar

def ofText (s : String) : Json := .string (Bytes.ofString (String.ofList (escape s.toList)))

def ofNat (n : Nat) : Json := .number (Bytes.ofString (toString n))

def ofMembers (members : List (String × Json)) : Json :=
  .object (members.map fun (k, v) => (Bytes.ofString (String.ofList (escape k.toList)), v))

def quote : UInt8 := 34

def quoted (literal : Bytes) : Bytes := quote :: literal ++ [quote]

mutual
def compact : Json → Bytes
  | .null => Bytes.ofString "null"
  | .bool true => Bytes.ofString "true"
  | .bool false => Bytes.ofString "false"
  | .number literal => literal
  | .string literal => quoted literal
  | .array items => 91 :: compactItems items ++ [93]
  | .object members => 123 :: compactMembers members ++ [125]

def compactItems : List Json → Bytes
  | [] => []
  | [v] => compact v
  | v :: rest => compact v ++ 44 :: compactItems rest

def compactMembers : List (Bytes × Json) → Bytes
  | [] => []
  | [(k, v)] => quoted k ++ 58 :: compact v
  | (k, v) :: rest => quoted k ++ 58 :: compact v ++ 44 :: compactMembers rest
end

def lineBreak (level : Nat) : Bytes := 10 :: List.replicate (2 * level) 32

mutual
def pretty (level : Nat) : Json → Bytes
  | .array [] => [91, 93]
  | .array (v :: rest) => 91 :: prettyItems (level + 1) (v :: rest) ++ lineBreak level ++ [93]
  | .object [] => [123, 125]
  | .object (m :: rest) => 123 :: prettyMembers (level + 1) (m :: rest) ++ lineBreak level ++ [125]
  | .null => compact .null
  | .bool b => compact (.bool b)
  | .number literal => literal
  | .string literal => quoted literal

def prettyItems (level : Nat) : List Json → Bytes
  | [] => []
  | [v] => lineBreak level ++ pretty level v
  | v :: rest => lineBreak level ++ pretty level v ++ 44 :: prettyItems level rest

def prettyMembers (level : Nat) : List (Bytes × Json) → Bytes
  | [] => []
  | [(k, v)] => lineBreak level ++ quoted k ++ 58 :: 32 :: pretty level v
  | (k, v) :: rest =>
    lineBreak level ++ quoted k ++ 58 :: 32 :: pretty level v ++ 44 :: prettyMembers level rest
end

end Json

end ReleasePublisher
