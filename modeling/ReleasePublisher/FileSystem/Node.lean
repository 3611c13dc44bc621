import ReleasePublisher.FileSystem.Fault
import ReleasePublisher.Time.Timestamp

/-!
The contents of a file system as a tree. A node is found by its location, the names on the way to
it from the root, in which links play no part. `at?` is the view through which all operations are
described: what `modify` does at a location shows there and nowhere beside it.
-/
namespace ReleasePublisher

abbrev Location := List Bytes

/-- What an open file keeps hold of when its name goes away. -/
abbrev Serial := Nat

/-- The permission bits of a node and the time of its last change. A directory changes when one of
its own entries is added or taken away. -/
structure Attributes where
  mode : Nat
  modified : Timestamp
  deriving DecidableEq, Repr, Inhabited

inductive SpecialKind
  | pipe
  | socket
  deriving DecidableEq, Repr

inductive Node
  | file (serial : Serial) (attributes : Attributes) (content : Bytes)
  | directory (attributes : Attributes) (entries : List (Bytes × Node))
  | link (target : Bytes)
  | special (kind : SpecialKind) (attributes : Attributes)
  deriving Repr, Inhabited

namespace Node

def isFile : Node → Bool
  | .file .. => true
  | _ => false

def isDirectory : Node → Bool
  | .directory .. => true
  | _ => false

def entries : Node → List (Bytes × Node)
  | .directory _ entries => entries
  | _ => []

def modified? : Node → Option Timestamp
  | .file _ attributes _ => some attributes.modified
  | .directory attributes _ => some attributes.modified
  | .special _ attributes => some attributes.modified
  | .link _ => none

def touch (time : Timestamp) : Node → Node
  | .file serial attributes content => .file serial { attributes with modified := time } content
  | .directory attributes entries => .directory { attributes with modified := time } entries
  | .special kind attributes => .special kind { attributes with modified := time }
  | .link target => .link target

def child? (name : Bytes) (entries : List (Bytes × Node)) : Option Node := entries.lookup name

/-- Replaces the entry of a name in place, or adds it at the end. -/
def putEntry (name : Bytes) (node : Node) : List (Bytes × Node) → List (Bytes × Node)
  | [] => [(name, node)]
  | (n, old) :: rest => if n = name then (n, node) :: rest else (n, old) :: putEntry name node rest

def eraseEntry (name : Bytes) (entries : List (Bytes × Node)) : List (Bytes × Node) :=
  entries.filter (·.1 != name)

def at? : Location → Node → Option Node
  | [], node => some node
  | name :: rest, .directory _ entries => (child? name entries).bind (at? rest)
  | _ :: _, _ => none

def modify (change : Node → Node) : Location → Node → Node
  | [], node => change node
  | name :: rest, .directory attributes entries =>
    match child? name entries with
    | some child => .directory attributes (putEntry name (modify change rest child) entries)
    | none => .directory attributes entries
  | _ :: _, node => node

def addEntry (time : Timestamp) (name : Bytes) (new : Node) : Node → Node
  | .directory attributes entries =>
    .directory { attributes with modified := time } (putEntry name new entries)
  | node => node

def dropEntry (time : Timestamp) (name : Bytes) : Node → Node
  | .directory attributes entries =>
    .directory { attributes with modified := time } (eraseEntry name entries)
  | node => node

@[simp] theorem at?_nil (node : Node) : at? [] node = some node := by
  cases node <;> rfl

theorem child?_putEntry_self (name : Bytes) (node : Node) (entries : List (Bytes × Node)) :
    child? name (putEntry name node entries) = some node := by
  induction entries with
  | nil => simp [putEntry, child?]
  | cons e rest ih =>
    obtain ⟨n, old⟩ := e
    by_cases h : n = name
    · simp [putEntry, child?, h]
    · simp only [child?] at ih
      have : (name == n) = false := by simpa using Ne.symm h
      simp [putEntry, child?, h, List.lookup_cons, this, ih]

theorem child?_putEntry_of_ne {name other : Bytes} (h : other ≠ name) (node : Node)
    (entries : List (Bytes × Node)) :
    child? other (putEntry name node entries) = child? other entries := by
  induction entries with
  | nil =>
    have : (other == name) = false := by simpa using h
    simp [putEntry, child?, List.lookup_cons, this]
  | cons e rest ih =>
    obtain ⟨n, old⟩ := e
    simp only [child?] at ih
    by_cases hn : n = name
    · have : (other == n) = false := by simpa [hn] using h
      simp [putEntry, child?, hn, List.lookup_cons, hn ▸ this]
    · by_cases ho : other = n
      · simp [putEntry, child?, hn, ho]
      · have : (other == n) = false := by simpa using ho
        simp [putEntry, child?, hn, List.lookup_cons, this, ih]

theorem at?_modify_self (change : Node → Node) (location : Location) (node : Node) :
    at? location (modify change location node) = (at? location node).map change := by
  induction location generalizing node with
  | nil => simp [modify]
  | cons name rest ih =>
    cases node with
    | directory attributes entries =>
      simp only [modify, at?]
      cases h : child? name entries with
      | none => simp [at?, h]
      | some child => simp [at?, child?_putEntry_self, ih]
    | _ => rfl

end Node

end ReleasePublisher
