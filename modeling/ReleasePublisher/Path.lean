import ReleasePublisher.Text.Utf8

/-!
Paths as texts. Two paths are the same when their components are: repeated separators and a `.`
after the first component do not count, while `..` is a component like any other, since only the
file system knows where it leads.
-/
namespace ReleasePublisher

structure Path where
  text : Bytes
  deriving DecidableEq, Repr, Inhabited

inductive Component
  | root
  | here
  | parent
  | named (name : Bytes)
  deriving DecidableEq, Repr

namespace Path

def ofString (s : String) : Path := ⟨Bytes.ofString s⟩

def display (p : Path) : String := Utf8.lossy p.text

instance : ToString Path := ⟨display⟩

def isAbsolute (p : Path) : Bool := p.text.head? == some Bytes.slash

def dot : Bytes := [46]

def dotDot : Bytes := [46, 46]

/-- The bytes before the first place where a component can be left out: a leading separator, or a
leading `.` that is a component of its own. -/
def headLength (p : Path) : Nat :=
  match p.text with
  | 47 :: _ => 1
  | [46] => 1
  | 46 :: 47 :: _ => 1
  | _ => 0

def headComponents (p : Path) : List Component :=
  if p.headLength = 0 then [] else if p.isAbsolute then [.root] else [.here]

def pieces (p : Path) : List Bytes := Bytes.split Bytes.slash (p.text.drop p.headLength)

def counts (piece : Bytes) : Bool := !piece.isEmpty && piece != dot

def componentOf (piece : Bytes) : Component :=
  if piece = dotDot then .parent else .named piece

def components (p : Path) : List Component :=
  p.headComponents ++ (p.pieces.filter counts).map componentOf

def same (p q : Path) : Bool := p.components == q.components

/-- `q` seen from `p`: an absolute `q` stands for itself. -/
def append (p q : Path) : Path :=
  if q.isAbsolute then q
  else if p.text.isEmpty || p.text.getLast? == some Bytes.slash then ⟨p.text ++ q.text⟩
  else ⟨p.text ++ Bytes.slash :: q.text⟩

instance : HDiv Path Path Path := ⟨append⟩

def withoutEndSlashes (p : Path) : Path :=
  ⟨p.text.take 1 ++ ((p.text.drop 1).reverse.dropWhile (· == Bytes.slash)).reverse⟩

def trimPieces (pieces : List Bytes) : List Bytes :=
  (pieces.reverse.dropWhile (!counts ·)).reverse

def parent? (p : Path) : Option Path :=
  match (trimPieces p.pieces).reverse with
  | _ :: before =>
    some ⟨p.text.take p.headLength ++ Bytes.join Bytes.slash (trimPieces before.reverse)⟩
  | [] => if p.headLength = 1 ∧ p.isAbsolute = false then some ⟨[]⟩ else none

def ancestorsUpTo : (fuel : Nat) → Path → List Path
  | 0, _ => []
  | fuel + 1, p =>
    match p.parent? with
    | some q => p :: ancestorsUpTo fuel q
    | none => [p]

def ancestors (p : Path) : List Path := ancestorsUpTo (p.components.length + 1) p

def skipPieces (pieces : List Bytes) : List Bytes := pieces.dropWhile (!counts ·)

def dropComponents : (base : List Component) → (pieces : List Bytes) → Option (List Bytes)
  | [], pieces => some pieces
  | c :: base, pieces =>
    match skipPieces pieces with
    | piece :: rest => if componentOf piece = c then dropComponents base rest else none
    | [] => none

/-- The rest of `p` below `base`: nothing when `p` does not start with the components of `base`. -/
def below? (p base : Path) : Option Path :=
  match base.components with
  | [] => some ⟨p.text.take p.headLength ++ Bytes.join Bytes.slash (trimPieces p.pieces)⟩
  | c :: rest =>
    let inner :=
      match p.headComponents with
      | h :: _ => if h = c then dropComponents rest p.pieces else none
      | [] => dropComponents (c :: rest) p.pieces
    inner.map fun pieces => ⟨Bytes.join Bytes.slash (skipPieces (trimPieces pieces))⟩

end Path

end ReleasePublisher
