import ReleasePublisher.Bytes

/-!
Control sequences in text: what follows an escape character and tells a terminal how to show the
rest. `strip` leaves what a plain listing of the text shows; text without control characters is left
as it is.
-/
namespace ReleasePublisher

inductive ControlSequence
  | outside
  /-- Just after the escape character. -/
  | opened
  /-- After the escape character and characters that qualify the one to come. -/
  | qualified
  /-- Among the parameters of a function, which a letter ends. -/
  | parameters
  /-- In a command to the terminal, which a bell ends. -/
  | command
  /-- In a string that is never shown. -/
  | hidden
  /-- At the start of a string for a device, among its parameters, after characters that qualify the
  one to come, or in the string itself. -/
  | deviceStart
  | deviceParameters
  | deviceQualified
  | deviceString
  deriving DecidableEq, Repr

namespace ControlSequence

def escapeChar : Char := '\x1b'

def bell : Char := '\x07'

def cancels (c : Char) : Bool := c == '\x18' || c == '\x1a'

/-- The byte that ends a string. It is looked for byte by byte, inside longer characters too. -/
def stringEnd : UInt8 := 0x9C

def isASCII (c : Char) : Bool := c.toNat < 0x80

def qualifies (c : Char) : Bool := 0x20 ≤ c.toNat && c.toNat < 0x30

def afterPrintable (c : Char) : ControlSequence → ControlSequence
  | .outside => .outside
  | .opened =>
    if qualifies c then .qualified
    else if c = '[' then .parameters
    else if c = ']' then .command
    else if c = 'P' then .deviceStart
    else if c = 'X' ∨ c = '^' ∨ c = '_' then .hidden
    else .outside
  | .qualified => if qualifies c then .qualified else .outside
  | .parameters => if c.toNat < 0x40 then .parameters else .outside
  | .command => .command
  | .hidden => .hidden
  | .deviceStart =>
    if qualifies c then .deviceQualified
    else if c.toNat < 0x40 then .deviceParameters
    else .deviceString
  | .deviceParameters =>
    if qualifies c then .deviceQualified
    else if c.toNat < 0x3C then .deviceParameters
    else .deviceString
  | .deviceQualified => if qualifies c then .deviceQualified else .deviceString
  | .deviceString => .deviceString

def afterWide (c : Char) : ControlSequence → ControlSequence
  | .hidden => if holdsEnd then .outside else .hidden
  | .deviceString => if holdsEnd then .outside else .deviceString
  | place => place
where
  holdsEnd : Bool := (Bytes.ofString (String.singleton c)).contains stringEnd

def next (place : ControlSequence) (c : Char) : ControlSequence :=
  if c = escapeChar then .opened
  else if cancels c then .outside
  else if !isASCII c then afterWide c place
  else if c = bell ∧ place = .command then .outside
  else if c.toNat < 0x20 ∨ c.toNat = 0x7F then place
  else afterPrintable c place

/-- The control characters that are shown, since they only make space. -/
def makesSpace (c : Char) : Bool := c == '\t' || c == '\n' || c == '\x0c' || c == '\r'

def isShown (place : ControlSequence) (c : Char) : Bool :=
  match place with
  | .outside => makesSpace c || (0x20 ≤ c.toNat && c.toNat != 0x7F)
  | .opened => makesSpace c
  | .qualified => makesSpace c
  | .parameters => makesSpace c
  | _ => false

/-- Leaves out what is not shown. A space inside a sequence is shown, and so is what comes after it
up to the next character that can never be; the sequence goes on there. -/
def stripFrom (place : ControlSequence) (showing : Bool) : List Char → List Char
  | [] => []
  | c :: rest =>
    if (if showing then .outside else place).isShown c then
      c :: stripFrom (if isASCII c then place else .outside) true rest
    else stripFrom (place.next c) false rest

def strip (text : String) : String := String.ofList (stripFrom .outside false text.toList)

end ControlSequence

end ReleasePublisher
