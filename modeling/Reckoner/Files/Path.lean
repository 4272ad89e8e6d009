/-! Paths. A path is where it starts and the names to follow; empty names and names of one point are
dropped when it is read, so paths that differ only in those are equal. A name of two points stays,
since it stands for the parent of wherever the names before it lead. -/

namespace Reckoner

/-- Where a path starts: at the current directory, at the root, or at the root written with exactly
two slashes, which is kept apart. -/
inductive Anchor where
  | here
  | root
  | doubleRoot
  deriving DecidableEq, Repr

def Anchor.text : Anchor → String
  | here => ""
  | root => "/"
  | doubleRoot => "//"

/-- A path: where it starts and the names to follow. -/
structure Path where
  anchor : Anchor
  names : List String
  deriving DecidableEq, Repr

namespace Path

def here : Path := ⟨.here, []⟩

/-- Where a text that names a path starts. -/
def anchorOf : List Char → Anchor
  | '/' :: '/' :: '/' :: _ => .root
  | '/' :: '/' :: _ => .doubleRoot
  | '/' :: _ => .root
  | _ => .here

/-- Whether a part of a text between slashes is a name to follow. -/
def isName (part : List Char) : Bool :=
  !part.isEmpty && part != ['.']

def ofString (s : String) : Path :=
  ⟨anchorOf s.toList, ((s.toList.splitOn '/').filter isName).map String.ofList⟩

/-- The text of a path; the current directory is a point. -/
def text (p : Path) : String :=
  if p = here then "." else p.anchor.text ++ "/".intercalate p.names

/-- The last name, empty when there is none. -/
def name (p : Path) : String :=
  p.names.getLastD ""

def parent (p : Path) : Path :=
  { p with names := p.names.dropLast }

def withName (p : Path) (name : String) : Path :=
  { p with names := p.names.dropLast ++ [name] }

/-- Whether the text of a path holds the null character, which no file name does. -/
def hasNull (p : Path) : Bool :=
  p.names.any (·.toList.contains (Char.ofNat 0))

def maxNameBytes : Nat := 255

def maxBytes : Nat := 4095

def isLongName (name : String) : Bool :=
  maxNameBytes < name.utf8ByteSize

def isLong (p : Path) : Bool :=
  maxBytes < p.text.utf8ByteSize

/-- The extensions of a name, each with its point. Points at the beginning open none, and a name that
ends in a point has none. -/
def extensionsOf (name : List Char) : List (List Char) :=
  if name.getLast? = some '.' then []
  else (((name.dropWhile (· = '.')).splitOn '.').drop 1).map ('.' :: ·)

def extensions (p : Path) : List String :=
  (extensionsOf p.name.toList).map String.ofList

/-- The text of a name from its last point on, empty when that point is the first or the last
character or there is none. -/
def lastExtensionOf (name : List Char) : List Char :=
  let tail := (name.reverse.takeWhile (· != '.')).reverse
  if tail.isEmpty || name.length ≤ tail.length + 1 then [] else '.' :: tail

def lastExtension (p : Path) : String :=
  String.ofList (lastExtensionOf p.name.toList)

end Path

end Reckoner
