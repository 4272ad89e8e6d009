/-! Blank characters and line breaks. Every line break is blank, and so are the separators of words of
all scripts. -/

namespace Reckoner.Text

def blankCodes : List Nat :=
  [ 0x09, 0x0A, 0x0B, 0x0C, 0x0D, 0x1C, 0x1D, 0x1E, 0x1F, 0x20, 0x85, 0xA0, 0x1680,
    0x2000, 0x2001, 0x2002, 0x2003, 0x2004, 0x2005, 0x2006, 0x2007, 0x2008, 0x2009, 0x200A,
    0x2028, 0x2029, 0x202F, 0x205F, 0x3000 ]

def lineBreakCodes : List Nat :=
  [ 0x0A, 0x0B, 0x0C, 0x0D, 0x1C, 0x1D, 0x1E, 0x85, 0x2028, 0x2029 ]

def isBlank (c : Char) : Bool :=
  blankCodes.contains c.toNat

def isLineBreak (c : Char) : Bool :=
  lineBreakCodes.contains c.toNat

def trim (cs : List Char) : List Char :=
  ((cs.dropWhile isBlank).reverse.dropWhile isBlank).reverse

/-- A text in which every carriage return, together with a line feed right behind it, has become a line
feed. -/
def withLineFeeds : List Char → List Char
  | [] => []
  | '\r' :: '\n' :: rest => '\n' :: withLineFeeds rest
  | c :: rest => (if c = '\r' then '\n' else c) :: withLineFeeds rest

/-- The lines of a text, without their breaks; a carriage return and a line feed are one break, and a
break at the end opens no further line. -/
def lines : List Char → List (List Char)
  | [] => []
  | '\r' :: '\n' :: rest => [] :: lines rest
  | c :: rest =>
    if isLineBreak c then [] :: lines rest
    else
      match lines rest with
      | [] => [[c]]
      | line :: more => (c :: line) :: more

/-- The lines of a text that hold more than blanks, trimmed. -/
def trimmedLines (cs : List Char) : List (List Char) :=
  ((lines cs).map trim).filter (!·.isEmpty)

theorem isBlank_of_isLineBreak {c : Char} (h : isLineBreak c = true) : isBlank c = true := by
  have sub : ∀ n ∈ lineBreakCodes, n ∈ blankCodes := by decide
  simpa [isBlank] using sub c.toNat (by simpa [isLineBreak] using h)

end Reckoner.Text
