/-!
White space, as Unicode's `White_Space` property draws it, and the two things the readers do with
it: stripping it from the ends of a line and cutting a line into words.
-/
namespace PacketFlow.Text

/-- The code points with the property `White_Space`, in increasing order. -/
def blankCodes : List Nat :=
  [0x09, 0x0A, 0x0B, 0x0C, 0x0D, 0x20, 0x85, 0xA0, 0x1680,
   0x2000, 0x2001, 0x2002, 0x2003, 0x2004, 0x2005, 0x2006, 0x2007, 0x2008, 0x2009, 0x200A,
   0x2028, 0x2029, 0x202F, 0x205F, 0x3000]

/-- A white space character. No other character separates words. -/
def isBlank (c : Char) : Bool :=
  blankCodes.contains c.toNat

/-- The characters left after the white space at the start. -/
def trimStart (cs : List Char) : List Char :=
  cs.dropWhile isBlank

/-- The characters left after the white space at the end. -/
def trimEnd (cs : List Char) : List Char :=
  (trimStart cs.reverse).reverse

/-- A text without the white space at its two ends. -/
def trim (s : String) : String :=
  .ofList (trimEnd (trimStart s.toList))

/-- The longest runs of characters that are not white space, in order. -/
def wordLists (cs : List Char) : List (List Char) :=
  (cs.splitOnP isBlank).filter (· ≠ [])

/-- The words of a text: its longest runs without white space, in order. -/
def words (s : String) : List String :=
  (wordLists s.toList).map String.ofList

end PacketFlow.Text
