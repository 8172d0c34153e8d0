/-!
The characters of a YAML text with their places. A line can end in several ways, which are made one
here; only the Unicode line and paragraph separators stay apart, because they are kept where other
line breaks are folded.
-/
namespace PacketFlow.Yaml

/-- The byte order mark. It may stand before the first token of any line. -/
def byteOrderMark : Char :=
  '\ufeff'

/-- A character that may occur in a YAML text: all but most control characters and the two
noncharacters at the end of the first plane. -/
def isAllowed (c : Char) : Bool :=
  let code := c.toNat
  c == '\t' || c == '\n' || c == '\r' || code == 0x85 ||
    (0x20 ≤ code && code ≤ 0x7E) || (0xA0 ≤ code && code ≤ 0xFFFD) || 0x10000 ≤ code

/-- A line break, once the line ends have been made one. -/
def isBreak (c : Char) : Bool :=
  c == '\n' || c == '\u2028' || c == '\u2029'

/-- A space or a tab. -/
def isBlank (c : Char) : Bool :=
  c == ' ' || c == '\t'

/-- The text with a line feed for each carriage return, each next-line character, and each carriage
return with its line feed. -/
def unifyBreaks : List Char → List Char
  | '\r' :: '\n' :: cs => '\n' :: unifyBreaks cs
  | '\r' :: cs => '\n' :: unifyBreaks cs
  | '\u0085' :: cs => '\n' :: unifyBreaks cs
  | c :: cs => c :: unifyBreaks cs
  | [] => []

/-- A character and the place where it stands, counted from zero. -/
structure Mark where
  char : Char
  line : Nat
  column : Nat
  /-- How many bytes the characters before it on its line take in UTF-8. -/
  offset : Nat
  deriving DecidableEq, Repr

/-- The marks of characters of which the first stands at that place. -/
def marksFrom : (line column offset : Nat) → List Char → List Mark
  | _, _, _, [] => []
  | line, column, offset, c :: cs =>
    ⟨c, line, column, offset⟩ ::
      if isBreak c then marksFrom (line + 1) 0 0 cs
      else marksFrom line (column + 1) (offset + c.utf8Size) cs

/-- The marks of a text. A text with a character that may not occur has none. -/
def marks? (text : String) : Option (List Mark) :=
  if text.toList.all isAllowed then some (marksFrom 0 0 0 (unifyBreaks text.toList)) else none

/-- Whether the first of these marks is a blank or a line break, or there is none. -/
def endsWord (ms : List Mark) : Bool :=
  ms.head?.all fun m => isBlank m.char || isBreak m.char

/-- Whether these marks begin with three times the same character at the start of a line, and
nothing is joined to it. Three dashes begin a document so, and three points end one. -/
def isDocumentMark (c : Char) : List Mark → Bool
  | a :: b :: d :: rest =>
    a.column == 0 && a.char == c && b.char == c && d.char == c && endsWord rest
  | _ => false

/-- Whether these marks begin with the start or the end of a document. -/
def isDocumentEdge (ms : List Mark) : Bool :=
  isDocumentMark '-' ms || isDocumentMark '.' ms

end PacketFlow.Yaml
