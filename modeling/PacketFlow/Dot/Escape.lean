/-!
Texts inside the quoted strings of the DOT language. A double quote ends a string, so it is written
behind a backslash, and so is the backslash itself. In the label of a record five more characters
are structure, and are written behind a backslash where they are meant as text.
-/
namespace PacketFlow.Dot

/-- Writes a backslash before every character of a class. -/
def escapeWhere (special : Char → Bool) (s : String) : String :=
  .ofList (s.toList.flatMap fun c => if special c then ['\\', c] else [c])

/-- Whether a character would end a string or begin an escape in it. -/
def isQuoteSpecial (c : Char) : Bool :=
  c == '"' || c == '\\'

/-- Whether a character is structure in the label of a record. -/
def isRecordStructure (c : Char) : Bool :=
  ['\x7b', '\x7d', '<', '>', '|'].contains c

/-- A text as it stands between the quotes of a string. -/
def escape (s : String) : String :=
  escapeWhere isQuoteSpecial s

/-- A text as it stands in a field of a record's label. If bars are kept, each bar of the text
begins a new field. -/
def escapeField (keepBars : Bool) (s : String) : String :=
  escapeWhere (fun c => !(keepBars && c == '|') && (isQuoteSpecial c || isRecordStructure c)) s

end PacketFlow.Dot
