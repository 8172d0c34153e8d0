import PacketFlow.Yaml.Mark

/-!
The text of a scalar, quoted or plain. White space between two parts of a scalar is kept within a
line. Where lines end between them, white space around the line ends is dropped, a single line end
reads as a blank, and of several the first is dropped.
-/
namespace PacketFlow.Yaml

/-- White space met since the last other character of a scalar. -/
inductive Gap where
  /-- Blanks within a line; there may be none. -/
  | blanks (cs : List Char)
  /-- Line ends, with any white space around them. An escaped line end is not among them. -/
  | breaks (first : Option Char) (later : List Char)
  deriving DecidableEq, Repr

namespace Gap

def none : Gap :=
  blanks []

/-- Adds a blank or a line end. -/
def add : Gap → Char → Gap
  | blanks cs, c => if isBreak c then breaks (some c) [] else blanks (cs ++ [c])
  | breaks first later, c => if isBreak c then breaks first (later ++ [c]) else breaks first later

/-- Whether the gap holds the end of a line. -/
def hasBreak : Gap → Bool
  | blanks _ => false
  | breaks _ _ => true

/-- What the gap reads as. -/
def text : Gap → String
  | blanks cs => .ofList cs
  | breaks (some '\n') [] => " "
  | breaks (some '\n') later => .ofList later
  | breaks first later => .ofList (first.toList ++ later)

end Gap

/-- The characters that an escape of one letter stands for. -/
def escapedChar? (c : Char) : Option Char :=
  match c with
  | '0' => some '\x00'
  | 'a' => some '\x07'
  | 'b' => some '\x08'
  | 't' => some '\t'
  | '\t' => some '\t'
  | 'n' => some '\n'
  | 'v' => some '\x0b'
  | 'f' => some '\x0c'
  | 'r' => some '\r'
  | 'e' => some '\x1b'
  | ' ' => some ' '
  | '"' => some '"'
  | '/' => some '/'
  | '\\' => some '\\'
  | 'N' => some '\u0085'
  | '_' => some '\u00a0'
  | 'L' => some '\u2028'
  | 'P' => some '\u2029'
  | _ => none

/-- How many hexadecimal digits follow the letter of an escape by number. -/
def escapeLength? (c : Char) : Option Nat :=
  match c with
  | 'x' => some 2
  | 'u' => some 4
  | 'U' => some 8
  | _ => none

/-- The value of a hexadecimal digit. -/
def hexValue? (c : Char) : Option Nat :=
  if c.isDigit then some (c.toNat - '0'.toNat)
  else if 'a' ≤ c ∧ c ≤ 'f' then some (c.toNat - 'a'.toNat + 10)
  else if 'A' ≤ c ∧ c ≤ 'F' then some (c.toNat - 'A'.toNat + 10)
  else none

/-- The character with the number that so many digits give. -/
def numberedChar? (count : Nat) (ms : List Mark) : Option Char := do
  let digits := ms.take count
  guard (digits.length = count)
  let values ← digits.mapM fun m => hexValue? m.char
  let code := values.foldl (fun code value => 16 * code + value) 0
  guard code.isValidChar
  return Char.ofNat code

/-- The character that an escape stands for, and the number of characters by which it does, from
behind its backslash. -/
def escape? : List Mark → Option (Char × Nat)
  | [] => none
  | code :: rest =>
    match escapeLength? code.char with
    | some count => (numberedChar? count rest).map (·, count + 1)
    | none => (escapedChar? code.char).map (·, 1)

/-- The text of a single-quoted scalar and what follows it, from behind its opening quote. Within
the scalar a quote is written twice. -/
def singleQuoted? (text : String) (gap : Gap) : List Mark → Option (String × List Mark)
  | [] => none
  | m :: rest =>
    if isDocumentEdge (m :: rest) then none
    else if isBlank m.char || isBreak m.char then singleQuoted? text (gap.add m.char) rest
    else if m.char == '\'' then
      match rest with
      | [] => some (text ++ gap.text, [])
      | next :: later =>
        if next.char == '\'' then singleQuoted? ((text ++ gap.text).push '\'') .none later
        else some (text ++ gap.text, next :: later)
    else singleQuoted? ((text ++ gap.text).push m.char) .none rest

/-- The text of a double-quoted scalar and what follows it, from behind its opening quote. A
backslash begins an escape; before the end of a line it joins that line to the next. -/
def doubleQuoted? (text : String) (gap : Gap) : List Mark → Option (String × List Mark)
  | [] => none
  | m :: rest =>
    if isDocumentEdge (m :: rest) then none
    else if isBlank m.char || isBreak m.char then doubleQuoted? text (gap.add m.char) rest
    else if m.char == '"' then some (text ++ gap.text, rest)
    else if m.char == '\\' then
      if rest.head?.any fun next => isBreak next.char then
        doubleQuoted? (text ++ gap.text) (.breaks none []) rest.tail
      else
        match escape? rest with
        | some (c, count) => doubleQuoted? ((text ++ gap.text).push c) .none (rest.drop count)
        | none => none
    else doubleQuoted? ((text ++ gap.text).push m.char) .none rest
termination_by ms => ms.length
decreasing_by
  all_goals simp only [List.length_cons, List.length_tail, List.length_drop]; omega

/-- The brackets and the comma, which are structure in a flow collection. -/
def isFlowIndicator (c : Char) : Bool :=
  [',', '[', ']', '\x7b', '\x7d'].contains c

/-- A plain scalar and what follows it. -/
structure PlainScalar where
  text : String
  /-- Whether white space after the scalar, read along with it, goes over the end of a line. -/
  endsLine : Bool
  rest : List Mark
  deriving DecidableEq, Repr

/-- Whether a plain scalar ends before these marks, of which the first stands after white space:
before a comment, before the edge of a document, and outside flow collections before a column that
is not to the right of the block around the scalar. -/
def endsAfterGap (isFlow : Bool) (limit : Nat) (ms : List Mark) : Bool :=
  isDocumentEdge ms ||
    ms.head?.any fun m => m.char == '#' || (!isFlow && decide (m.column < limit))

/-- Reads a plain scalar on. It ends before a colon with white space behind it and, in a flow
collection, before structure. Tabs may not indent its further lines. -/
def plain? (isFlow : Bool) (limit : Nat) (text : String) (gap : Gap) :
    List Mark → Option PlainScalar
  | [] => some ⟨text, gap.hasBreak, []⟩
  | m :: rest =>
    if isBlank m.char || isBreak m.char then
      if gap.hasBreak && m.char == '\t' && decide (m.column < limit) then none
      else plain? isFlow limit text (gap.add m.char) rest
    else if gap != .none && endsAfterGap isFlow limit (m :: rest) then
      some ⟨text, gap.hasBreak, m :: rest⟩
    else if isFlow && m.char == ':' &&
        rest.head?.any (fun next => next.char == '?' || isFlowIndicator next.char) then
      none
    else if m.char == ':' && endsWord rest || isFlow && isFlowIndicator m.char then
      some ⟨text, gap.hasBreak, m :: rest⟩
    else plain? isFlow limit ((text ++ gap.text).push m.char) .none rest

end PacketFlow.Yaml
