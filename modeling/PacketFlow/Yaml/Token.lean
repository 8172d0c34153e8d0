import PacketFlow.Yaml.Scalar

/-!
The tokens of a YAML text. The structure of a block is drawn by indentation alone, so the tokens
that begin and end a block are found by comparing columns. A colon shows only afterwards that what
stands before it was the key of a mapping; therefore the places where a key may have begun are kept,
one for each flow collection that is open, until the colon comes or can no longer come.

Tags, anchors, aliases, block scalars and directives are not read.
-/
namespace PacketFlow.Yaml

/-- A token. -/
inductive Token where
  | scalar (text : String) (isPlain : Bool)
  | documentStart
  | documentEnd
  | blockSequenceStart
  | blockMappingStart
  | blockEnd
  | flowSequenceStart
  | flowSequenceEnd
  | flowMappingStart
  | flowMappingEnd
  | flowEntry
  | blockEntry
  | key
  | value
  deriving DecidableEq, Repr

/-- A place where a key may have begun: where it stands in the text and among the tokens, and
whether nothing else can stand there. -/
structure KeyPlace where
  line : Nat
  column : Nat
  offset : Nat
  token : Nat
  isRequired : Bool
  deriving DecidableEq, Repr

/-- A key stands on one line with its colon, and begins at most this many bytes before it. -/
def maxKeySize : Nat :=
  1024

/-- Whether a colon at that mark comes too late for the key. -/
def KeyPlace.isStale (k : KeyPlace) (m : Mark) : Bool :=
  decide (k.line < m.line) || decide (k.offset + maxKeySize < m.offset)

/-- How far the reading of tokens has come. -/
structure Lexer where
  rest : List Mark
  tokens : Array Token
  /-- Where a key may have begun inside the innermost open flow collection, or outside all. -/
  keyPlace : Option KeyPlace
  /-- The same for what is around that flow collection, from inside out. There are as many as there
  are open flow collections. -/
  outerPlaces : List (Option KeyPlace)
  /-- The columns of the open blocks, from inside out. -/
  indents : List Nat
  /-- Whether a key may begin here. -/
  allowsKey : Bool
  deriving DecidableEq, Repr

namespace Lexer

/-- The beginning of a text. -/
def start (ms : List Mark) : Lexer :=
  ⟨ms, #[], none, [], [], true⟩

/-- Whether a flow collection is open. -/
def isFlow (x : Lexer) : Bool :=
  !x.outerPlaces.isEmpty

/-- Passes over white space and comments, and a byte order mark at the start of a line, which takes
a column. The end of a line lets a key begin, except in a flow collection. Where a key may begin in
a block, a tab is not white space. -/
def skip (isFlow : Bool) : (allowsKey inComment : Bool) → List Mark → Bool × List Mark
  | allowsKey, _, [] => (allowsKey, [])
  | allowsKey, inComment, m :: rest =>
    if isBreak m.char then skip isFlow (allowsKey || !isFlow) false rest
    else if inComment then skip isFlow allowsKey true rest
    else if m.char == ' ' || (m.char == '\t' && (isFlow || !allowsKey)) ||
        (m.char == byteOrderMark && m.column == 0) then
      skip isFlow allowsKey false rest
    else if m.char == '#' then skip isFlow allowsKey true rest
    else (allowsKey, m :: rest)

/-- Passes over what stands before the next token. -/
def skipToToken (x : Lexer) : Lexer :=
  let (allowsKey, rest) := skip x.isFlow x.allowsKey false x.rest
  { x with allowsKey := allowsKey, rest := rest }

/-- Adds a token. -/
def emit (x : Lexer) (token : Token) : Lexer :=
  { x with tokens := x.tokens.push token }

/-- Adds a token before the one of that number. -/
def insert (x : Lexer) (position : Nat) (token : Token) : Lexer :=
  { x with tokens := x.tokens.insertIdxIfInBounds position token }

/-- Passes over so many characters. -/
def advance (x : Lexer) (count : Nat) : Lexer :=
  { x with rest := x.rest.drop count }

/-- Gives up the places for which a colon at that mark comes too late. A place where a key had to
stand cannot be given up. -/
def expire? (x : Lexer) (m : Mark) : Option Lexer := do
  let check (place : Option KeyPlace) : Option (Option KeyPlace) :=
    match place with
    | none => some none
    | some k => if k.isStale m then (if k.isRequired then none else some none) else some (some k)
  let keyPlace ← check x.keyPlace
  let outerPlaces ← x.outerPlaces.mapM check
  return { x with keyPlace := keyPlace, outerPlaces := outerPlaces }

/-- Gives up the innermost place, unless a key had to stand there. -/
def dropKeyPlace? (x : Lexer) : Option Lexer :=
  if x.keyPlace.any KeyPlace.isRequired then none else some { x with keyPlace := none }

/-- Notes that a key may begin at the mark, if it may. A key has to begin there if the mark stands
at the column of the innermost block. -/
def saveKeyPlace? (x : Lexer) (m : Mark) : Option Lexer :=
  if x.allowsKey then do
    let x ← x.dropKeyPlace?
    let isRequired := !x.isFlow && x.indents.head? == some m.column
    return { x with keyPlace := some ⟨m.line, m.column, m.offset, x.tokens.size, isRequired⟩ }
  else some x

/-- Ends the blocks that stand to the right of a column. Indentation means nothing in a flow
collection. -/
def closeBlocks (x : Lexer) (isInside : Nat → Bool) : Lexer :=
  if x.isFlow then x
  else { x with
    tokens := x.tokens ++ Array.replicate (x.indents.takeWhile isInside).length Token.blockEnd
    indents := x.indents.dropWhile isInside }

/-- Begins a block at a column that is to the right of all open blocks, with its first token at that
position. -/
def openBlock (x : Lexer) (column position : Nat) (token : Token) : Lexer :=
  if !x.isFlow && x.indents.head?.all (· < column) then
    { x.insert position token with indents := column :: x.indents }
  else x

/-- The end of the text. -/
def finish? (x : Lexer) : Option (List Token) := do
  let x ← (x.closeBlocks fun _ => true).dropKeyPlace?
  return x.tokens.toList

/-- Reads the start or the end of a document. -/
def readDocumentMark? (x : Lexer) (token : Token) : Option Lexer := do
  let x ← (x.closeBlocks fun _ => true).dropKeyPlace?
  return { x.emit token with allowsKey := false }.advance 3

/-- Reads an opening bracket, which may begin a key. -/
def readFlowStart? (x : Lexer) (m : Mark) (token : Token) : Option Lexer := do
  let x ← x.saveKeyPlace? m
  return { x.emit token with
    keyPlace := none, outerPlaces := x.keyPlace :: x.outerPlaces, allowsKey := true }.advance 1

/-- Reads a closing bracket. -/
def readFlowEnd? (x : Lexer) (token : Token) : Option Lexer := do
  let x ← x.dropKeyPlace?
  let x := match x.outerPlaces with
    | [] => x
    | place :: outer => { x with keyPlace := place, outerPlaces := outer }
  return { x.emit token with allowsKey := false }.advance 1

/-- Reads a comma. -/
def readFlowEntry? (x : Lexer) : Option Lexer := do
  let x ← x.dropKeyPlace?
  return { x.emit .flowEntry with allowsKey := true }.advance 1

/-- Reads the dash of a sequence. -/
def readBlockEntry? (x : Lexer) (m : Mark) : Option Lexer := do
  guard (x.isFlow || x.allowsKey)
  let x ← (x.openBlock m.column x.tokens.size .blockSequenceStart).dropKeyPlace?
  return { x.emit .blockEntry with allowsKey := true }.advance 1

/-- Reads the question mark before a key. -/
def readKey? (x : Lexer) (m : Mark) : Option Lexer := do
  guard (x.isFlow || x.allowsKey)
  let x ← (x.openBlock m.column x.tokens.size .blockMappingStart).dropKeyPlace?
  return { x.emit .key with allowsKey := !x.isFlow }.advance 1

/-- Reads the colon before a value. If a key may have begun before, it did. -/
def readValue? (x : Lexer) (m : Mark) : Option Lexer :=
  match x.keyPlace with
  | some k =>
    let x := (x.insert k.token .key).openBlock k.column k.token .blockMappingStart
    some ({ x.emit .value with keyPlace := none, allowsKey := false }.advance 1)
  | none => do
    guard (x.isFlow || x.allowsKey)
    let x := x.openBlock m.column x.tokens.size .blockMappingStart
    return { x.emit .value with allowsKey := !x.isFlow }.advance 1

/-- Reads a quoted scalar, which may be a key. -/
def readQuoted? (x : Lexer) (m : Mark)
    (scan : List Mark → Option (String × List Mark)) : Option Lexer := do
  let x ← x.saveKeyPlace? m
  let (text, rest) ← scan (x.rest.drop 1)
  return { x.emit (.scalar text false) with allowsKey := false, rest := rest }

/-- Reads a plain scalar, which may be a key. -/
def readPlain? (x : Lexer) (m : Mark) : Option Lexer := do
  let x ← x.saveKeyPlace? m
  let limit := (x.indents.head?.map (· + 1)).getD 0
  let scalar ← plain? x.isFlow limit "" .none x.rest
  return { x.emit (.scalar scalar.text true) with
    allowsKey := scalar.endsLine, rest := scalar.rest }

/-- The characters with which no plain scalar begins. -/
def isIndicator (c : Char) : Bool :=
  ['-', '?', ':', ',', '[', ']', '\x7b', '\x7d', '#', '&', '*', '!', '|', '>', '\'', '"', '%', '@',
    '\x60'].contains c

/-- Whether a plain scalar can begin with that mark, the others following it. A dash, and outside
flow collections a question mark or a colon, can begin one if no white space follows. -/
def beginsPlain (isFlow : Bool) (m : Mark) (rest : List Mark) : Bool :=
  !(isIndicator m.char || isBlank m.char) ||
    (m.char == '-' && !endsWord rest) ||
    (!isFlow && (m.char == '?' || m.char == ':') && !endsWord rest)

/-- Reads the token that begins with the mark, the others following it. -/
def readToken? (x : Lexer) (m : Mark) (rest : List Mark) : Option Lexer :=
  if m.column == 0 && m.char == '%' then none
  else if isDocumentMark '-' (m :: rest) then x.readDocumentMark? .documentStart
  else if isDocumentMark '.' (m :: rest) then x.readDocumentMark? .documentEnd
  else if m.char == '[' then x.readFlowStart? m .flowSequenceStart
  else if m.char == '\x7b' then x.readFlowStart? m .flowMappingStart
  else if m.char == ']' then x.readFlowEnd? .flowSequenceEnd
  else if m.char == '\x7d' then x.readFlowEnd? .flowMappingEnd
  else if m.char == ',' then x.readFlowEntry?
  else if m.char == '-' && endsWord rest then x.readBlockEntry? m
  else if m.char == '?' && (x.isFlow || endsWord rest) then x.readKey? m
  else if m.char == ':' && (x.isFlow || endsWord rest) then x.readValue? m
  else if m.char == '\'' then x.readQuoted? m (singleQuoted? "" .none)
  else if m.char == '"' then x.readQuoted? m (doubleQuoted? "" .none)
  else if beginsPlain x.isFlow m rest then x.readPlain? m
  else none

/-- Reads the next token, after the tokens that its column brings about. -/
def step? (x : Lexer) (m : Mark) (rest : List Mark) : Option Lexer := do
  let x ← x.expire? m
  (x.closeBlocks fun column => decide (m.column < column)).readToken? m rest

/-- Reads tokens to the end of the text. There is no answer if there are more tokens than fuel. -/
def run? : (fuel : Nat) → Lexer → Option (List Token)
  | 0, _ => none
  | fuel + 1, x =>
    let x := x.skipToToken
    match x.rest with
    | [] => x.finish?
    | m :: rest => (x.step? m rest).bind (run? fuel)

end Lexer

/-- The tokens of a text, if it has a reading. Every step of the reading takes a mark, so the fuel
is enough. -/
def tokens? (text : String) : Option (List Token) := do
  let ms ← marks? text
  (Lexer.start ms).run? (ms.length + 1)

end PacketFlow.Yaml
