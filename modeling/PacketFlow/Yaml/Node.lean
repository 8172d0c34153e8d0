import PacketFlow.Yaml.Token

/-!
The one document of a YAML text as a tree of scalars, sequences and mappings. What is left out,
such as a value after its colon, is an empty plain scalar.
-/
namespace PacketFlow.Yaml

/-- A node of a document. -/
inductive Node where
  | scalar (text : String) (isPlain : Bool)
  | sequence (items : List Node)
  | mapping (members : List (Node × Node))

namespace Node

/-- What stands where nothing is written. -/
def nothing : Node :=
  scalar "" true

/-- Whether the next token is one of these. -/
def nextIsIn (enders tokens : List Token) : Bool :=
  tokens.head?.any enders.contains

/-- The tokens of an item of a flow collection: all, if it is the first, or else those after the
comma that has to stand before it. -/
def afterComma (isFirst : Bool) (tokens : List Token) : Option (List Token) :=
  match isFirst, tokens with
  | true, tokens => some tokens
  | false, .flowEntry :: rest => some rest
  | false, _ => none

mutual

/-- Reads a node, and gives it with the tokens left over. Blocks are found only outside flow
collections; `mayLackIndent` says that a sequence may stand at the column of the mapping around
it. -/
def read? : (fuel : Nat) → (isBlock mayLackIndent : Bool) → List Token → Option (Node × List Token)
  | 0, _, _, _ => none
  | fuel + 1, isBlock, mayLackIndent, tokens =>
    match tokens with
    | .scalar text isPlain :: rest => some (scalar text isPlain, rest)
    | .flowSequenceStart :: rest => do
      let (items, rest) ← flowItems? fuel true rest
      return (sequence items, rest)
    | .flowMappingStart :: rest => do
      let (members, rest) ← flowMembers? fuel true rest
      return (mapping members, rest)
    | .blockSequenceStart :: rest => do
      guard isBlock
      let (items, rest) ← blockItems? fuel rest
      return (sequence items, rest)
    | .blockMappingStart :: rest => do
      guard isBlock
      let (members, rest) ← blockMembers? fuel rest
      return (mapping members, rest)
    | .blockEntry :: rest => do
      guard mayLackIndent
      let (items, rest) ← looseItems? fuel (.blockEntry :: rest)
      return (sequence items, rest)
    | _ => none

/-- Reads a node, unless the next token shows that none is written. -/
def readUnless? : (fuel : Nat) → (enders : List Token) → (isBlock mayLackIndent : Bool) →
    List Token → Option (Node × List Token)
  | 0, _, _, _, _ => none
  | fuel + 1, enders, isBlock, mayLackIndent, tokens =>
    if nextIsIn enders tokens then some (nothing, tokens)
    else read? fuel isBlock mayLackIndent tokens

/-- Reads the items of a block sequence, and its end. -/
def blockItems? : (fuel : Nat) → List Token → Option (List Node × List Token)
  | fuel + 1, .blockEntry :: rest => do
    let (item, rest) ← readUnless? fuel [.blockEntry, .blockEnd] true false rest
    let (items, rest) ← blockItems? fuel rest
    return (item :: items, rest)
  | _ + 1, .blockEnd :: rest => some ([], rest)
  | _, _ => none

/-- Reads the items of a sequence that stands at the column of the mapping around it. It ends where
no dash follows. -/
def looseItems? : (fuel : Nat) → List Token → Option (List Node × List Token)
  | fuel + 1, .blockEntry :: rest => do
    let (item, rest) ← readUnless? fuel [.blockEntry, .key, .value, .blockEnd] true false rest
    let (items, rest) ← looseItems? fuel rest
    return (item :: items, rest)
  | _ + 1, rest => some ([], rest)
  | 0, _ => none

/-- Reads the members of a block mapping, and its end. -/
def blockMembers? : (fuel : Nat) → List Token → Option (List (Node × Node) × List Token)
  | fuel + 1, .key :: rest => do
    let (name, rest) ← readUnless? fuel [.key, .value, .blockEnd] true true rest
    let (value, rest) ← blockValue? fuel rest
    let (members, rest) ← blockMembers? fuel rest
    return ((name, value) :: members, rest)
  | _ + 1, .blockEnd :: rest => some ([], rest)
  | _, _ => none

/-- Reads the value of a member of a block mapping, if there is one. -/
def blockValue? : (fuel : Nat) → List Token → Option (Node × List Token)
  | fuel + 1, .value :: rest => readUnless? fuel [.key, .value, .blockEnd] true true rest
  | _ + 1, rest => some (nothing, rest)
  | 0, _ => none

/-- Reads the items of a flow sequence, and its end. Before all items but the first there is a
comma, and a comma may come after the last. -/
def flowItems? : (fuel : Nat) → (isFirst : Bool) → List Token → Option (List Node × List Token)
  | _ + 1, _, .flowSequenceEnd :: rest => some ([], rest)
  | _ + 1, false, .flowEntry :: .flowSequenceEnd :: rest => some ([], rest)
  | fuel + 1, isFirst, tokens => do
    let (item, rest) ← flowItem? fuel (← afterComma isFirst tokens)
    let (items, rest) ← flowItems? fuel false rest
    return (item :: items, rest)
  | 0, _, _ => none

/-- Reads an item of a flow sequence. An item with a key is a mapping with that member alone. If the
key is left out, the token after its question mark is passed over with it. -/
def flowItem? : (fuel : Nat) → List Token → Option (Node × List Token)
  | fuel + 1, .key :: rest => do
    let (name, rest) ←
      if nextIsIn [.value, .flowEntry, .flowSequenceEnd] rest then some (nothing, rest.drop 1)
      else read? fuel false false rest
    let (value, rest) ← flowValue? fuel .flowSequenceEnd rest
    return (mapping [(name, value)], rest)
  | fuel + 1, tokens => read? fuel false false tokens
  | 0, _ => none

/-- Reads the members of a flow mapping, and its end. Commas stand as in a flow sequence. -/
def flowMembers? : (fuel : Nat) → (isFirst : Bool) → List Token →
    Option (List (Node × Node) × List Token)
  | _ + 1, _, .flowMappingEnd :: rest => some ([], rest)
  | _ + 1, false, .flowEntry :: .flowMappingEnd :: rest => some ([], rest)
  | fuel + 1, isFirst, tokens => do
    let (member, rest) ← flowMember? fuel (← afterComma isFirst tokens)
    let (members, rest) ← flowMembers? fuel false rest
    return (member :: members, rest)
  | 0, _, _ => none

/-- Reads a member of a flow mapping. A node that is no key is a member without a value. -/
def flowMember? : (fuel : Nat) → List Token → Option ((Node × Node) × List Token)
  | fuel + 1, .key :: rest => do
    let (name, rest) ← readUnless? fuel [.value, .flowEntry, .flowMappingEnd] false false rest
    let (value, rest) ← flowValue? fuel .flowMappingEnd rest
    return ((name, value), rest)
  | fuel + 1, tokens => do
    let (name, rest) ← read? fuel false false tokens
    return ((name, nothing), rest)
  | 0, _ => none

/-- Reads the value of a member in a flow collection that ends with that token, if there is one. -/
def flowValue? : (fuel : Nat) → (ender : Token) → List Token → Option (Node × List Token)
  | fuel + 1, ender, .value :: rest => readUnless? fuel [.flowEntry, ender] false false rest
  | _ + 1, _, rest => some (nothing, rest)
  | 0, _, _ => none

end

/-- Reads the node of a document. Between two tokens taken, the reading goes at most three calls
down. -/
def readAll? (tokens : List Token) : Option (Node × List Token) :=
  read? (4 * (tokens.length + 1)) true false tokens

/-- Reads the content of a document. -/
def content? : List Token → Option (Node × List Token)
  | [] => some (nothing, [])
  | .documentStart :: rest =>
    if rest.isEmpty || nextIsIn [.documentStart, .documentEnd] rest then some (nothing, rest)
    else readAll? rest
  | tokens => readAll? tokens

/-- The document that tokens form. There may be ends of documents after it, but no further
document. -/
def ofTokens? (tokens : List Token) : Option Node := do
  let (node, rest) ← content? tokens
  if rest.all (· == .documentEnd) then some node else none

/-- The document of a text. A text without a document has an empty one. -/
def ofText? (text : String) : Option Node := do
  ofTokens? (← tokens? text)

end Node

end PacketFlow.Yaml
