import PacketFlow.Proofs.Dot.Statement

/-!
Reading the language back. A text is first cut into words, strings and marks, with no regard to lines
and blanks, and inside a string nothing ends but the string. Then statements are put together, a
cluster at the brace that closes it. What is written is read as what it was, whatever its strings are.
-/
namespace PacketFlow.Dot

section Tokens

/-- What a text is made of between its blanks. -/
inductive Token where
  | word (text : String)
  /-- A string in quotes, given as it stands between them. -/
  | quoted (written : String)
  | mark (c : Char)
  deriving DecidableEq, Repr

/-- Where a scanner is, with what it has read of a word or a string. -/
inductive Scan where
  | bare (read : List Char)
  | string (read : List Char)
  /-- In a string, behind a backslash. -/
  | escaped (read : List Char)
  deriving DecidableEq, Repr

/-- The word that ends here, if one does. -/
def endWord (read : List Char) : List Token :=
  if read.isEmpty then [] else [.word (.ofList read)]

/-- The tokens of a text from where the scanner is. A string that does not end counts as its quote. -/
def scan : Scan → List Char → List Token
  | .bare read, [] => endWord read
  | .string _, [] => [.mark '"']
  | .escaped _, [] => [.mark '"']
  | .bare read, c :: rest =>
    if isWordChar c then scan (.bare (read ++ [c])) rest
    else endWord read ++
      if c = '"' then scan (.string []) rest
      else if c = ' ' ∨ c = '\n' then scan (.bare []) rest
      else .mark c :: scan (.bare []) rest
  | .string read, c :: rest =>
    if c = '"' then .quoted (.ofList read) :: scan (.bare []) rest
    else if c = '\\' then scan (.escaped (read ++ [c])) rest
    else scan (.string (read ++ [c])) rest
  | .escaped read, c :: rest => scan (.string (read ++ [c])) rest

/-- The tokens of a text. -/
def tokensOf (cs : List Char) : List Token :=
  scan (.bare []) cs

variable {rest : List Char}

theorem scan_bare_append {word : List Char} (hWord : ∀ c ∈ word, isWordChar c = true)
    (read : List Char) : scan (.bare read) (word ++ rest) = scan (.bare (read ++ word)) rest := by
  induction word generalizing read with
  | nil => rw [List.nil_append, List.append_nil]
  | cons c word ih =>
      rw [List.forall_mem_cons] at hWord
      rw [List.cons_append, scan, if_pos hWord.1, ih hWord.2, List.append_assoc,
        List.singleton_append]

theorem scan_bare_of_endsWord (hEnd : EndsWord rest) (read : List Char) :
    scan (.bare read) rest = endWord read ++ tokensOf rest := by
  cases rest with
  | nil => simp [scan, tokensOf, endWord]
  | cons c rest => simp [scan, tokensOf, endWord, hEnd c rfl]

theorem tokensOf_word {text : String} (hWord : IsWord text) (hEnd : EndsWord rest) :
    tokensOf (text.toList ++ rest) = .word text :: tokensOf rest := by
  have hSome : text.toList ≠ [] := fun hNil => hWord.1 (String.toList_eq_nil_iff.1 hNil)
  rw [tokensOf, scan_bare_append (List.all_eq_true.1 hWord.2), scan_bare_of_endsWord hEnd, endWord]
  simp [hSome]

/-- A string ends at the first quote that does not stand behind a backslash. -/
theorem scan_string_append {written : List Char} (hSealed : Sealed '"' written) (read : List Char) :
    scan (.string read) (written ++ '"' :: rest) =
      .quoted (.ofList (read ++ written)) :: tokensOf rest := by
  induction hSealed generalizing read with
  | nil => simp [scan, tokensOf]
  | bare hMark hSlash _ ih =>
      rw [List.cons_append, scan, if_neg hMark, if_neg hSlash, ih]
      simp
  | escaped c _ ih =>
      rw [List.cons_append, List.cons_append, scan, if_neg (by decide), if_pos rfl, scan, ih]
      simp

theorem tokensOf_mark {c : Char} (hOther : isWordChar c = false)
    (hMark : c ≠ '"' ∧ c ≠ ' ' ∧ c ≠ '\n') (rest : List Char) :
    tokensOf (c :: rest) = .mark c :: tokensOf rest := by
  simp [tokensOf, scan, endWord, hOther, hMark]

theorem tokensOf_blank (rest : List Char) : tokensOf (' ' :: rest) = tokensOf rest := by
  simp [tokensOf, scan, endWord, isWordChar]

theorem tokensOf_lineBreak (rest : List Char) : tokensOf ('\n' :: rest) = tokensOf rest := by
  simp [tokensOf, scan, endWord, isWordChar]

theorem tokensOf_indent (depth : Nat) (rest : List Char) :
    tokensOf ((indent depth).toList ++ rest) = tokensOf rest := by
  induction depth generalizing rest with
  | zero => rfl
  | succ depth ih =>
      rw [Statement.toList_indent_succ, List.append_assoc, ih, List.cons_append, tokensOf_blank,
        List.singleton_append, tokensOf_blank]

end Tokens

section Written

/-! The tokens of what is written. -/

def Value.token : Value → Token
  | word text => .word text
  | quoted written => .quoted written

def Attribute.tokens (a : Attribute) : List Token :=
  [.word a.name, .mark '=', a.value.token]

/-- Attributes after the first. -/
def furtherTokens (attributes : List Attribute) : List Token :=
  attributes.flatMap fun a => .mark ',' :: a.tokens

def attributeTokens : List Attribute → List Token
  | [] => []
  | a :: others => .mark '[' :: (a.tokens ++ (furtherTokens others ++ [.mark ']']))

mutual

def Statement.tokens : Statement → List Token
  | .node name attributes => .word name :: (attributeTokens attributes ++ [.mark ';'])
  | .edge source target attributes =>
    .word source :: .mark '-' :: .mark '>' :: .word target ::
      (attributeTokens attributes ++ [.mark ';'])
  | .setting a => a.tokens ++ [.mark ';']
  | .cluster name body =>
    .word "subgraph" :: .word name :: .mark '\x7b' :: (Statement.allTokens body ++ [.mark '\x7d'])

def Statement.allTokens : List Statement → List Token
  | [] => []
  | statement :: others => statement.tokens ++ Statement.allTokens others

end

def Diagram.tokens (d : Diagram) : List Token :=
  .word "digraph" :: .word d.name :: .mark '\x7b' :: (Statement.allTokens d.body ++ [.mark '\x7d'])

variable {rest : List Char}

/-- The string around a sealed text ends at its closing quote, whatever follows. -/
theorem tokensOf_quoted {written : String} (hSealed : Sealed '"' written.toList)
    (rest : List Char) : tokensOf ((Value.quoted written).write.toList ++ rest) =
      .quoted written :: tokensOf rest := by
  have hWrite : (Value.quoted written).write.toList ++ rest =
      '"' :: (written.toList ++ '"' :: rest) := by simp [Value.write]
  have hQuote (cs : List Char) : tokensOf ('"' :: cs) = scan (.string []) cs := by
    simp [tokensOf, scan, endWord, isWordChar]
  rw [hWrite, hQuote, scan_string_append hSealed, List.nil_append, String.ofList_toList]

theorem tokensOf_value {v : Value} (hLegible : v.Legible) (hEnd : EndsWord rest) :
    tokensOf (v.write.toList ++ rest) = v.token :: tokensOf rest := by
  cases v with
  | word text => exact tokensOf_word hLegible hEnd
  | quoted written => exact tokensOf_quoted hLegible rest

theorem tokensOf_attribute {a : Attribute} (hLegible : a.Legible) (hEnd : EndsWord rest) :
    tokensOf (a.write.toList ++ rest) = a.tokens ++ tokensOf rest := by
  have hWrite : a.write.toList ++ rest = a.name.toList ++ '=' :: (a.value.write.toList ++ rest) := by
    simp [Attribute.write]
  rw [hWrite, tokensOf_word hLegible.name (.cons rfl _), tokensOf_mark rfl (by decide),
    tokensOf_value hLegible.value hEnd]
  rfl

theorem tokensOf_writeFurther {attributes : List Attribute}
    (hLegible : ∀ a ∈ attributes, a.Legible) (rest : List Char) :
    tokensOf (writeFurther attributes ++ ']' :: rest) =
      furtherTokens attributes ++ .mark ']' :: tokensOf rest := by
  induction attributes with
  | nil => exact tokensOf_mark rfl (by decide) rest
  | cons a others ih =>
      obtain ⟨hFirst, hOthers⟩ := List.forall_mem_cons.1 hLegible
      have hWrite : writeFurther (a :: others) ++ ']' :: rest =
          ',' :: ' ' :: (a.write.toList ++ (writeFurther others ++ ']' :: rest)) := by
        simp [writeFurther]
      rw [hWrite, tokensOf_mark rfl (by decide), tokensOf_blank,
        tokensOf_attribute hFirst (endsWord_writeFurther _ _), ih hOthers]
      simp [furtherTokens]

theorem tokensOf_writeAttributes {attributes : List Attribute}
    (hLegible : ∀ a ∈ attributes, a.Legible) (rest : List Char) :
    tokensOf ((writeAttributes attributes).toList ++ ';' :: rest) =
      attributeTokens attributes ++ .mark ';' :: tokensOf rest := by
  cases attributes with
  | nil => exact tokensOf_mark rfl (by decide) rest
  | cons a others =>
      obtain ⟨hFirst, hOthers⟩ := List.forall_mem_cons.1 hLegible
      have hWrite : (writeAttributes (a :: others)).toList ++ ';' :: rest =
          ' ' :: '[' :: (a.write.toList ++ (writeFurther others ++ ']' :: ';' :: rest)) := by
        simp [toList_writeAttributes_cons]
      rw [hWrite, tokensOf_blank, tokensOf_mark rfl (by decide),
        tokensOf_attribute hFirst (endsWord_writeFurther _ _), tokensOf_writeFurther hOthers,
        tokensOf_mark rfl (by decide)]
      simp [attributeTokens]

/-- What is written of a statement is cut into the tokens of the statement. -/
def Statement.CutAsWritten (s : Statement) : Prop :=
  ∀ (depth : Nat) (rest : List Char), s.Legible →
    tokensOf ((s.write depth).toList ++ rest) = s.tokens ++ tokensOf rest

theorem tokensOf_writeAll {body : List Statement} (hCut : ∀ s ∈ body, s.CutAsWritten)
    (hLegible : Statement.AllLegible body) (depth : Nat) (rest : List Char) :
    tokensOf ((Statement.writeAll depth body).toList ++ rest) =
      Statement.allTokens body ++ tokensOf rest := by
  induction body with
  | nil => rfl
  | cons s others ih =>
      rw [List.forall_mem_cons] at hCut
      rw [Statement.writeAll, String.toList_append, List.append_assoc, hCut.1 depth _ hLegible.1,
        ih hCut.2 hLegible.2, Statement.allTokens, List.append_assoc]

theorem Statement.Legible.tokensOf_write {s : Statement} (hLegible : s.Legible) (depth : Nat)
    (rest : List Char) : tokensOf ((s.write depth).toList ++ rest) =
      .word s.firstWord :: tokensOf (s.afterFirst depth ++ rest) := by
  rw [toList_write, List.append_assoc, List.append_assoc, tokensOf_indent,
    tokensOf_word hLegible.firstWord (endsWord_afterFirst s depth rest)]

theorem Statement.cutAsWritten (s : Statement) : s.CutAsWritten := by
  induction s using Statement.induction with
  | node name attributes =>
      intro depth rest hLegible
      have hAfter : (node name attributes).afterFirst depth ++ rest =
          (writeAttributes attributes).toList ++ ';' :: '\n' :: rest := by simp [afterFirst]
      rw [hLegible.tokensOf_write, hAfter, tokensOf_writeAttributes hLegible.2, tokensOf_lineBreak]
      simp [firstWord, tokens]
  | edge source target attributes =>
      intro depth rest hLegible
      have hAfter : (edge source target attributes).afterFirst depth ++ rest =
          ' ' :: '-' :: '>' :: ' ' :: (target.toList ++
            ((writeAttributes attributes).toList ++ ';' :: '\n' :: rest)) := by simp [afterFirst]
      rw [hLegible.tokensOf_write, hAfter, tokensOf_blank, tokensOf_mark rfl (by decide),
        tokensOf_mark rfl (by decide), tokensOf_blank,
        tokensOf_word hLegible.2.1 (endsWord_writeAttributes _ _),
        tokensOf_writeAttributes hLegible.2.2, tokensOf_lineBreak]
      simp [firstWord, tokens]
  | setting a =>
      intro depth rest hLegible
      have hAfter : (setting a).afterFirst depth ++ rest =
          '=' :: (a.value.write.toList ++ ';' :: '\n' :: rest) := by simp [afterFirst]
      rw [hLegible.tokensOf_write, hAfter, tokensOf_mark rfl (by decide),
        tokensOf_value hLegible.value (.cons rfl _), tokensOf_mark rfl (by decide),
        tokensOf_lineBreak]
      simp [firstWord, tokens, Attribute.tokens]
  | cluster name body hBody =>
      intro depth rest hLegible
      have hAfter : (cluster name body).afterFirst depth ++ rest =
          ' ' :: (name.toList ++ ' ' :: '\x7b' :: '\n' :: ((writeAll (depth + 1) body).toList ++
            ((indent depth).toList ++ '\x7d' :: '\n' :: rest))) := by simp [afterFirst]
      rw [hLegible.tokensOf_write, hAfter, tokensOf_blank, tokensOf_word hLegible.1 (.cons rfl _),
        tokensOf_blank, tokensOf_mark rfl (by decide), tokensOf_lineBreak,
        tokensOf_writeAll hBody hLegible.2, tokensOf_indent, tokensOf_mark rfl (by decide),
        tokensOf_lineBreak]
      simp [firstWord, tokens]

/-- The text of a directed graph is cut into the tokens of the graph. -/
theorem Diagram.Legible.tokensOf_write {d : Diagram} (hLegible : d.Legible) :
    tokensOf d.write.toList = d.tokens := by
  have hWrite : d.write.toList = "digraph".toList ++ ' ' :: (d.name.toList ++
      ' ' :: '\x7b' :: '\n' :: ((Statement.writeAll 1 d.body).toList ++ '\x7d' :: ['\n'])) := by
    simp [write]
  rw [hWrite, tokensOf_word (by decide) (.cons rfl _), tokensOf_blank,
    tokensOf_word hLegible.name (.cons rfl _), tokensOf_blank, tokensOf_mark rfl (by decide),
    tokensOf_lineBreak, tokensOf_writeAll (fun s _ => s.cutAsWritten) hLegible.body,
    tokensOf_mark rfl (by decide), tokensOf_lineBreak]
  rfl

end Written

section Reading

/-! Putting statements together from tokens. -/

/-- The value that a token gives. -/
def Token.value? : Token → Option Value
  | word text => some (.word text)
  | quoted written => some (.quoted written)
  | mark _ => none

/-- Attributes after the first, up to the bracket. -/
def furtherAttributes? : List Token → Option (List Attribute)
  | [.mark ']'] => some []
  | .mark ',' :: .word name :: .mark '=' :: value :: rest => do
    let value ← value.value?
    let others ← furtherAttributes? rest
    return ⟨name, value⟩ :: others
  | _ => none

/-- The attributes at the end of a statement. -/
def attributes? : List Token → Option (List Attribute)
  | [] => some []
  | .mark '[' :: rest => furtherAttributes? (.mark ',' :: rest)
  | _ => none

/-- The statement that ends at a semicolon. -/
def Statement.ofTokens? : List Token → Option Statement
  | [.word name, .mark '=', value] => value.value?.map fun value => .setting ⟨name, value⟩
  | .word source :: .mark '-' :: .mark '>' :: .word target :: rest =>
    (attributes? rest).map (.edge source target)
  | .word name :: rest => (attributes? rest).map (.node name)
  | _ => none

/-- What a reader has read. -/
inductive Reader where
  /-- The tokens of a statement that has not ended, and the blocks around it, from the innermost. Of
  each block there are the tokens before its brace and the statements in it. -/
  | within (pending : List Token) (blocks : List (List Token × List Statement))
  /-- A block in no other block. -/
  | finished (head : List Token) (body : List Statement)

namespace Reader

/-- Ends the innermost block. In another block it is a cluster. -/
def close? : List (List Token × List Statement) → Option Reader
  | [] => none
  | [(head, body)] => some (finished head body)
  | ([.word "subgraph", .word name], body) :: (head, before) :: around =>
    some (within [] ((head, before ++ [.cluster name body]) :: around))
  | _ => none

/-- Reads a token. -/
def step? : Reader → Token → Option Reader
  | within pending blocks, .mark '\x7b' => some (within [] ((pending, []) :: blocks))
  | within pending blocks, .mark '\x7d' => if pending.isEmpty then close? blocks else none
  | within pending ((head, body) :: around), .mark ';' =>
    (Statement.ofTokens? pending).map fun s => within [] ((head, body ++ [s]) :: around)
  | within _ [], .mark ';' => none
  | within pending blocks, token => some (within (pending ++ [token]) blocks)
  | finished .., _ => none

def run? (r : Reader) (ts : List Token) : Option Reader :=
  ts.foldlM step? r

/-- The directed graph that has been read, if it has ended. -/
def diagram? : Reader → Option Diagram
  | finished [.word "digraph", .word name] body => some ⟨name, body⟩
  | _ => none

end Reader

/-- The directed graph that a text is. -/
def Diagram.read? (text : String) : Option Diagram :=
  ((Reader.within [] []).run? (tokensOf text.toList)).bind Reader.diagram?

theorem Value.value?_token (v : Value) : v.token.value? = some v := by
  cases v <;> rfl

theorem furtherAttributes?_furtherTokens (attributes : List Attribute) :
    furtherAttributes? (furtherTokens attributes ++ [.mark ']']) = some attributes := by
  induction attributes with
  | nil => rfl
  | cons a others ih =>
      have hTokens : furtherTokens (a :: others) ++ [.mark ']'] = .mark ',' :: .word a.name ::
          .mark '=' :: a.value.token :: (furtherTokens others ++ [.mark ']']) := by
        simp [furtherTokens, Attribute.tokens]
      rw [hTokens, furtherAttributes?, a.value.value?_token, ih]
      rfl

theorem attributes?_attributeTokens (attributes : List Attribute) :
    attributes? (attributeTokens attributes) = some attributes := by
  cases attributes with
  | nil => rfl
  | cons a others => exact furtherAttributes?_furtherTokens (a :: others)

theorem Statement.ofTokens?_node (name : String) (attributes : List Attribute) :
    ofTokens? (.word name :: attributeTokens attributes) = some (.node name attributes) := by
  have hRead : ofTokens? (.word name :: attributeTokens attributes) =
      (attributes? (attributeTokens attributes)).map (.node name) := by
    cases attributes <;> rfl
  rw [hRead, attributes?_attributeTokens, Option.map_some]

theorem Statement.ofTokens?_edge (source target : String) (attributes : List Attribute) :
    ofTokens? (.word source :: .mark '-' :: .mark '>' :: .word target ::
      attributeTokens attributes) = some (.edge source target attributes) := by
  have hRead : ofTokens? (.word source :: .mark '-' :: .mark '>' :: .word target ::
      attributeTokens attributes) =
        (attributes? (attributeTokens attributes)).map (.edge source target) := rfl
  rw [hRead, attributes?_attributeTokens, Option.map_some]

theorem Statement.ofTokens?_setting (a : Attribute) :
    ofTokens? a.tokens = some (.setting a) := by
  have hRead : ofTokens? a.tokens = a.value.token.value?.map fun value => .setting ⟨a.name, value⟩ :=
    rfl
  rw [hRead, a.value.value?_token, Option.map_some]

/-- A token that neither ends a statement nor begins or ends a block. -/
def Token.isPlain (t : Token) : Bool :=
  !([.mark ';', .mark '\x7b', .mark '\x7d'] : List Token).contains t

theorem Attribute.isPlain_of_mem_tokens (a : Attribute) : ∀ t ∈ a.tokens, t.isPlain = true := by
  have hValue : a.value.token.isPlain = true := by
    cases a.value <;> rfl
  rw [tokens, List.forall_mem_cons, List.forall_mem_cons, List.forall_mem_singleton]
  exact ⟨rfl, rfl, hValue⟩

theorem isPlain_of_mem_attributeTokens {attributes : List Attribute} :
    ∀ t ∈ attributeTokens attributes, t.isPlain = true := by
  have hFurther (attributes : List Attribute) :
      ∀ t ∈ furtherTokens attributes, t.isPlain = true := by
    rw [furtherTokens, List.forall_mem_flatMap]
    exact fun a _ => List.forall_mem_cons.2 ⟨rfl, a.isPlain_of_mem_tokens⟩
  cases attributes with
  | nil => exact List.forall_mem_nil _
  | cons a others =>
      rw [attributeTokens, List.forall_mem_cons, List.forall_mem_append, List.forall_mem_append]
      exact ⟨rfl, a.isPlain_of_mem_tokens, hFurther others, List.forall_mem_singleton.2 rfl⟩

namespace Reader

variable {pending : List Token} {blocks : List (List Token × List Statement)}

theorem step?_of_isPlain {t : Token} (hPlain : t.isPlain = true) :
    (within pending blocks).step? t = some (within (pending ++ [t]) blocks) := by
  unfold step?
  split <;> simp_all [Token.isPlain]

theorem run?_plain {ts : List Token} (hPlain : ∀ t ∈ ts, t.isPlain = true) (us : List Token) :
    (within pending blocks).run? (ts ++ us) = (within (pending ++ ts) blocks).run? us := by
  induction ts generalizing pending with
  | nil => rw [List.nil_append, List.append_nil]
  | cons t ts ih =>
      rw [List.forall_mem_cons] at hPlain
      rw [List.cons_append, run?, List.foldlM_cons, step?_of_isPlain hPlain.1]
      have hRest := @ih (pending ++ [t]) hPlain.2
      rw [List.append_assoc] at hRest
      exact hRest

end Reader

namespace Statement

/-- A statement without a block, which is read at its semicolon. -/
structure Simple (s : Statement) (ts : List Token) : Prop where
  tokens_eq : s.tokens = ts ++ [.mark ';']
  isPlain : ∀ t ∈ ts, t.isPlain = true
  ofTokens?_eq : ofTokens? ts = some s

theorem simple_node (name : String) (attributes : List Attribute) :
    (node name attributes).Simple (.word name :: attributeTokens attributes) where
  tokens_eq := by simp [tokens]
  isPlain := List.forall_mem_cons.2 ⟨rfl, isPlain_of_mem_attributeTokens⟩
  ofTokens?_eq := ofTokens?_node name attributes

theorem simple_edge (source target : String) (attributes : List Attribute) :
    (edge source target attributes).Simple
      (.word source :: .mark '-' :: .mark '>' :: .word target :: attributeTokens attributes) where
  tokens_eq := by simp [tokens]
  isPlain := by
    simp only [List.forall_mem_cons]
    exact ⟨rfl, rfl, rfl, rfl, isPlain_of_mem_attributeTokens⟩
  ofTokens?_eq := ofTokens?_edge source target attributes

theorem simple_setting (a : Attribute) : (setting a).Simple a.tokens where
  tokens_eq := by simp [tokens]
  isPlain := a.isPlain_of_mem_tokens
  ofTokens?_eq := ofTokens?_setting a

/-- A statement is read from its tokens. -/
def ReadBack (s : Statement) : Prop :=
  ∀ (head : List Token) (body : List Statement) (blocks : List (List Token × List Statement))
    (rest : List Token), (Reader.within [] ((head, body) :: blocks)).run? (s.tokens ++ rest) =
      (Reader.within [] ((head, body ++ [s]) :: blocks)).run? rest

theorem Simple.readBack {s : Statement} {ts : List Token} (hSimple : s.Simple ts) : s.ReadBack := by
  intro head body blocks rest
  have hEnd : (Reader.within ts ((head, body) :: blocks)).step? (.mark ';') =
      some (.within [] ((head, body ++ [s]) :: blocks)) := by
    rw [Reader.step?, hSimple.ofTokens?_eq, Option.map_some]
  rw [hSimple.tokens_eq, List.append_assoc, List.singleton_append, Reader.run?_plain hSimple.isPlain,
    List.nil_append, Reader.run?, List.foldlM_cons, hEnd]
  rfl

end Statement

theorem run?_allTokens {statements : List Statement} (hRead : ∀ s ∈ statements, s.ReadBack)
    (head : List Token) (body : List Statement) (blocks : List (List Token × List Statement))
    (rest : List Token) :
    (Reader.within [] ((head, body) :: blocks)).run? (Statement.allTokens statements ++ rest) =
      (Reader.within [] ((head, body ++ statements) :: blocks)).run? rest := by
  induction statements generalizing body with
  | nil => rw [Statement.allTokens, List.nil_append, List.append_nil]
  | cons s others ih =>
      rw [List.forall_mem_cons] at hRead
      rw [Statement.allTokens, List.append_assoc, hRead.1 head body blocks, ih hRead.2,
        List.append_assoc, List.singleton_append]

theorem Statement.readBack (s : Statement) : s.ReadBack := by
  induction s using Statement.induction with
  | node name attributes => exact (simple_node name attributes).readBack
  | edge source target attributes => exact (simple_edge source target attributes).readBack
  | setting a => exact (simple_setting a).readBack
  | cluster name inner hInner =>
      intro head body blocks rest
      have hOpen (ts : List Token) : (Reader.within [] ((head, body) :: blocks)).run?
          (.word "subgraph" :: .word name :: .mark '\x7b' :: ts) =
            (Reader.within [] (([.word "subgraph", .word name], []) :: (head, body) :: blocks)).run? ts :=
        rfl
      have hClose (inner : List Statement) : (Reader.within []
          (([.word "subgraph", .word name], inner) :: (head, body) :: blocks)).run?
            (.mark '\x7d' :: rest) =
              (Reader.within [] ((head, body ++ [.cluster name inner]) :: blocks)).run? rest :=
        rfl
      have hTokens : (cluster name inner).tokens ++ rest = .word "subgraph" :: .word name ::
          .mark '\x7b' :: (allTokens inner ++ .mark '\x7d' :: rest) := by simp [tokens]
      rw [hTokens, hOpen, run?_allTokens hInner, List.nil_append, hClose]

/-- A directed graph is read from its text, whatever its strings are. -/
theorem Diagram.Legible.read?_write {d : Diagram} (hLegible : d.Legible) :
    Diagram.read? d.write = some d := by
  have hOpen (ts : List Token) : (Reader.within [] []).run?
      (.word "digraph" :: .word d.name :: .mark '\x7b' :: ts) =
        (Reader.within [] [([.word "digraph", .word d.name], [])]).run? ts := rfl
  rw [read?, hLegible.tokensOf_write, Diagram.tokens, hOpen,
    run?_allTokens fun s _ => s.readBack, List.nil_append]
  rfl

/-- A directed graph is told from its text. -/
theorem Diagram.eq_of_write_eq {d d' : Diagram} (hLegible : d.Legible) (hLegible' : d'.Legible)
    (hSame : d.write = d'.write) : d = d' := by
  have hRead := hLegible.read?_write
  rw [hSame, hLegible'.read?_write] at hRead
  exact (Option.some.inj hRead).symm

end Reading

end PacketFlow.Dot
