import PacketFlow.Proofs.Dump.Description
import PacketFlow.Proofs.Dump.Ownership
import PacketFlow.Proofs.Dump.Quotation
import PacketFlow.Proofs.Dump.Segment

/-!
The lines of a written dump, read one by one. Each is taken for what it was written for: the name of a
table, the declaration of a chain, or a rule whose fields are found under either spelling of their
flags and in any order.
-/
namespace PacketFlow.Dump

section Headings

theorem trim_table {name : String} (hTrimmed : Text.trim name = name) :
    Text.trim ("*" ++ name) = "*" ++ name := by
  have hText : ("*" ++ name).toList = '*' :: name.toList := by simp
  refine Text.trim_eq_self (fun c hFirst => ?_) fun c hLast => ?_
  · rw [hText] at hFirst
    obtain rfl := Option.some.inj hFirst
    decide
  · rw [hText] at hLast
    by_cases hEmpty : name.toList = []
    · rw [hEmpty] at hLast
      obtain rfl := Option.some.inj hLast
      decide
    · rw [List.getLast?_cons_of_ne_nil hEmpty, ← hTrimmed] at hLast
      exact Text.isBlank_getLast_trim name hLast

theorem ofLine_table {name : String} (hTrimmed : Text.trim name = name) :
    Directive.ofLine ("*" ++ name) = .openTable name := by
  have hText : ("*" ++ name).toList = '*' :: name.toList := by simp
  simp only [Directive.ofLine, trim_table hTrimmed, hText, String.ofList_toList, hTrimmed]

theorem TableEntry.WellFormed.isLine {entry : TableEntry} (hEntry : entry.WellFormed) :
    Text.IsLine ("*" ++ entry.name) :=
  Text.isLine_of_trim (by simpa using hEntry.name_unbroken) (trim_table hEntry.name_trimmed)

theorem ChainEntry.line_eq_intercalate (entry : ChainEntry) :
    entry.line = " ".intercalate [":" ++ entry.name, entry.policy, "[0:0]"] := by
  simp [line, String.append_assoc]

theorem ChainEntry.WellFormed.isWord_of_mem {chains : List String} {entry : ChainEntry}
    (hEntry : entry.WellFormed chains) :
    ∀ w ∈ [":" ++ entry.name, entry.policy, "[0:0]"], Text.IsWord w := by
  have hColon : Text.IsWord ":" := by decide
  have hRest : Text.IsWord "[0:0]" := by decide
  simp only [List.forall_mem_cons]
  exact ⟨hColon.append hEntry.name.toIsWord, hEntry.policy, hRest, by simp⟩

theorem ChainEntry.WellFormed.isLine {chains : List String} {entry : ChainEntry}
    (hEntry : entry.WellFormed chains) : Text.IsLine entry.line := by
  rw [entry.line_eq_intercalate]
  exact Text.isLine_intercalate hEntry.isWord_of_mem

theorem ChainEntry.WellFormed.ofLine_line {chains : List String} {entry : ChainEntry}
    (hEntry : entry.WellFormed chains) :
    Directive.ofLine entry.line = .declareChain (some entry.name) entry.policy := by
  have hTrim : Text.trim entry.line = entry.line := by
    rw [entry.line_eq_intercalate]
    exact Text.trim_intercalate_of_isWord hEntry.isWord_of_mem
  have hText : entry.line.toList =
      ':' :: (" ".intercalate [entry.name, entry.policy, "[0:0]"]).toList := by
    simp [line]
  have hWords : Text.words (" ".intercalate [entry.name, entry.policy, "[0:0]"]) =
      [entry.name, entry.policy, "[0:0]"] := by
    refine Text.words_intercalate_of_isWord (List.forall_mem_cons.2 ⟨hEntry.name.toIsWord, ?_⟩)
    exact (List.forall_mem_cons.1 hEntry.isWord_of_mem).2
  simp only [Directive.ofLine, hTrim, hText, String.ofList_toList, Directive.ofDeclaration, hWords]

end Headings

section Fields

theorem Field.mem_all (field : Field) : field ∈ Field.all := by
  cases field <;> decide

/-- No spelling stands for two fields. -/
theorem Field.eq_of_spelling {first second : Field} {spelling : String}
    (hFirst : spelling ∈ first.spellings) (hSecond : spelling ∈ second.spellings) :
    first = second := by
  have hAll : ∀ first ∈ Field.all, ∀ second ∈ Field.all, ∀ spelling ∈ first.spellings,
      spelling ∈ second.spellings → first = second := by decide
  exact hAll first first.mem_all second second.mem_all spelling hFirst hSecond

theorem Field.isFlagWord_of_mem {field : Field} {spelling : String}
    (hMem : spelling ∈ field.spellings) : Argument.isFlagWord spelling = true := by
  have hAll : ∀ field ∈ Field.all, ∀ spelling ∈ field.spellings,
      Argument.isFlagWord spelling = true := by decide
  exact hAll field field.mem_all spelling hMem

theorem Field.isWord_of_mem {field : Field} {spelling : String} (hMem : spelling ∈ field.spellings) :
    Text.IsWord spelling := by
  have hAll : ∀ field ∈ Field.all, ∀ spelling ∈ field.spellings, Text.IsWord spelling := by
    decide +kernel
  exact hAll field field.mem_all spelling hMem

theorem Field.append_not_mem (field : Field) : "-A" ∉ field.spellings := by
  cases field <;> decide

/-- The name of an extension cannot be taken for a flag or a quote, in whatever case it is written. -/
theorem isPlainWord_of_isExtensionName {name : String} (hName : isExtensionName name = true) :
    IsPlainWord name := by
  have hNames : ∀ extension ∈ extensionNames, Text.IsWord extension ∧
      '-' ∉ extension.toList ∧ '"' ∉ extension.toList := by
    decide +kernel
  have hMem : Text.fold name ∈ extensionNames := by simpa [isExtensionName] using hName
  obtain ⟨hWord, hDash, hQuote⟩ := hNames _ hMem
  have hSmall {c : Char} (hLetter : c ∈ name.toList) : c.toLower ∈ (Text.fold name).toList := by
    rw [Text.fold, String.toList_map]
    exact List.mem_map_of_mem hLetter
  -- Dashes, quotes and white space do not change when a name is written small.
  refine { ne_empty := ?_, unbroken := ?_, notFlag := ?_, notQuote := ?_ }
  · intro hEmpty
    subst hEmpty
    exact hWord.ne_empty (by simp [Text.fold])
  · intro c hLetter
    rw [← Text.isBlank_toLower]
    exact hWord.unbroken _ (hSmall hLetter)
  · rw [Argument.isFlagWord, beq_eq_false_iff_ne]
    intro hFirst
    exact hDash (hSmall (List.mem_of_head? hFirst))
  · rw [Argument.opensQuote, beq_eq_false_iff_ne]
    intro hFirst
    exact hQuote (hSmall (List.mem_of_head? hFirst))

/-- The flags of a rule line as they are to be read. -/
def RuleEntry.arguments (entry : RuleEntry) (chain : String) (flags : List (Field × String)) :
    List Argument :=
  ⟨"-A", [chain]⟩ :: flags.map fun flag =>
    ⟨flag.2, Text.words ((entry.text? flag.1).getD "")⟩

/-- A field is found under its flag, wherever the flag stands and however it is spelled. -/
theorem RuleEntry.find?_arguments (entry : RuleEntry) (chain : String)
    {flags : List (Field × String)} (hSpelled : ∀ flag ∈ flags, flag.2 ∈ flag.1.spellings)
    (field : Field) :
    (find? field.spellings (entry.arguments chain flags)).map Argument.words =
      if field ∈ flags.map Prod.fst then some (Text.words ((entry.text? field).getD "")) else none := by
  rw [arguments, find?, List.find?_cons_of_neg (by simp [field.append_not_mem])]
  induction flags with
  | nil => rfl
  | cons flag flags ih =>
      obtain ⟨hFlag, hRest⟩ := List.forall_mem_cons.1 hSpelled
      by_cases hSame : field = flag.1
      · subst hSame
        rw [List.map_cons, List.find?_cons_of_pos (by simpa using hFlag)]
        simp
      · have hOther : flag.2 ∉ field.spellings := fun hMem => hSame (Field.eq_of_spelling hMem hFlag)
        rw [List.map_cons, List.find?_cons_of_neg (by simpa using hOther), ih hRest]
        simp only [List.map_cons, List.mem_cons, hSame, false_or]

/-- Every text of a well-formed rule is one value. -/
theorem RuleEntry.WellFormed.isValueText {entry : RuleEntry} {chains : List String}
    (hEntry : entry.WellFormed chains) (hChains : ∀ name ∈ chains, IsPlainWord name) {field : Field}
    {text : String} (hText : entry.text? field = some text) : IsValueText text := by
  cases field with
  | comment =>
      obtain ⟨words, hWords, rfl⟩ := Option.map_eq_some_iff.1 hText
      exact isValueText_quote (hEntry.comment words hWords)
  | protocol => exact (hEntry.protocol text hText).isValueText
  | source => exact (hEntry.source text hText).isValueText
  | destination => exact (hEntry.destination text hText).isValueText
  | inInterface => exact (hEntry.inInterface text hText).isValueText
  | outInterface => exact (hEntry.outInterface text hText).isValueText
  | jump =>
      obtain ⟨target, hTarget, rfl⟩ := Option.map_eq_some_iff.1 hText
      have hJump := hEntry.jump target hTarget
      cases target with
      | extension name => exact (isPlainWord_of_isExtensionName hJump).isValueText
      | chain name => exact (hChains name hJump.1).isValueText
  | goto => exact (hChains text (hEntry.goto text hText)).isValueText

end Fields

section Rules

/-! What is read for a rule. -/

variable {entry : RuleEntry} (chain : String) {flags : List (Field × String)}
  (hTexts : ∀ field text, entry.text? field = some text → IsValueText text)
  (hFields : ∀ field, field ∈ flags.map Prod.fst ↔ (entry.text? field).isSome)
  (hSpelled : ∀ flag ∈ flags, flag.2 ∈ flag.1.spellings)

theorem IsValue.ne_nil {words : List String} (hValue : IsValue words) : words ≠ [] := by
  cases hValue <;> exact List.cons_ne_nil _ _

theorem IsValueText.value?_eq {text : String} (hText : IsValueText text) (flag : String) :
    (Argument.mk flag (Text.words text)).value? = some text := by
  rw [Argument.value?, Argument.isBare, if_neg (by simpa using hText.1.ne_nil), Argument.value,
    hText.2]

include hTexts hFields hSpelled

/-- What a flag of a rule line says is what the rule says in that field. -/
theorem RuleEntry.value?_arguments (field : Field) :
    (RuleLine.mk (entry.arguments chain flags)).value? field.spellings = entry.text? field := by
  have hFound := entry.find?_arguments chain hSpelled field
  rw [RuleLine.value?]
  cases hText : entry.text? field with
  | none =>
      rw [if_neg (by simp [hFields, hText]), Option.map_eq_none_iff] at hFound
      rw [hFound, Option.bind_none]
  | some text =>
      rw [if_pos (by simp [hFields, hText]), Option.map_eq_some_iff, hText] at hFound
      obtain ⟨⟨flag, words⟩, hFind, rfl⟩ := hFound
      rw [hFind, Option.bind_some]
      exact (hTexts field text hText).value?_eq flag

theorem RuleEntry.targetName?_arguments {transfer : Transfer} (field : Field)
    (hField : field.spellings = RuleLine.targetFlags transfer) :
    (RuleLine.mk (entry.arguments chain flags)).targetName? transfer = entry.text? field := by
  have hValue := RuleEntry.value?_arguments chain hTexts hFields hSpelled field
  have hFound := entry.find?_arguments chain hSpelled field
  rw [RuleLine.value?, hField] at hValue
  rw [RuleLine.targetName?]
  cases hFind : find? (RuleLine.targetFlags transfer) (entry.arguments chain flags) with
  | none => rw [hFind, Option.bind_none] at hValue; rw [Option.map_none, hValue]
  | some a =>
      -- A flag that is given has a value, so the word that stands for none is not read.
      rw [hField, hFind, Option.map_some] at hFound
      rw [hFind, Option.bind_some] at hValue
      have hGiven : field ∈ flags.map Prod.fst := by
        by_contra hMissing
        rw [if_neg hMissing] at hFound
        cases hFound
      obtain ⟨text, hText⟩ := Option.isSome_iff_exists.1 ((hFields field).1 hGiven)
      rw [hText] at hValue ⊢
      rw [Option.map_some, Argument.reading, hValue, Option.getD_some]

end Rules

/-- The line is read as this rule for the chain. -/
structure RuleEntry.ReadAs (entry : RuleEntry) (chain : String) (rule : RuleLine) : Prop where
  chainName : rule.chainName? = some chain
  jumpName : rule.targetName? .jump = entry.jump.map Destination.name
  gotoName : rule.targetName? .goto = entry.goto
  content (position : Nat) : (rule.body none none).content entry.jump (entry.goto.map .chain) position =
    entry.content position

theorem RuleEntry.WellFormed.readAs {entry : RuleEntry} {chains : List String} {chain : String}
    {flags : List (Field × String)} (hEntry : entry.WellFormed chains)
    (hChains : ∀ name ∈ chains, IsPlainWord name)
    (hFields : ∀ field, field ∈ flags.map Prod.fst ↔ (entry.text? field).isSome)
    (hSpelled : ∀ flag ∈ flags, flag.2 ∈ flag.1.spellings) :
    entry.ReadAs chain ⟨entry.arguments chain flags⟩ := by
  have hTexts (field : Field) (text : String) (hText : entry.text? field = some text) :
      IsValueText text := hEntry.isValueText hChains hText
  have hValue (field : Field) := RuleEntry.value?_arguments chain hTexts hFields hSpelled field
  refine { chainName := ?_, jumpName := ?_, gotoName := ?_, content := ?_ }
  · simp [RuleLine.chainName?, RuleLine.value?, find?, RuleEntry.arguments, Argument.value?,
      Argument.isBare, Argument.value]
  · exact RuleEntry.targetName?_arguments chain hTexts hFields hSpelled .jump rfl
  · exact RuleEntry.targetName?_arguments chain hTexts hFields hSpelled .goto rfl
  · intro position
    have hComment : (entry.text? .comment).map RuleLine.stripQuotes =
        entry.comment.map (" ".intercalate ·) := by
      rw [RuleEntry.text?, Option.map_map]
      refine Option.map_congr fun words hWords => ?_
      refine stripQuotes_quote_iff.2 (clearEnds_of_not_mem ?_)
      refine Text.not_mem_intercalate (by decide) fun w hMem => ?_
      exact (hEntry.comment words hWords w hMem).noQuote
    have hProtocol := hValue .protocol
    have hSource := hValue .source
    have hDestination := hValue .destination
    have hIn := hValue .inInterface
    have hOut := hValue .outInterface
    have hText := hValue .comment
    simp only [Field.spellings] at hProtocol hSource hDestination hIn hOut hText
    simp only [RuleBody.content, RuleLine.body, hText, hProtocol, hSource, hDestination, hIn, hOut,
      hComment]
    rfl

section Lines

variable {entry : RuleEntry} {chain : String} {flags : List (Field × String)}
  (hChain : IsPlainWord chain)
  (hTexts : ∀ flag ∈ flags, IsValueText ((entry.text? flag.1).getD ""))
  (hSpelled : ∀ flag ∈ flags, flag.2 ∈ flag.1.spellings)

include hChain hTexts hSpelled

/-- The pieces of a rule line are divided by single blanks, and so are the words of each. -/
theorem RuleEntry.intercalate_words_pieces :
    " ".intercalate ((entry.pieces chain flags).flatMap Text.words) =
      " ".intercalate (entry.pieces chain flags) := by
  have hOfWord {w : String} (hWord : Text.IsWord w) :
      Text.words w ≠ [] ∧ " ".intercalate (Text.words w) = w := by
    rw [hWord.words_eq]
    exact ⟨List.cons_ne_nil _ _, String.intercalate_singleton⟩
  refine Text.intercalate_flatMap_words ?_
  rw [pieces, List.forall_mem_cons, List.forall_mem_cons]
  refine ⟨hOfWord (by decide), hOfWord hChain.toIsWord, fun piece hMem => ?_⟩
  obtain ⟨flag, hFlag, hMem⟩ := List.mem_flatMap.1 hMem
  simp only [List.mem_cons, List.not_mem_nil, or_false] at hMem
  obtain rfl | rfl := hMem
  · exact hOfWord (Field.isWord_of_mem (hSpelled flag hFlag))
  · exact ⟨(hTexts flag hFlag).1.ne_nil, (hTexts flag hFlag).2⟩

theorem RuleEntry.arguments_intercalate_pieces :
    Dump.arguments (" ".intercalate (entry.pieces chain flags)) = entry.arguments chain flags := by
  have hAppend : Text.IsWord "-A" := by decide
  have hFlag : Argument.isFlagWord "-A" = true := by decide
  refine arguments_eq ?_ ?_
  · rw [Text.words_intercalate, pieces, arguments, List.flatMap_cons, List.flatMap_cons,
      List.flatMap_cons, hAppend.words_eq, hChain.toIsWord.words_eq, List.flatMap_map,
      List.flatMap_assoc]
    refine congrArg (["-A"] ++ [chain] ++ ·) (List.flatMap_congr fun flag hMem => ?_)
    rw [List.flatMap_cons, List.flatMap_singleton,
      (Field.isWord_of_mem (hSpelled flag hMem)).words_eq, List.singleton_append]
  · rw [arguments, List.forall_mem_cons]
    refine ⟨⟨hFlag, Or.inl (unquoted_nil.cons hChain.notFlag hChain.notQuote)⟩, fun a hMem => ?_⟩
    obtain ⟨flag, hGiven, rfl⟩ := List.mem_map.1 hMem
    exact ⟨Field.isFlagWord_of_mem (hSpelled flag hGiven), (hTexts flag hGiven).1.unquoted_or_endsClosed⟩

theorem RuleEntry.isLine_intercalate_pieces :
    Text.IsLine (" ".intercalate (entry.pieces chain flags)) := by
  rw [← RuleEntry.intercalate_words_pieces hChain hTexts hSpelled]
  refine Text.isLine_intercalate fun w hMem => ?_
  obtain ⟨piece, -, hMem⟩ := List.mem_flatMap.1 hMem
  exact Text.isWord_of_mem_words hMem

theorem RuleEntry.ofLine_intercalate_pieces :
    Directive.ofLine (" ".intercalate (entry.pieces chain flags)) =
      .appendRule ⟨entry.arguments chain flags⟩ := by
  have hTrim : Text.trim (" ".intercalate (entry.pieces chain flags)) =
      " ".intercalate (entry.pieces chain flags) := by
    rw [← RuleEntry.intercalate_words_pieces hChain hTexts hSpelled]
    refine Text.trim_intercalate_of_isWord fun w hMem => ?_
    obtain ⟨piece, -, hMem⟩ := List.mem_flatMap.1 hMem
    exact Text.isWord_of_mem_words hMem
  rw [← RuleEntry.arguments_intercalate_pieces hChain hTexts hSpelled]
  exact ofLine_intercalate hTrim

end Lines

/-- A written rule stands on one line and is read as the rule. -/
theorem RuleEntry.WellFormed.exists_ofLine_eq {entry : RuleEntry} {chains : List String}
    {chain line : String} (hEntry : entry.WellFormed chains)
    (hChains : ∀ name ∈ chains, IsPlainWord name) (hChain : IsPlainWord chain)
    (hWrites : entry.Writes chain line) :
    Text.IsLine line ∧ ∃ rule, Directive.ofLine line = .appendRule rule ∧ entry.ReadAs chain rule := by
  obtain ⟨flags, hPerm, hSpelled, rfl⟩ := hWrites
  have hFields (field : Field) : field ∈ flags.map Prod.fst ↔ (entry.text? field).isSome := by
    rw [hPerm.mem_iff, List.mem_filter]
    exact and_iff_right field.mem_all
  have hTexts (flag : Field × String) (hFlag : flag ∈ flags) :
      IsValueText ((entry.text? flag.1).getD "") := by
    obtain ⟨text, hText⟩ :=
      Option.isSome_iff_exists.1 ((hFields flag.1).1 (List.mem_map_of_mem hFlag))
    rw [hText]
    exact hEntry.isValueText hChains hText
  exact ⟨RuleEntry.isLine_intercalate_pieces hChain hTexts hSpelled, _,
    RuleEntry.ofLine_intercalate_pieces hChain hTexts hSpelled,
    hEntry.readAs hChains hFields hSpelled⟩

end PacketFlow.Dump
