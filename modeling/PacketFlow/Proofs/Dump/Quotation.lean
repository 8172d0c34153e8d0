import PacketFlow.Proofs.Dump.Extension
import PacketFlow.Proofs.Text.Spacing

/-!
Comments and their quotes. A rule has the text between all double quotes at the ends of its comment
value, however many there are. One pair of quotes around a text is removed and nothing else, unless the
text has quotes of its own at an end: those are taken away as well.
-/
namespace PacketFlow.Dump

section Cores

/-- There is no double quote at either end of the text. -/
def ClearEnds (text : String) : Prop :=
  text.toList.head? ≠ some '"' ∧ text.toList.getLast? ≠ some '"'

instance (text : String) : Decidable (ClearEnds text) :=
  inferInstanceAs (Decidable (_ ∧ _))

theorem clearEnds_of_not_mem {text : String} (hClear : '"' ∉ text.toList) : ClearEnds text :=
  ⟨fun hFirst => hClear (List.mem_of_mem_head? hFirst),
    fun hLast => hClear (List.mem_of_getLast? hLast)⟩

/-- What there is of a text between all double quotes at its ends. -/
structure IsCore (core text : String) : Prop where
  clear : ClearEnds core
  quotes : ∃ before after,
    text.toList = List.replicate before '"' ++ core.toList ++ List.replicate after '"'

theorem toList_stripQuotes (text : String) : (RuleLine.stripQuotes text).toList =
    (text.toList.dropWhile (· == '"')).rdropWhile (· == '"') := by
  rw [RuleLine.stripQuotes, String.toList_ofList, List.rdropWhile]

theorem exists_replicate_append_dropWhile (cs : List Char) :
    ∃ n, cs = List.replicate n '"' ++ cs.dropWhile (· == '"') := by
  have hQuotes : ∀ c ∈ cs.takeWhile (· == '"'), c = '"' := by
    intro c hMem
    simpa using List.mem_takeWhile_imp hMem
  exact ⟨_, by rw [← List.eq_replicate_of_mem hQuotes, List.takeWhile_append_dropWhile]⟩

theorem exists_rdropWhile_append_replicate (cs : List Char) :
    ∃ n, cs = cs.rdropWhile (· == '"') ++ List.replicate n '"' := by
  have hQuotes : ∀ c ∈ cs.rtakeWhile (· == '"'), c = '"' := by
    intro c hMem
    simpa using List.mem_rtakeWhile_imp hMem
  exact ⟨_, by rw [← List.eq_replicate_of_mem hQuotes, List.rdropWhile_append_rtakeWhile]⟩

theorem isCore_stripQuotes (text : String) : IsCore (RuleLine.stripQuotes text) text := by
  obtain ⟨before, hBefore⟩ := exists_replicate_append_dropWhile text.toList
  obtain ⟨after, hAfter⟩ :=
    exists_rdropWhile_append_replicate (text.toList.dropWhile (· == '"'))
  refine ⟨⟨fun hFirst => ?_, fun hLast => ?_⟩, before, after, ?_⟩
  · rw [toList_stripQuotes] at hFirst
    cases Text.head?_rdropWhile_dropWhile hFirst
  · rw [toList_stripQuotes] at hLast
    have hSome := List.ne_nil_of_mem (List.mem_of_getLast? hLast)
    rw [List.getLast?_eq_some_getLast hSome, Option.some.injEq] at hLast
    have hOther := List.rdropWhile_last_not _ _ hSome
    rw [hLast] at hOther
    exact hOther rfl
  · rw [toList_stripQuotes, List.append_assoc, ← hAfter, ← hBefore]

/-- A text has only one core. -/
theorem IsCore.stripQuotes_eq {core text : String} (hCore : IsCore core text) :
    RuleLine.stripQuotes text = core := by
  obtain ⟨⟨hFirst, hLast⟩, before, after, hText⟩ := hCore
  have hQuotes (n : Nat) : ∀ c ∈ List.replicate n '"', (c == '"') = true := by
    simp [List.mem_replicate]
  have hBack : (core.toList ++ List.replicate after '"').rdropWhile (· == '"') = core.toList := by
    rw [List.rdropWhile, List.reverse_append, List.reverse_replicate,
      List.dropWhile_append_of_pos (hQuotes after), ← List.rdropWhile, List.rdropWhile_eq_self_iff]
    intro hSome hQuote
    rw [List.getLast?_eq_some_getLast hSome, eq_of_beq hQuote] at hLast
    exact hLast rfl
  rw [← String.toList_inj, toList_stripQuotes, hText, List.append_assoc,
    List.dropWhile_append_of_pos (hQuotes before)]
  cases hChars : core.toList with
  | nil => simp
  | cons c cs =>
      have hOther : (c == '"') = false := by
        rw [hChars] at hFirst
        simpa using hFirst
      rw [List.cons_append, List.dropWhile_cons_of_neg (by simp [hOther]), ← List.cons_append,
        ← hChars, hBack]

theorem stripQuotes_eq_iff {core text : String} :
    RuleLine.stripQuotes text = core ↔ IsCore core text :=
  ⟨fun hStrip => hStrip ▸ isCore_stripQuotes text, IsCore.stripQuotes_eq⟩

theorem stripQuotes_eq_self {text : String} (hClear : ClearEnds text) :
    RuleLine.stripQuotes text = text :=
  stripQuotes_eq_iff.2 ⟨hClear, 0, 0, by simp⟩

/-- One pair of quotes is taken away and nothing else, if and only if what they enclose has none at its
ends. -/
theorem stripQuotes_quote_iff {text : String} :
    RuleLine.stripQuotes (quote text) = text ↔ ClearEnds text := by
  rw [stripQuotes_eq_iff]
  exact ⟨IsCore.clear, fun hClear => ⟨hClear, 1, 1, by simp [quote]⟩⟩

end Cores

section Comments

/-- The value of the first pair of a line that gives a comment. -/
def commentValue? (line : String) : Option String :=
  (find? ["--comment"] (arguments (Text.trim line))).bind Argument.value?

/-- The rule that a line appends when these lines have been read. -/
def Appended (lines : List String) (line : String) (rule : Rule) : Prop :=
  (readLines (lines ++ [line])).ruleset.rule? ⟨(readLines lines).ruleset.rules.size⟩ = some rule

theorem Appended.comment_eq {lines : List String} {line : String} {rule : Rule}
    (hRule : Appended lines line rule) :
    rule.comment = (commentValue? line).map RuleLine.stripQuotes := by
  obtain ⟨ruleLine, id, table, hLine, -, -, hBody⟩ :=
    (reads_readLines lines line).exists_appended (Ruleset.rule?_size _) hRule
  rw [hBody, RuleLine.body, RuleLine.value?, eq_of_ofLine_eq_appendRule hLine, commentValue?]

/-- The comment of a rule is what stands between all quotes at the ends of the value on its line. So a
value without quotes at its ends is kept, and of a value in quotes exactly one pair is removed if and
only if what they enclose has no quotes at its ends; two such values give different comments. -/
theorem comment_isCore {lines : List String} {line : String} {rule : Rule}
    (hRule : Appended lines line rule) :
    (commentValue? line = none → rule.comment = none) ∧
      ∀ value, commentValue? line = some value →
        (∃ comment, rule.comment = some comment ∧ IsCore comment value) ∧
          (ClearEnds value → rule.comment = some value) ∧
          ∀ inner, value = quote inner → (rule.comment = some inner ↔ ClearEnds inner) ∧
            ∀ lines' line' rule' inner', Appended lines' line' rule' →
              commentValue? line' = some (quote inner') → ClearEnds inner → ClearEnds inner' →
              rule.comment = rule'.comment → inner = inner' := by
  refine ⟨fun hNone => by rw [hRule.comment_eq, hNone, Option.map_none], fun value hValue => ?_⟩
  have hComment : rule.comment = some (RuleLine.stripQuotes value) := by
    rw [hRule.comment_eq, hValue, Option.map_some]
  refine ⟨⟨_, hComment, isCore_stripQuotes value⟩, fun hClear => ?_, ?_⟩
  · rw [hComment, stripQuotes_eq_self hClear]
  · rintro inner rfl
    refine ⟨by rw [hComment, Option.some.injEq, stripQuotes_quote_iff], ?_⟩
    intro lines' line' rule' inner' hRule' hValue' hClear hClear' hSame
    rw [hComment, hRule'.comment_eq, hValue', Option.map_some, stripQuotes_quote_iff.2 hClear,
      stripQuotes_quote_iff.2 hClear', Option.some.injEq] at hSame
    exact hSame

theorem comment_isCore_web : ∃ rule,
    Appended ["*filter", ":INPUT ACCEPT"] "-A INPUT --comment \"web traffic\"" rule ∧
      rule.comment = some "web traffic" := by
  have hSome : ((readLines (["*filter", ":INPUT ACCEPT"] ++
      ["-A INPUT --comment \"web traffic\""])).ruleset.rule?
        ⟨(readLines ["*filter", ":INPUT ACCEPT"]).ruleset.rules.size⟩).isSome := by decide +kernel
  have hValue : commentValue? "-A INPUT --comment \"web traffic\"" =
      some (quote "web traffic") := by decide +kernel
  obtain ⟨rule, hRule⟩ := Option.isSome_iff_exists.1 hSome
  obtain ⟨-, -, hQuoted⟩ := (comment_isCore hRule).2 _ hValue
  exact ⟨rule, hRule, (hQuoted _ rfl).1.2 (by decide)⟩

/-- A quote at the end of what is in quotes is lost, although a backslash before it marks it as a part of
the text. -/
theorem comment_of_inner_quote :
    commentValue? "-A INPUT --comment \"say \\\"hi\\\"\"" = some (quote "say \\\"hi\\\"") ∧
      ((readLines ["*filter", ":INPUT ACCEPT",
        "-A INPUT --comment \"say \\\"hi\\\"\""]).ruleset.rule? ⟨0⟩).map (·.comment) =
          some (some "say \\\"hi\\") := by
  decide +kernel

end Comments

end PacketFlow.Dump
