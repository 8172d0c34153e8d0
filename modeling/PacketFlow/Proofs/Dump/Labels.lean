import PacketFlow.Proofs.Dump.Designation
import PacketFlow.Proofs.Ruleset.Lookup

/-!
Labels tell chains and rules apart. Nothing in a label is escaped, and the name of a table may hold
blanks, bars and whatever else a label is made of. But the names of chains are words, and so are
positions, so a label is read from its end: the last blank, the last bar before it, and the last blank
before that.
-/
namespace PacketFlow

namespace Ruleset

open Text

/-- Chains and rules have labels, and these tell which they are. An extension target has no name of
its own, so its label may be that of other extension targets, but not that of any other chain. -/
structure LabelsTell (rs : Ruleset) : Prop where
  exists_chainLabel {c : ChainId} {chain : Chain} (hChain : rs.chain? c = some chain) :
    ∃ label, rs.chainLabel? c = some label
  exists_ruleLabel {r : RuleId} {rule : Rule} (hRule : rs.rule? r = some rule) :
    ∃ label, rs.ruleLabel? r = some label
  chain {c d : ChainId} {chain : Chain} {label : String} (hChain : rs.chain? c = some chain)
    (hDeclared : chain.isExtension = false) (hLabel : rs.chainLabel? c = some label)
    (hOther : rs.chainLabel? d = some label) : c = d
  rule {r s : RuleId} {label : String} (hLabel : rs.ruleLabel? r = some label)
    (hOther : rs.ruleLabel? s = some label) : r = s
  chain_ne_rule {c : ChainId} {r : RuleId} {place label : String}
    (hPlace : rs.chainLabel? c = some place) (hLabel : rs.ruleLabel? r = some label) :
    place ≠ label
  chain_ne_rules {c d : ChainId} {place other : String} (hPlace : rs.chainLabel? c = some place)
    (hOther : rs.chainLabel? d = some other) : place ≠ s!"rules: {other}"
  rule_ne_rules {r : RuleId} {d : ChainId} {label other : String}
    (hLabel : rs.ruleLabel? r = some label) (hOther : rs.chainLabel? d = some other) :
    label ≠ s!"rules: {other}"

variable {rs : Ruleset}

section Shape

/-! What the labels are made of, cut at the places where they are told apart. -/

/-- The label of a chain: what stands before the chain's name tells the chain's table. -/
inductive ChainLabelled (rs : Ruleset) (c : ChainId) (chain : Chain) : String → Prop
  | extension (hChain : rs.chain? c = some chain)
      (hOutside : chain.table = none ∨ chain.isExtension = true) :
      rs.ChainLabelled c chain ("target:" ++ " " ++ chain.name)
  | declared {t : TableId} {table : Table} (hChain : rs.chain? c = some chain)
      (hTable : chain.table = some t) (hOwner : rs.table? t = some table) :
      rs.ChainLabelled c chain ("table: " ++ table.name ++ ", chain:" ++ " " ++ chain.name)

/-- What a rule's label can say of the chain that it names. -/
def destinationPhrases : List String :=
  ["Extension target:", "Next chain:", "Goto chain:", "Stay within chain:"]

theorem ChainLabelled.chain_eq {c : ChainId} {chain : Chain} {label : String}
    (hLabel : rs.ChainLabelled c chain label) : rs.chain? c = some chain := by
  cases hLabel with
  | extension hChain => exact hChain
  | declared hChain => exact hChain

theorem exists_chainLabelled {c : ChainId} {label : String} (hLabel : rs.chainLabel? c = some label) :
    ∃ chain, rs.ChainLabelled c chain label := by
  obtain ⟨chain, hChain, -⟩ := Option.bind_eq_some_iff.1 hLabel
  refine ⟨chain, ?_⟩
  by_cases hOutside : chain.table = none ∨ chain.isExtension = true
  · rw [chainLabel?_of_outside hChain hOutside] at hLabel
    obtain rfl := Option.some.inj hLabel
    have hText : s!"target: {chain.name}" = "target:" ++ " " ++ chain.name := by
      simp [toString]
    rw [hText]
    exact .extension hChain hOutside
  · obtain ⟨hSome, hDeclared⟩ := not_or.1 hOutside
    obtain ⟨t, hTable⟩ := Option.ne_none_iff_exists'.1 hSome
    rw [chainLabel?_of_table hChain hTable (eq_false_of_ne_true hDeclared)] at hLabel
    obtain ⟨table, hOwner, rfl⟩ := Option.map_eq_some_iff.1 hLabel
    have hText : s!"table: {table.name}, chain: {chain.name}" =
        "table: " ++ table.name ++ ", chain:" ++ " " ++ chain.name := by
      simp [toString, String.append_assoc]
    rw [hText]
    exact .declared hChain hTable hOwner

theorem exists_destinationLabel?_eq {rule : Rule} {label : String}
    (hLabel : rs.destinationLabel? rule = some label) :
    ∃ phrase ∈ destinationPhrases, ∃ c chain, rs.chain? c = some chain ∧
      label = phrase ++ " " ++ chain.name := by
  unfold destinationLabel? at hLabel
  split at hLabel
  next c _ =>
    obtain ⟨chain, hChain, hText⟩ := Option.bind_eq_some_iff.1 hLabel
    obtain rfl := Option.some.inj hText
    cases chain.isExtension with
    | true => exact ⟨"Extension target:", by decide, c, chain, hChain, by simp [toString]⟩
    | false => exact ⟨"Next chain:", by decide, c, chain, hChain, by simp [toString]⟩
  next c _ _ =>
    obtain ⟨chain, hChain, hText⟩ := Option.bind_eq_some_iff.1 hLabel
    obtain rfl := Option.some.inj hText
    exact ⟨"Goto chain:", by decide, c, chain, hChain, by simp [toString]⟩
  next =>
    obtain ⟨chain, hChain, hText⟩ := Option.bind_eq_some_iff.1 hLabel
    obtain rfl := Option.some.inj hText
    exact ⟨"Stay within chain:", by decide, rule.chain, chain, hChain, by simp [toString]⟩

/-- The label of a rule: the label of its chain, its position, a phrase and the name of a chain. -/
structure RuleLabelled (rs : Ruleset) (r : RuleId) (rule : Rule) (place phrase : String)
    (named : Chain) (label : String) : Prop where
  rule_eq : rs.rule? r = some rule
  place_eq : rs.chainLabel? rule.chain = some place
  phrase_mem : phrase ∈ destinationPhrases
  exists_named : ∃ c, rs.chain? c = some named
  label_eq : label =
    place ++ ", rule:" ++ " " ++ toString rule.position ++ "|" ++ phrase ++ " " ++ named.name

theorem exists_ruleLabelled {r : RuleId} {label : String} (hLabel : rs.ruleLabel? r = some label) :
    ∃ rule place phrase named, rs.RuleLabelled r rule place phrase named label := by
  obtain ⟨rule, hRule, hRest⟩ := Option.bind_eq_some_iff.1 hLabel
  obtain ⟨place, hPlace, hRest⟩ := Option.bind_eq_some_iff.1 hRest
  obtain ⟨destination, hDestination, hText⟩ := Option.bind_eq_some_iff.1 hRest
  obtain ⟨phrase, hPhrase, c, named, hNamed, rfl⟩ := exists_destinationLabel?_eq hDestination
  obtain rfl := Option.some.inj hText
  refine ⟨rule, place, phrase, named, hRule, hPlace, hPhrase, ⟨c, hNamed⟩, ?_⟩
  simp [toString, String.append_assoc]

end Shape

section Reading

/-! Reading labels from the end. -/

theorem bar_not_mem_of_mem_destinationPhrases :
    ∀ phrase ∈ destinationPhrases, '|' ∉ phrase.toList := by
  decide

variable (hWords : Dump.HasWordNames rs)

include hWords

theorem RuleLabelled.inj {r s : RuleId} {rule rule' : Rule} {place place' phrase phrase' : String}
    {named named' : Chain} {label : String}
    (hFirst : rs.RuleLabelled r rule place phrase named label)
    (hSecond : rs.RuleLabelled s rule' place' phrase' named' label) :
    place = place' ∧ rule.position = rule'.position := by
  obtain ⟨c, hNamed⟩ := hFirst.exists_named
  obtain ⟨d, hNamed'⟩ := hSecond.exists_named
  obtain ⟨hBeforeName, -⟩ := IsWord.append_blank_inj (hWords c named hNamed)
    (hWords d named' hNamed') (hFirst.label_eq.symm.trans hSecond.label_eq)
  have hBeforeBar : place ++ ", rule:" ++ " " ++ toString rule.position =
      place' ++ ", rule:" ++ " " ++ toString rule'.position := by
    have hBars : (place ++ ", rule:" ++ " " ++ toString rule.position).toList ++
        '|' :: phrase.toList =
      (place' ++ ", rule:" ++ " " ++ toString rule'.position).toList ++ '|' :: phrase'.toList := by
      simpa using congrArg String.toList hBeforeName
    exact String.toList_inj.1 (append_cons_inj_of_not_mem
      (bar_not_mem_of_mem_destinationPhrases phrase hFirst.phrase_mem)
      (bar_not_mem_of_mem_destinationPhrases phrase' hSecond.phrase_mem) hBars).1
  obtain ⟨hPlaces, hPositions⟩ :=
    IsWord.append_blank_inj (isWord_toString _) (isWord_toString _) hBeforeBar
  exact ⟨(String.append_left_inj _).1 hPlaces, toString_injective hPositions⟩

/-- The label of a chain of a table tells the name of the chain and of its table. -/
theorem ChainLabelled.declared_inj {c d : ChainId} {chain other : Chain} {label : String}
    (hFirst : rs.ChainLabelled c chain label) (hSecond : rs.ChainLabelled d other label)
    {t : TableId} (hTable : chain.table = some t) (hDeclared : chain.isExtension = false) :
    ∃ u first second, other.table = some u ∧ rs.table? t = some first ∧
      rs.table? u = some second ∧ first.name = second.name ∧ chain.name = other.name := by
  obtain ⟨hChain, hOutside⟩ | @⟨t', first, hChain, hTable', hOwner⟩ := hFirst
  · simp [hTable, hDeclared] at hOutside
  obtain rfl := Option.some.inj (hTable'.symm.trans hTable)
  generalize hLabel : "table: " ++ first.name ++ ", chain:" ++ " " ++ chain.name = label at hSecond
  obtain ⟨hOther, -⟩ | @⟨u, second, hOther, hOtherTable, hOtherOwner⟩ := hSecond
  · have hFronts := (IsWord.append_blank_inj (hWords c chain hChain) (hWords d other hOther) hLabel).1
    exact absurd (congrArg String.toList hFronts) (by simp)
  · obtain ⟨hFronts, hNames⟩ :=
      IsWord.append_blank_inj (hWords c chain hChain) (hWords d other hOther) hLabel
    rw [String.append_left_inj, String.append_right_inj] at hFronts
    exact ⟨u, first, second, hOtherTable, hOwner, hOtherOwner, hFronts, hNames⟩

omit hWords in
/-- No phrase of a rule's label ends as the label of a chain does before the name of the chain: where
the one has a letter, the other has a comma. -/
theorem append_comma_ne_append_phrase (front place : String) :
    ∀ phrase ∈ destinationPhrases, front ++ ", chain:" ≠ place ++ "|" ++ phrase := by
  simp only [destinationPhrases, List.forall_mem_cons]
  have hReverse {s t : String} (hSame : s = t) : s.toList.reverse = t.toList.reverse :=
    congrArg (·.toList.reverse) hSame
  refine ⟨fun h => ?_, fun h => ?_, fun h => ?_, fun h => ?_, List.forall_mem_nil _⟩
  all_goals exact absurd (hReverse h) (by simp)

/-- A chain's label is no rule's label. -/
theorem ChainLabelled.ne_ruleLabel {c : ChainId} {r : RuleId} {chain named : Chain} {rule : Rule}
    {place phrase label other : String} (hPlace : rs.ChainLabelled c chain label)
    (hRule : rs.RuleLabelled r rule place phrase named other) : label ≠ other := by
  obtain ⟨d, hNamed⟩ := hRule.exists_named
  rw [hRule.label_eq]
  intro hSame
  obtain ⟨hChain, -⟩ | ⟨hChain, -, -⟩ := hPlace
  · have hFronts :=
      (IsWord.append_blank_inj (hWords c chain hChain) (hWords d named hNamed) hSame).1
    have hBar : '|' ∈ "target:".toList := by simp [hFronts]
    exact absurd hBar (by decide)
  · have hFronts :=
      (IsWord.append_blank_inj (hWords c chain hChain) (hWords d named hNamed) hSame).1
    exact append_comma_ne_append_phrase _ _ phrase hRule.phrase_mem hFronts

end Reading

section Initials

/-! All labels of chains and rules begin with the same letter. -/

theorem ChainLabelled.head?_eq {c : ChainId} {chain : Chain} {label : String}
    (hLabel : rs.ChainLabelled c chain label) : label.toList.head? = some 't' := by
  cases hLabel <;> simp

theorem RuleLabelled.head?_eq {r : RuleId} {rule : Rule} {place phrase label : String}
    {named : Chain} (hLabel : rs.RuleLabelled r rule place phrase named label) :
    label.toList.head? = some 't' := by
  obtain ⟨chain, hPlace⟩ := exists_chainLabelled hLabel.place_eq
  have hFirst := hPlace.head?_eq
  rw [hLabel.label_eq]
  simp [hFirst]

theorem ne_rules_of_head?_eq {label : String} (hFirst : label.toList.head? = some 't')
    (other : String) : label ≠ s!"rules: {other}" := by
  rintro rfl
  simp [toString] at hFirst

end Initials

section Telling

/-- The rules of one chain have different positions. -/
theorem Consistent.rule_unique (h : rs.Consistent) {r s : RuleId} {rule rule' : Rule}
    (hRule : rs.rule? r = some rule) (hOther : rs.rule? s = some rule')
    (hChain : rule.chain = rule'.chain) (hPosition : rule.position = rule'.position) : r = s := by
  obtain ⟨chain, hOwner, hMem⟩ := h.mem_of_rule hRule
  obtain ⟨other, hOther', hMem'⟩ := h.mem_of_rule hOther
  rw [← hChain, hOwner] at hOther'
  obtain rfl := Option.some.inj hOther'
  obtain ⟨i, hAt⟩ := List.mem_iff_getElem?.1 hMem
  obtain ⟨j, hAt'⟩ := List.mem_iff_getElem?.1 hMem'
  rw [h.position_eq hOwner hAt hRule, h.position_eq hOwner hAt' hOther,
    Nat.add_right_cancel_iff] at hPosition
  rw [hPosition, hAt'] at hAt
  exact (Option.some.inj hAt).symm

/-- The label of a chain of a table belongs to no other chain. -/
theorem Consistent.chain_eq_of_label (h : rs.Consistent) (hWords : Dump.HasWordNames rs)
    {c d : ChainId} {chain : Chain} {t : TableId} {label : String}
    (hChain : rs.chain? c = some chain) (hTable : chain.table = some t)
    (hLabel : rs.chainLabel? c = some label) (hOther : rs.chainLabel? d = some label) : c = d := by
  obtain ⟨chain', hFirst⟩ := exists_chainLabelled hLabel
  obtain ⟨other, hSecond⟩ := exists_chainLabelled hOther
  obtain rfl := Option.some.inj (hChain.symm.trans hFirst.chain_eq)
  obtain ⟨u, first, second, hOtherTable, hOwner, hOtherOwner, hTables, hNames⟩ :=
    hFirst.declared_inj hWords hSecond hTable (h.isExtension_of_table hChain hTable)
  obtain rfl := h.table_unique hOwner hOtherOwner (congrArg fold hTables)
  exact h.chain_unique hChain hSecond.chain_eq hTable hOtherTable (congrArg fold hNames)

/-- Labels tell chains and rules apart where rules belong to tables and the names of chains are
words. -/
theorem Consistent.labelsTell (h : rs.Consistent) (hConfined : rs.Confined)
    (hWords : Dump.HasWordNames rs) : rs.LabelsTell where
  exists_chainLabel hChain := h.exists_chainLabel? hChain
  exists_ruleLabel hRule := h.exists_ruleLabel? hConfined.targetsExist hRule
  chain hChain hDeclared hLabel hOther := by
    have hSome := mt (h.isExtension_iff hChain).2 (ne_true_of_eq_false hDeclared)
    obtain ⟨t, hTable⟩ := Option.ne_none_iff_exists'.1 hSome
    exact h.chain_eq_of_label hWords hChain hTable hLabel hOther
  rule hLabel hOther := by
    obtain ⟨rule, place, phrase, named, hFirst⟩ := exists_ruleLabelled hLabel
    obtain ⟨rule', place', phrase', named', hSecond⟩ := exists_ruleLabelled hOther
    obtain ⟨rfl, hPosition⟩ := hFirst.inj hWords hSecond
    obtain ⟨owner, t, hOwner, hTable, -⟩ := hConfined _ rule hFirst.rule_eq
    have hChain := h.chain_eq_of_label hWords hOwner hTable hFirst.place_eq hSecond.place_eq
    exact h.rule_unique hFirst.rule_eq hSecond.rule_eq hChain hPosition
  chain_ne_rule hPlace hLabel := by
    obtain ⟨chain, hChain⟩ := exists_chainLabelled hPlace
    obtain ⟨rule, place, phrase, named, hRule⟩ := exists_ruleLabelled hLabel
    exact hChain.ne_ruleLabel hWords hRule
  chain_ne_rules hPlace _ := by
    obtain ⟨chain, hChain⟩ := exists_chainLabelled hPlace
    exact ne_rules_of_head?_eq hChain.head?_eq _
  rule_ne_rules hLabel _ := by
    obtain ⟨rule, place, phrase, named, hRule⟩ := exists_ruleLabelled hLabel
    exact ne_rules_of_head?_eq hRule.head?_eq _

end Telling

end Ruleset

namespace Dump

/-- In what has been read, chains and rules are known by their labels, whatever the tables are
called. -/
theorem labelsTell_readLines (lines : List String) : (readLines lines).ruleset.LabelsTell := by
  have hSound := sound_readLines lines
  exact hSound.built.consistent.labelsTell hSound.confined (hasWordNames_readLines lines)

/-- A table can be called what a rule's label ends in. -/
example : (readLines ["*lan, chain: A, rule: 1|Next chain: B", ":A -"]).ruleset.chainLabel? ⟨0⟩ =
    some "table: lan, chain: A, rule: 1|Next chain: B, chain: A" := by
  decide +kernel

end Dump

end PacketFlow
