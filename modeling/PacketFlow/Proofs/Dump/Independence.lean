import PacketFlow.Proofs.Dump.Ownership
import PacketFlow.Proofs.Ruleset.Listing

/-!
The independence of tables. A table says after a dump what it says after its own lines alone: it has
the same chains, in the same order, with the same rules, whose targets are of the same sort and have
the same names. Only the numbers differ.
-/
namespace PacketFlow

namespace Ruleset

variable (rs rs' : Ruleset) (t t' : TableId)

/-- Two targets of one sort and one name: extensions, or chains of the two tables. -/
def SameTarget (c c' : ChainId) : Prop :=
  ∃ chain chain', rs.chain? c = some chain ∧ rs'.chain? c' = some chain' ∧
    chain.name = chain'.name ∧
      ((chain.isExtension = true ∧ chain'.isExtension = true) ∨
        (chain.table = some t ∧ chain'.table = some t'))

/-- Two rules in the same position that say the same. -/
structure SameRule (rule rule' : Rule) : Prop where
  position : rule.position = rule'.position
  comment : rule.comment = rule'.comment
  protocol : rule.protocol = rule'.protocol
  source : rule.source = rule'.source
  destination : rule.destination = rule'.destination
  inInterface : rule.inInterface = rule'.inInterface
  outInterface : rule.outInterface = rule'.outInterface
  jump : Option.Rel (rs.SameTarget rs' t t') rule.jump rule'.jump
  goto : Option.Rel (rs.SameTarget rs' t t') rule.goto rule'.goto

/-- Two chains of one name and one policy, whose rules in order say the same. -/
def SameChain (c c' : ChainId) : Prop :=
  ∃ chain chain', rs.chain? c = some chain ∧ rs'.chain? c' = some chain' ∧
    chain.name = chain'.name ∧ chain.policy = chain'.policy ∧
      List.Forall₂ (fun r r' => ∃ rule rule', rs.rule? r = some rule ∧ rs'.rule? r' = some rule' ∧
        rs.SameRule rs' t t' rule rule') chain.rules chain'.rules

/-- Two tables of one name, whose chains in order say the same. -/
def SameTable : Prop :=
  ∃ table table', rs.table? t = some table ∧ rs'.table? t' = some table' ∧
    table.name = table'.name ∧
      List.Forall₂ (rs.SameChain rs' t t') table.chains table'.chains

variable {rs rs' t t'}

/-- Targets of one name and sort, of rules that stay within the tables, are the same. -/
theorem sameTarget_of_destination? (h : rs.Consistent) (h' : rs'.Consistent) (transfer : Transfer) {body body' : RuleBody}
    (hWithin : rs.KeepsWithin t body) (hWithin' : rs'.KeepsWithin t' body')
    (hSame : (body.target? transfer).bind rs.destination? =
      (body'.target? transfer).bind rs'.destination?) :
    Option.Rel (rs.SameTarget rs' t t') (body.target? transfer) (body'.target? transfer) := by
  cases hTarget : body.target? transfer with
  | none =>
      cases hTarget' : body'.target? transfer with
      | none => exact .none
      | some c' =>
          obtain ⟨chain', hChain', -⟩ := hWithin' transfer c' hTarget'
          simp [hTarget, hTarget', destination?, hChain'] at hSame
  | some c =>
      obtain ⟨chain, hChain, hPlace⟩ := hWithin transfer c hTarget
      cases hTarget' : body'.target? transfer with
      | none => simp [hTarget, hTarget', destination?, hChain] at hSame
      | some c' =>
          obtain ⟨chain', hChain', hPlace'⟩ := hWithin' transfer c' hTarget'
          simp only [hTarget, hTarget', destination?, hChain, hChain', Option.bind_some,
            Option.map_some, Option.some.injEq] at hSame
          refine .some ⟨chain, chain', hChain, hChain', ?_, ?_⟩
          · split at hSame <;> split at hSame <;> simp_all
          · rcases hPlace with hOwner | ⟨-, hExtension⟩
            · rcases hPlace' with hOwner' | ⟨-, hExtension'⟩
              · exact Or.inr ⟨hOwner, hOwner'⟩
              · simp [h.isExtension_of_table hChain hOwner, hExtension'] at hSame
            · rcases hPlace' with hOwner' | ⟨-, hExtension'⟩
              · simp [h'.isExtension_of_table hChain' hOwner', hExtension] at hSame
              · exact Or.inl ⟨hExtension, hExtension'⟩

theorem sameRule_of_content_eq (h : rs.Consistent) (h' : rs'.Consistent) {rule rule' : Rule}
    (hWithin : rs.KeepsWithin t rule.toRuleBody) (hWithin' : rs'.KeepsWithin t' rule'.toRuleBody)
    (hSame : rs.ruleContent rule = rs'.ruleContent rule') : rs.SameRule rs' t t' rule rule' where
  position := congrArg RuleContent.position hSame
  comment := congrArg RuleContent.comment hSame
  protocol := congrArg RuleContent.protocol hSame
  source := congrArg RuleContent.source hSame
  destination := congrArg RuleContent.destination hSame
  inInterface := congrArg RuleContent.inInterface hSame
  outInterface := congrArg RuleContent.outInterface hSame
  jump := sameTarget_of_destination? h h' .jump hWithin hWithin'
    (congrArg RuleContent.jump hSame)
  goto := sameTarget_of_destination? h h' .goto hWithin hWithin'
    (congrArg RuleContent.goto hSame)

/-- Two lists that are related to one list, element by element, are related to each other. -/
theorem forall₂_of_common {α β γ : Type} {R : α → γ → Prop} {R' : β → γ → Prop} {xs : List α}
    {ys : List β} {zs : List γ} (hFirst : List.Forall₂ R xs zs) (hSecond : List.Forall₂ R' ys zs) :
    List.Forall₂ (fun x y => ∃ z, R x z ∧ R' y z) xs ys := by
  induction hFirst generalizing ys with
  | nil =>
      cases hSecond
      exact .nil
  | cons hHead hTail ih =>
      cases hSecond with
      | cons hHead' hTail' => exact .cons ⟨_, hHead, hHead'⟩ (ih hTail')

theorem Confined.keepsWithin (hConfined : rs.Confined) {r : RuleId} {rule : Rule} {owner : Chain}
    (hRule : rs.rule? r = some rule) (hOwner : rs.chain? rule.chain = some owner)
    (hTable : owner.table = some t) : rs.KeepsWithin t rule.toRuleBody := by
  obtain ⟨found, u, hFound, hFoundTable, hWithin⟩ := hConfined r rule hRule
  obtain rfl := Option.some.inj (hFound.symm.trans hOwner)
  rwa [Option.some.inj (hTable.symm.trans hFoundTable)]

section Content

variable (h : rs.Consistent) (h' : rs'.Consistent) (hConfined : rs.Confined)
  (hConfined' : rs'.Confined)

include h h' hConfined hConfined'

theorem sameChain_of_content_eq {c c' : ChainId} {chain chain' : Chain}
    (hChain : rs.chain? c = some chain) (hChain' : rs'.chain? c' = some chain')
    (hOwner : chain.table = some t) (hOwner' : chain'.table = some t')
    (hSame : rs.chainContent chain = rs'.chainContent chain') : rs.SameChain rs' t t' c c' := by
  have hRules := h.rules_chainContent hChain
  rw [hSame] at hRules
  refine ⟨chain, chain', hChain, hChain', congrArg ChainContent.name hSame,
    congrArg ChainContent.policy hSame, ?_⟩
  have hPaired := forall₂_of_common hRules (h'.rules_chainContent hChain')
  rw [List.forall₂_iff_get] at hPaired ⊢
  refine ⟨hPaired.1, fun i hLess hLess' => ?_⟩
  obtain ⟨content, ⟨rule, hRule, hContent⟩, rule', hRule', hContent'⟩ := hPaired.2 i hLess hLess'
  obtain rfl : rule.chain = c :=
    (h.mem_rules_iff hRule hChain).1 (List.getElem_mem hLess)
  obtain rfl : rule'.chain = c' :=
    (h'.mem_rules_iff hRule' hChain').1 (List.getElem_mem hLess')
  exact ⟨rule, rule', hRule, hRule', sameRule_of_content_eq h h'
    (hConfined.keepsWithin hRule hChain hOwner) (hConfined'.keepsWithin hRule' hChain' hOwner')
    (hContent.trans hContent'.symm)⟩

theorem sameTable_of_content_eq {table table' : Table} (hTable : rs.table? t = some table)
    (hTable' : rs'.table? t' = some table')
    (hSame : rs.tableContent table = rs'.tableContent table') : rs.SameTable rs' t t' := by
  have hChains := h.chains_tableContent hTable
  rw [hSame] at hChains
  refine ⟨table, table', hTable, hTable', congrArg TableContent.name hSame, ?_⟩
  have hPaired := forall₂_of_common hChains (h'.chains_tableContent hTable')
  rw [List.forall₂_iff_get] at hPaired ⊢
  refine ⟨hPaired.1, fun i hLess hLess' => ?_⟩
  obtain ⟨content, ⟨chain, hChain, hContent⟩, chain', hChain', hContent'⟩ :=
    hPaired.2 i hLess hLess'
  exact sameChain_of_content_eq h h' hConfined hConfined' hChain hChain'
    ((h.mem_chains_iff hChain hTable).1 (List.getElem_mem hLess))
    ((h'.mem_chains_iff hChain' hTable').1 (List.getElem_mem hLess'))
    (hContent.trans hContent'.symm)

end Content

end Ruleset

namespace Dump

/-- Every table that a dump names says after the dump what it says after its own lines alone. -/
theorem sameTable_ownedLines {lines : List String} {name : String}
    (hNamed : Text.fold name ∈ lines.filterMap namedTable?) :
    ∃ t t', (readLines lines).ruleset.tableNamed? name = some t ∧
      (readLines (ownedLines (Text.fold name) lines)).ruleset.tableNamed? name = some t' ∧
      (readLines lines).ruleset.SameTable
        (readLines (ownedLines (Text.fold name) lines)).ruleset t t' := by
  have hSound := sound_readLines lines
  have hSound' := sound_readLines (ownedLines (Text.fold name) lines)
  obtain ⟨t, hFound⟩ :=
    Option.isSome_iff_exists.1 ((isSome_tableNamed?_readLines lines name).2 hNamed)
  obtain ⟨table, hTable, hName⟩ := hSound.built.consistent.fold_eq_of_tableNamed?_eq_some hFound
  have hContent := contentNamed?_readLines (ownedLines (Text.fold name) lines) name
  rw [ownedLines_ownedLines, ← contentNamed?_readLines,
    hSound.built.consistent.contentNamed?_eq_tableContent hTable hName,
    Ruleset.contentNamed?, Option.bind_eq_some_iff] at hContent
  obtain ⟨t', hFound', hContent⟩ := hContent
  obtain ⟨table', hTable', hSame⟩ := Ruleset.content?_eq_some_iff.1 hContent
  exact ⟨t, t', hFound, hFound', Ruleset.sameTable_of_content_eq hSound.built.consistent
    hSound'.built.consistent hSound.confined hSound'.confined hTable hTable' hSame.symm⟩

/-- A dump that opens a table again in other letters. By then other tables have taken numbers, and so
has the extension of a rule. -/
def reopened : List String :=
  ["*nat", ":OUTPUT ACCEPT", "-A OUTPUT -j SNAT", "*filter", ":INPUT DROP", "*raw", "*Filter",
    "-A input -j LOG -g INPUT"]

theorem sameTable_ownedLines_reopened :
    Text.fold "FILTER" ∈ reopened.filterMap namedTable? ∧
      ∃ t t', (readLines reopened).ruleset.tableNamed? "FILTER" = some t ∧
        (readLines (ownedLines (Text.fold "FILTER") reopened)).ruleset.tableNamed? "FILTER" =
          some t' ∧
        (readLines reopened).ruleset.SameTable
          (readLines (ownedLines (Text.fold "FILTER") reopened)).ruleset t t' := by
  have hNames : reopened.filterMap namedTable? = ["nat", "filter", "raw", "filter"] := by
    decide +kernel
  have hName : Text.fold "FILTER" = "filter" := by decide +kernel
  have hNamed : Text.fold "FILTER" ∈ reopened.filterMap namedTable? := by
    rw [hNames, hName]
    decide
  exact ⟨hNamed, sameTable_ownedLines hNamed⟩

end Dump

end PacketFlow
