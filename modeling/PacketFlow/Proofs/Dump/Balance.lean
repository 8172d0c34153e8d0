import Mathlib.Data.List.Dedup
import PacketFlow.Proofs.Dump.Step
import PacketFlow.Proofs.Ruleset.Summary

/-!
No line that asks for something is lost. Each rule line has become a rule or a warning, each chain
declaration a chain or a warning, and each name of a table is the name of one table. So the lines of
a dump can be counted out against what has been read from it.
-/
namespace PacketFlow

namespace Dump

/-- The fault of a rule line that has been passed over. -/
def Fault.dropsRule : Fault → Bool
  | missingAppendChain => true
  | noCurrentTable directive => "-A".toList.isPrefixOf directive.toList
  | unknownChain .. => true
  | _ => false

/-- The fault of a chain declaration that has been passed over. -/
def Fault.dropsChain : Fault → Bool
  | noCurrentTable directive => ":".toList.isPrefixOf directive.toList
  | malformedChain => true
  | duplicateChain .. => true
  | _ => false

theorem begins_chain_iff {line : String} :
    Begins ":" line ↔ ∃ name? policy, Directive.ofLine line = .declareChain name? policy := by
  simp only [Directive.ofLine, Begins]
  generalize (Text.trim line).toList = cs
  split
  · simp
  next declaration =>
    refine iff_of_true ⟨declaration, rfl⟩ ?_
    unfold Directive.ofDeclaration
    split
    · exact ⟨_, _, rfl⟩
    · exact ⟨_, _, rfl⟩
    · exact ⟨_, _, rfl⟩
  · simp
  next hChain _ =>
    simp only [reduceCtorEq, exists_false, iff_false]
    rintro ⟨rest, hList⟩
    exact hChain rest hList.symm

theorem begins_rule_iff {line : String} :
    Begins "-A" line ↔ ∃ rule, Directive.ofLine line = .appendRule rule := by
  simp only [Directive.ofLine, Begins]
  generalize (Text.trim line).toList = cs
  split
  · simp
  · unfold Directive.ofDeclaration
    split <;> simp
  next rest => exact iff_of_true ⟨rest, rfl⟩ ⟨_, rfl⟩
  next hRule =>
    simp only [reduceCtorEq, exists_false, iff_false]
    rintro ⟨rest, hList⟩
    exact hRule rest hList.symm

namespace Session

variable {s next : Session} {line : String}

/-- The rules and the rule lines that have been passed over, counted. -/
def ruleBalance (s : Session) : Nat :=
  s.ruleset.rules.size + s.warnings.toList.countP (·.fault.dropsRule)

/-- The chains of tables and the declarations that have been passed over, counted. -/
def chainBalance (s : Session) : Nat :=
  s.ruleset.chainCount + s.warnings.toList.countP (·.fault.dropsChain)

theorem Refuses.dropsRule_iff {fault : Fault} (hFault : s.Refuses (.ofLine line) fault) :
    fault.dropsRule = true ↔ Begins "-A" line := by
  rw [begins_rule_iff]
  generalize Directive.ofLine line = directive at hFault
  cases hFault <;> simp [Fault.dropsRule, toString]

theorem Refuses.dropsChain_iff {fault : Fault} (hFault : s.Refuses (.ofLine line) fault) :
    fault.dropsChain = true ↔ Begins ":" line := by
  rw [begins_chain_iff]
  generalize Directive.ofLine line = directive at hFault
  cases hFault <;> simp [Fault.dropsChain, toString]

/-- Warnings about targets are not about lines that are passed over. -/
theorem countP_targets_eq_zero (drops : Fault → Bool)
    (hDrops : ∀ table transfer target, drops (.unresolvedTarget table transfer target) = false)
    (number : Nat) (table : String) (lost : List (Transfer × String)) :
    (lost.map fun target => (⟨number, .unresolvedTarget table target.1 target.2⟩ : Warning)).countP
      (drops ·.fault) = 0 := by
  rw [List.countP_eq_zero, List.forall_mem_map]
  intro target _
  simp only [hDrops, Bool.false_eq_true, not_false_eq_true]

theorem Reads.ruleBalance_eq (hReads : s.Reads line next) :
    next.ruleBalance = s.ruleBalance + if Begins "-A" line then 1 else 0 := by
  cases hReads with
  | passed hMarks =>
      rw [if_neg (hMarks "-A" (by simp [marks]))]
      rfl
  | refused hFault =>
      simp only [ruleBalance, Array.toList_push, List.countP_append, List.countP_singleton,
        hFault.dropsRule_iff]
      omega
  | opened hLine hTable =>
      rw [if_neg (by simp [begins_rule_iff, hLine])]
      rcases hTable with ⟨-, rfl⟩ | ⟨-, -, rfl⟩
      · rfl
      · rfl
  | declared hLine =>
      rw [if_neg (by simp [begins_rule_iff, hLine])]
      rfl
  | appended hLine =>
      rw [if_pos (begins_rule_iff.2 ⟨_, hLine⟩)]
      simp only [ruleBalance, Ruleset.withRule, RuleLine.rules_ready, Array.size_push,
        Array.toList_append, List.countP_append,
        countP_targets_eq_zero Fault.dropsRule fun _ _ _ => rfl]
      omega

theorem Reads.chainBalance_eq (hReads : s.Reads line next) :
    next.chainBalance = s.chainBalance + if Begins ":" line then 1 else 0 := by
  cases hReads with
  | passed hMarks =>
      rw [if_neg (hMarks ":" (by simp [marks]))]
      rfl
  | refused hFault =>
      simp only [chainBalance, Array.toList_push, List.countP_append, List.countP_singleton,
        hFault.dropsChain_iff]
      omega
  | opened hLine hTable =>
      rw [if_neg (by simp [begins_chain_iff, hLine])]
      rcases hTable with ⟨-, rfl⟩ | ⟨-, -, rfl⟩
      · rfl
      · simp [chainBalance, Ruleset.chainCount_withTable]
  | declared hLine hOpen hFree =>
      obtain ⟨-, hTable⟩ := openTable?_eq_some_iff.1 hOpen
      rw [if_pos (begins_chain_iff.2 ⟨_, _, hLine⟩)]
      simp only [chainBalance, Ruleset.chainCount_withChain _ _ hTable]
      omega
  | appended hLine =>
      rw [if_neg (by simp [begins_chain_iff, hLine])]
      simp only [chainBalance, Ruleset.chainCount, Ruleset.withRule, RuleLine.tables_ready,
        Array.toList_append, List.countP_append,
        countP_targets_eq_zero Fault.dropsChain fun _ _ _ => rfl]
      omega

end Session

/-- What grows by one with each line of a sort counts the lines of that sort. -/
theorem countP_begins_eq {mark : String} (balance : Session → Nat) (hStart : balance .start = 0)
    (hStep : ∀ {s next : Session} {line : String}, s.Reads line next →
      balance next = balance s + if Begins mark line then 1 else 0) (lines : List String) :
    lines.countP (Begins mark ·) = balance (readLines lines) := by
  induction lines using List.reverseRecOn with
  | nil => exact hStart.symm
  | append_singleton lines line ih =>
      rw [List.countP_append, ih, hStep (reads_readLines lines line), List.countP_singleton]
      simp only [decide_eq_true_eq]

/-- A key that a line gives is some name in small letters. -/
theorem exists_fold_of_namedTable? {line key : String} (hNamed : namedTable? line = some key) :
    ∃ name, Text.fold name = key := by
  rw [← opened?_ofLine] at hNamed
  obtain ⟨name, -, hKey⟩ := exists_of_opened?_eq_some hNamed
  exact ⟨name, hKey⟩

/-- The tables of a dump have different names, and these are the names that its lines give. -/
theorem perm_namedTables (lines : List String) :
    ((readLines lines).ruleset.tables.toList.map fun table => Text.fold table.name).Perm
      (lines.filterMap namedTable?).dedup := by
  have h := (sound_readLines lines).built.consistent
  have hNodup := h.names_nodup
  rw [List.perm_ext_iff_of_nodup hNodup (List.nodup_dedup _)]
  intro key
  rw [List.mem_dedup]
  constructor
  · intro hMem
    obtain ⟨table, hTable, rfl⟩ := List.mem_map.1 hMem
    rw [← isSome_tableNamed?_readLines, h.isSome_tableNamed?_iff]
    exact hMem
  · intro hMem
    obtain ⟨line, -, hNamed⟩ := List.mem_filterMap.1 hMem
    obtain ⟨name, rfl⟩ := exists_fold_of_namedTable? hNamed
    rwa [← h.isSome_tableNamed?_iff, isSome_tableNamed?_readLines]

theorem size_tables_readLines (lines : List String) :
    (readLines lines).ruleset.tables.size = (lines.filterMap namedTable?).dedup.length := by
  rw [← (perm_namedTables lines).length_eq, List.length_map, Array.length_toList]

/-- No line that asks for something is lost without a trace. Each rule line is a rule or a warning
about a rule, each line that declares a chain is a chain or a warning about a chain, there are as
many tables as names of tables, and a summary counts all rules. -/
theorem directives_accounted_for (lines : List String) :
    lines.countP (Begins "-A" ·) = (readLines lines).ruleset.rules.size +
        (readLines lines).warnings.toList.countP (·.fault.dropsRule) ∧
      lines.countP (Begins ":" ·) = (readLines lines).ruleset.chainCount +
        (readLines lines).warnings.toList.countP (·.fault.dropsChain) ∧
      (readLines lines).ruleset.tables.size = (lines.filterMap namedTable?).dedup.length ∧
      ∃ tables, (readLines lines).ruleset.summary? = some tables ∧
        (tables.map TableSummary.ruleCount).sum = (readLines lines).ruleset.rules.size := by
  have hSound := sound_readLines lines
  refine ⟨?_, ?_, size_tables_readLines lines,
    hSound.built.consistent.sum_ruleCount hSound.confined⟩
  · exact countP_begins_eq Session.ruleBalance rfl Session.Reads.ruleBalance_eq lines
  · exact countP_begins_eq Session.chainBalance rfl Session.Reads.chainBalance_eq lines

end Dump

end PacketFlow
