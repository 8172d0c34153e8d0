import PacketFlow.Proofs.Dump.Step

/-!
Reading on. What has been read is never taken back: a line adds at the ends of lists, and all that was
there keeps its number and its meaning. So a target that was found stays where it is, and one that was
missed stays missed, whatever is declared after it.
-/
namespace PacketFlow

namespace Dump

namespace Session

variable {s next later latest : Session} {line : String}

/-- Warnings are only added behind the others, and those that are added are about lines read since. -/
structure WarnsOn (s later : Session) : Prop where
  line_le : s.line ≤ later.line
  warnings : ∃ added, later.warnings.toList = s.warnings.toList ++ added ∧
    ∀ w ∈ added, s.line < w.line

namespace WarnsOn

theorem refl (s : Session) : s.WarnsOn s where
  line_le := Nat.le_refl _
  warnings := ⟨[], (List.append_nil _).symm, List.forall_mem_nil _⟩

theorem trans (hFirst : s.WarnsOn later) (hSecond : later.WarnsOn latest) : s.WarnsOn latest where
  line_le := Nat.le_trans hFirst.line_le hSecond.line_le
  warnings := by
    obtain ⟨first, hWarnings, hLines⟩ := hFirst.warnings
    obtain ⟨second, hWarnings', hLines'⟩ := hSecond.warnings
    refine ⟨first ++ second, ?_, List.forall_mem_append.2 ⟨hLines, fun w hMem => ?_⟩⟩
    · rw [hWarnings', hWarnings, List.append_assoc]
    · exact Nat.lt_of_le_of_lt hFirst.line_le (hLines' w hMem)

end WarnsOn

theorem Reads.warnsOn (hReads : s.Reads line next) : s.WarnsOn next where
  line_le := by
    rw [hReads.line_eq]
    exact Nat.le_succ _
  warnings := by
    obtain ⟨faults, hWarnings⟩ := hReads.exists_warnings_eq
    refine ⟨faults.map (Warning.mk next.line), by rw [hWarnings, Array.toList_append], ?_⟩
    refine List.forall_mem_map.2 fun fault _ => ?_
    show s.line < next.line
    rw [hReads.line_eq]
    exact Nat.lt_succ_self _

/-- All that a session holds is found in a later one: tables, chains and rules under their numbers and
as they were, but for lists that are longer at their ends, targets at the chains that they led to, and
warnings in front of those about later lines. -/
structure Keeps (s later : Session) : Prop where
  tables : s.ruleset.tableIds <+: later.ruleset.tableIds
  table {t : TableId} {table : Table} (hTable : s.ruleset.table? t = some table) :
    ∃ after, later.ruleset.table? t = some after ∧ after.name = table.name ∧
      table.chains <+: after.chains
  chain {c : ChainId} {chain : Chain} (hChain : s.ruleset.chain? c = some chain) :
    ∃ after, later.ruleset.chain? c = some after ∧ after.name = chain.name ∧
      after.policy = chain.policy ∧ after.table = chain.table ∧
      after.isExtension = chain.isExtension ∧ chain.rules <+: after.rules
  rule {r : RuleId} {rule : Rule} (hRule : s.ruleset.rule? r = some rule) :
    later.ruleset.rule? r = some rule
  target {r : RuleId} {rule : Rule} {transfer : Transfer} {c : ChainId}
    (hRule : s.ruleset.rule? r = some rule) (hTarget : rule.target? transfer = some c) :
    ∃ chain after, s.ruleset.chain? c = some chain ∧ later.ruleset.chain? c = some after ∧
      after.name = chain.name ∧ after.table = chain.table
  noTarget {r : RuleId} {rule : Rule} {transfer : Transfer}
    (hRule : s.ruleset.rule? r = some rule) (hMissing : rule.target? transfer = none) :
    ∃ after, later.ruleset.rule? r = some after ∧ after.target? transfer = none
  warnings : ∃ added, later.warnings.toList = s.warnings.toList ++ added ∧
    ∀ w ∈ added, s.line < w.line

theorem Sound.keeps (hSound : s.Sound) (hExtends : s.ruleset.Extends later.ruleset)
    (hWarns : s.WarnsOn later) : s.Keeps later where
  tables := hExtends.tableIds
  table := hExtends.table
  chain hChain := by
    obtain ⟨after, hAfter, hName, hPolicy, hOwner, hRules⟩ := hExtends.chain hChain
    exact ⟨after, hAfter, hName, hPolicy, hOwner, hRules⟩
  rule := hExtends.rule
  target hRule hTarget := by
    obtain ⟨chain, hChain⟩ := hSound.confined.targetsExist _ _ hRule _ _ hTarget
    obtain ⟨after, hAfter, hName, -, hOwner, -⟩ := hExtends.chain hChain
    exact ⟨chain, after, hChain, hAfter, hName, hOwner⟩
  noTarget hRule hMissing := ⟨_, hExtends.rule hRule, hMissing⟩
  warnings := hWarns.warnings

end Session

theorem warnsOn_readLines_append (lines more : List String) :
    (readLines lines).WarnsOn (readLines (lines ++ more)) :=
  rel_readLines_append .refl .trans Session.Reads.warnsOn lines more

/-- Whatever lines are read after others, all that was read before is kept: the tables, the chains and
the rules in their order and under their numbers, with all that was said of them, and the warnings. No
later declaration gives a rule a target that it missed, or leads it elsewhere. -/
theorem keeps_readLines_append (lines more : List String) :
    (readLines lines).Keeps (readLines (lines ++ more)) :=
  (sound_readLines lines).keeps (extends_readLines_append lines more)
    (warnsOn_readLines_append lines more)

end Dump

end PacketFlow
