import PacketFlow.Proofs.Ruleset.Growth
import PacketFlow.Ruleset.Label

/-!
What growing leaves as it was. A number once given out keeps its meaning: a rule stays as it is, and
of tables and chains only the lists grow, at their ends. So a chain or a rule that has a label keeps
it.
-/
namespace PacketFlow.Ruleset

/-- Everything in a ruleset is found in a later one under the same number. -/
structure Extends (rs later : Ruleset) : Prop where
  tableIds : rs.tableIds <+: later.tableIds
  table {t : TableId} {table : Table} (hTable : rs.table? t = some table) :
    ∃ after, later.table? t = some after ∧ after.name = table.name ∧ table.chains <+: after.chains
  chain {c : ChainId} {chain : Chain} (hChain : rs.chain? c = some chain) :
    ∃ after, later.chain? c = some after ∧ after.name = chain.name ∧
      after.policy = chain.policy ∧ after.table = chain.table ∧
      after.isExtension = chain.isExtension ∧ chain.rules <+: after.rules
  rule {r : RuleId} {rule : Rule} (hRule : rs.rule? r = some rule) : later.rule? r = some rule

variable {rs later latest : Ruleset}

namespace Extends

theorem refl (rs : Ruleset) : rs.Extends rs where
  tableIds := List.prefix_rfl
  table hTable := ⟨_, hTable, rfl, List.prefix_rfl⟩
  chain hChain := ⟨_, hChain, rfl, rfl, rfl, rfl, List.prefix_rfl⟩
  rule hRule := hRule

theorem trans (hFirst : rs.Extends later) (hSecond : later.Extends latest) : rs.Extends latest where
  tableIds := hFirst.tableIds.trans hSecond.tableIds
  table hTable := by
    obtain ⟨between, hBetween, hName, hList⟩ := hFirst.table hTable
    obtain ⟨after, hAfter, hName', hList'⟩ := hSecond.table hBetween
    exact ⟨after, hAfter, hName'.trans hName, hList.trans hList'⟩
  chain hChain := by
    obtain ⟨between, hBetween, hName, hPolicy, hOwner, hMark, hList⟩ := hFirst.chain hChain
    obtain ⟨after, hAfter, hName', hPolicy', hOwner', hMark', hList'⟩ := hSecond.chain hBetween
    exact ⟨after, hAfter, hName'.trans hName, hPolicy'.trans hPolicy, hOwner'.trans hOwner,
      hMark'.trans hMark, hList.trans hList'⟩
  rule hRule := hSecond.rule (hFirst.rule hRule)

variable (hExtends : rs.Extends later)

include hExtends

theorem chainLabel?_of_some {c : ChainId} {label : String}
    (hLabel : rs.chainLabel? c = some label) : later.chainLabel? c = some label := by
  obtain ⟨chain, hChain, -⟩ := Option.bind_eq_some_iff.1 hLabel
  obtain ⟨after, hAfter, hName, -, hOwner, hMark, -⟩ := hExtends.chain hChain
  by_cases hOutside : chain.table = none ∨ chain.isExtension = true
  · rw [chainLabel?_of_outside hChain hOutside] at hLabel
    rw [chainLabel?_of_outside hAfter (by rwa [hOwner, hMark]), hName, hLabel]
  · obtain ⟨hSome, hDeclared⟩ := not_or.1 hOutside
    obtain ⟨t, hTable⟩ := Option.ne_none_iff_exists'.1 hSome
    have hDeclared := eq_false_of_ne_true hDeclared
    rw [chainLabel?_of_table hChain hTable hDeclared] at hLabel
    rw [chainLabel?_of_table hAfter (hOwner.trans hTable) (hMark.trans hDeclared), hName]
    obtain ⟨table, hFound, rfl⟩ := Option.map_eq_some_iff.1 hLabel
    obtain ⟨afterTable, hAfterTable, hTableName, -⟩ := hExtends.table hFound
    rw [hAfterTable, Option.map_some, hTableName]

theorem destinationLabel?_of_some {rule : Rule} {label : String}
    (hLabel : rs.destinationLabel? rule = some label) :
    later.destinationLabel? rule = some label := by
  unfold destinationLabel? at hLabel ⊢
  split <;> simp only [*, Option.bind_eq_bind, Option.bind_eq_some_iff] at hLabel ⊢
  all_goals
    obtain ⟨chain, hChain, hLabel⟩ := hLabel
    obtain ⟨after, hAfter, hName, -, -, hMark, -⟩ := hExtends.chain hChain
    exact ⟨after, hAfter, by simpa only [hName, hMark] using hLabel⟩

theorem ruleLabel?_of_some {r : RuleId} {label : String} (hLabel : rs.ruleLabel? r = some label) :
    later.ruleLabel? r = some label := by
  simp only [ruleLabel?, Option.bind_eq_bind, Option.bind_eq_some_iff] at hLabel ⊢
  obtain ⟨rule, hRule, place, hPlace, destination, hDestination, hLabel⟩ := hLabel
  exact ⟨rule, hExtends.rule hRule, place, hExtends.chainLabel?_of_some hPlace, destination,
    hExtends.destinationLabel?_of_some hDestination, hLabel⟩

end Extends

/-- Nothing that is there is lost or changed when something is added. -/
theorem Grows.extends (hGrows : rs.Grows later) : rs.Extends later := by
  cases hGrows with
  | table hFree =>
      exact { Extends.refl rs with
        tableIds := (List.prefix_append _ _).map _
        table := fun hTable => ⟨_, table?_withTable_of_some hTable, rfl, List.prefix_rfl⟩ }
  | extension name =>
      exact { Extends.refl rs with
        chain := fun hChain =>
          ⟨_, chain?_withExtension_of_some hChain, rfl, rfl, rfl, rfl, List.prefix_rfl⟩ }
  | chain policy hOwner hFree =>
      exact { Extends.refl rs with
        table := fun hTable => ⟨_, table?_withChain_of_some hTable, rfl, List.prefix_append ..⟩
        chain := fun hChain =>
          ⟨_, chain?_withChain_of_some hChain, rfl, rfl, rfl, rfl, List.prefix_rfl⟩ }
  | rule body hOwner =>
      exact { Extends.refl rs with
        chain := fun hChain =>
          ⟨_, chain?_withRule_of_some hChain, rfl, rfl, rfl, rfl, List.prefix_append ..⟩
        rule := fun hRule => rule?_withRule_of_some hRule }

end PacketFlow.Ruleset
