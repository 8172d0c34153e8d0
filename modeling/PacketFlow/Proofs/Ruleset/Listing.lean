import PacketFlow.Proofs.Ruleset.Naming
import PacketFlow.Proofs.Ruleset.Persistence

/-!
What is listed where. Whatever is asked for, and whether or not it is refused, every table, chain and
rule stands exactly once in the list that it belongs to and in no other list, lists are in order of
creation, and every number that is stored anywhere is in use. Tables are listed by the index, which
has one more entry for each table that is new.
-/
namespace PacketFlow.Ruleset

variable {rs : Ruleset}

/-- Tables, chains and rules are listed where they belong, and nowhere else. -/
structure Listed (rs : Ruleset) : Prop where
  tables_increasing : rs.tableIds.Pairwise (·.index < ·.index)
  mem_tableIds (t : TableId) : t ∈ rs.tableIds ↔ ∃ table, rs.table? t = some table
  tables_distinct : rs.tables.toList.Pairwise fun first second =>
    Text.sameName first.name second.name = false
  chains_increasing {t : TableId} {table : Table} (hTable : rs.table? t = some table) :
    table.chains.Pairwise (·.index < ·.index)
  chains_distinct {t : TableId} {table : Table} (hTable : rs.table? t = some table) :
    table.chains.Pairwise fun c d => ∃ first second, rs.chain? c = some first ∧
      rs.chain? d = some second ∧ Text.sameName first.name second.name = false
  isExtension_iff {c : ChainId} {chain : Chain} (hChain : rs.chain? c = some chain) :
    chain.isExtension = true ↔ chain.table = none
  /-- An extension names no table, so no table lists it. -/
  count_chain {c : ChainId} {chain : Chain} {t : TableId} {table : Table}
    (hChain : rs.chain? c = some chain) (hTable : rs.table? t = some table) :
    table.chains.count c = if chain.table = some t then 1 else 0
  count_rule {r : RuleId} {rule : Rule} {c : ChainId} {chain : Chain}
    (hRule : rs.rule? r = some rule) (hChain : rs.chain? c = some chain) :
    chain.rules.count r = if rule.chain = c then 1 else 0
  getElem?_position {r : RuleId} {rule : Rule} (hRule : rs.rule? r = some rule) :
    ∃ chain, rs.chain? rule.chain = some chain ∧ 0 < rule.position ∧
      chain.rules[rule.position - 1]? = some r
  chain_of_mem {t : TableId} {table : Table} {c : ChainId} (hTable : rs.table? t = some table)
    (hMem : c ∈ table.chains) : ∃ chain, rs.chain? c = some chain
  rule_of_mem {c : ChainId} {chain : Chain} {r : RuleId} (hChain : rs.chain? c = some chain)
    (hMem : r ∈ chain.rules) : ∃ rule, rs.rule? r = some rule
  table_of_chain {c : ChainId} {chain : Chain} {t : TableId} (hChain : rs.chain? c = some chain)
    (hOwner : chain.table = some t) : ∃ table, rs.table? t = some table

namespace Consistent

variable (h : rs.Consistent)

include h

theorem tables_distinct :
    rs.tables.toList.Pairwise fun first second =>
      Text.sameName first.name second.name = false := by
  rw [List.pairwise_iff_getElem]
  intro i j hi hj hLess
  rw [Bool.eq_false_iff]
  intro hSame
  have hFirst : rs.table? ⟨i⟩ = some rs.tables.toList[i] := by simp_all [table?]
  have hSecond : rs.table? ⟨j⟩ = some rs.tables.toList[j] := by simp_all [table?]
  have hNumber := h.table_unique hFirst hSecond (Text.sameName_iff.1 hSame)
  rw [TableId.mk.injEq] at hNumber
  omega

theorem names_nodup : (rs.tables.toList.map fun table => Text.fold table.name).Nodup := by
  apply List.pairwise_map.2
  apply h.tables_distinct.imp
  intro first second hDistinct hSame
  rw [Text.sameName_iff.2 hSame] at hDistinct
  cases hDistinct

theorem chains_distinct {t : TableId} {table : Table} (hTable : rs.table? t = some table) :
    table.chains.Pairwise fun c d => ∃ first second, rs.chain? c = some first ∧
      rs.chain? d = some second ∧ Text.sameName first.name second.name = false := by
  apply (h.chains_nodup hTable).imp_of_mem
  intro c d hFirst hSecond hDistinct
  obtain ⟨first, hChain, hOwner⟩ := h.chain_of_mem hTable hFirst
  obtain ⟨second, hChain', hOwner'⟩ := h.chain_of_mem hTable hSecond
  refine ⟨first, second, hChain, hChain', Bool.eq_false_iff.2 fun hSame => hDistinct ?_⟩
  exact h.chain_unique hChain hChain' hOwner hOwner' (Text.sameName_iff.1 hSame)

theorem mem_chains_iff {c : ChainId} {chain : Chain} {t : TableId} {table : Table}
    (hChain : rs.chain? c = some chain) (hTable : rs.table? t = some table) :
    c ∈ table.chains ↔ chain.table = some t := by
  constructor
  · intro hMem
    obtain ⟨found, hFound, hOwner⟩ := h.chain_of_mem hTable hMem
    rwa [Option.some.inj (hChain.symm.trans hFound)]
  · intro hOwner
    obtain ⟨found, hFound, hMem⟩ := h.mem_of_chain hChain hOwner
    rwa [Option.some.inj (hTable.symm.trans hFound)]

theorem mem_rules_iff {r : RuleId} {rule : Rule} {c : ChainId} {chain : Chain}
    (hRule : rs.rule? r = some rule) (hChain : rs.chain? c = some chain) :
    r ∈ chain.rules ↔ rule.chain = c := by
  constructor
  · intro hMem
    obtain ⟨found, hFound, hOwner⟩ := h.rule_of_mem hChain hMem
    rwa [Option.some.inj (hRule.symm.trans hFound)]
  · rintro rfl
    obtain ⟨found, hFound, hMem⟩ := h.mem_of_rule hRule
    rwa [Option.some.inj (hChain.symm.trans hFound)]

/-- A rule's position, counted from one, is its place in the list of its chain. -/
theorem getElem?_position {r : RuleId} {rule : Rule} (hRule : rs.rule? r = some rule) :
    ∃ chain, rs.chain? rule.chain = some chain ∧ 0 < rule.position ∧
      chain.rules[rule.position - 1]? = some r := by
  obtain ⟨chain, hChain, hMem⟩ := h.mem_of_rule hRule
  obtain ⟨i, hAt⟩ := List.mem_iff_getElem?.1 hMem
  have hPosition := h.position_eq hChain hAt hRule
  exact ⟨chain, hChain, by omega, by rwa [hPosition, Nat.add_sub_cancel]⟩

theorem listed : rs.Listed where
  tables_increasing := by
    rw [h.tableIds_eq]
    exact List.pairwise_map.2 List.pairwise_lt_range
  mem_tableIds _ := h.mem_tableIds_iff
  tables_distinct := h.tables_distinct
  chains_increasing := h.chains_increasing
  chains_distinct := h.chains_distinct
  isExtension_iff := h.isExtension_iff
  count_chain hChain hTable := by
    rw [(h.chains_nodup hTable).count]
    simp only [h.mem_chains_iff hChain hTable]
  count_rule hRule hChain := by
    rw [(h.rules_nodup hChain).count]
    simp only [h.mem_rules_iff hRule hChain]
  getElem?_position := h.getElem?_position
  chain_of_mem hTable hMem := (h.chain_of_mem hTable hMem).imp fun _ hChain => hChain.1
  rule_of_mem hChain hMem := (h.rule_of_mem hChain hMem).imp fun _ hRule => hRule.1
  table_of_chain hChain hOwner := (h.mem_of_chain hChain hOwner).imp fun _ hTable => hTable.1

end Consistent

section Requests

theorem apply_openTable_cases (rs : Ruleset) (name : String) :
    (∃ t, rs.tableNamed? name = some t ∧ rs.apply (.openTable name) = rs) ∨
      (rs.tableNamed? name = none ∧ rs.apply (.openTable name) = rs.withTable name) := by
  cases hName : rs.tableNamed? name with
  | some t => exact Or.inl ⟨t, rfl, by rw [apply, openTable_of_taken hName]⟩
  | none => exact Or.inr ⟨rfl, by rw [apply, openTable_of_free hName]⟩

theorem chain?_apply_openTable (rs : Ruleset) (name : String) (c : ChainId) :
    (rs.apply (.openTable name)).chain? c = rs.chain? c := by
  rcases rs.apply_openTable_cases name with ⟨-, -, hApply⟩ | ⟨-, hApply⟩
  · rw [hApply]
  · rw [hApply]
    rfl

theorem apply_declareChain_cases (rs : Ruleset) (id : TableId) (name policy : String) :
    rs.apply (.declareChain id name policy) = rs ∨
      (rs.chainNamed? id name = none ∧
        rs.apply (.declareChain id name policy) = rs.withChain id name policy) := by
  cases hOwner : rs.table? id with
  | none => exact Or.inl (by simp [apply, declareChain, hOwner])
  | some owner =>
      cases hName : rs.chainNamed? id name with
      | some taken => exact Or.inl (by simp [apply, declareChain_of_taken policy hOwner hName])
      | none =>
          exact Or.inr ⟨rfl, by simp [apply, declareChain_of_free policy hOwner hName]⟩

theorem apply_appendRule_cases (rs : Ruleset) (id : ChainId) (body : RuleBody) :
    rs.apply (.appendRule id body) = rs ∨
      ∃ position, rs.apply (.appendRule id body) = rs.withRule id body position := by
  cases hOwner : rs.chain? id with
  | none => exact Or.inl (by simp [apply, appendRule?, hOwner])
  | some owner => exact Or.inr ⟨_, by rw [apply, appendRule?_of_chain body hOwner]⟩

/-- A chain that is found after a request was there before, as much an extension as it is now, or the
request has added it. In that case it is an extension exactly if the request asks for one. -/
theorem chain?_apply_cases {operation : Operation} {c : ChainId} {chain : Chain}
    (hChain : (rs.apply operation).chain? c = some chain) :
    (∃ old, rs.chain? c = some old ∧ chain.isExtension = old.isExtension) ∨
      (rs.chain? c = none ∧
        (chain.isExtension = true ↔ ∃ name, operation = .addExtension name)) := by
  have hFree : rs.chain? ⟨rs.chains.size⟩ = none := by simp [chain?]
  cases operation with
  | openTable name =>
      rw [chain?_apply_openTable] at hChain
      exact Or.inl ⟨chain, hChain, rfl⟩
  | declareChain id name policy =>
      rcases rs.apply_declareChain_cases id name policy with hApply | ⟨-, hApply⟩
      · exact Or.inl ⟨chain, by rwa [hApply] at hChain, rfl⟩
      · rw [hApply] at hChain
        rcases chain?_withChain_cases hChain with ⟨rfl, rfl⟩ | hOld
        · exact Or.inr ⟨hFree, by simp⟩
        · exact Or.inl ⟨chain, hOld, rfl⟩
  | addExtension name =>
      rcases chain?_withExtension_cases hChain with ⟨rfl, rfl⟩ | hOld
      · exact Or.inr ⟨hFree, by simp⟩
      · exact Or.inl ⟨chain, hOld, rfl⟩
  | appendRule id body =>
      left
      rcases rs.apply_appendRule_cases id body with hApply | ⟨position, hApply⟩
      · exact ⟨chain, by rwa [hApply] at hChain, rfl⟩
      · rw [hApply] at hChain
        obtain ⟨old, hOld, rfl⟩ := chain?_withRule_cases hChain
        exact ⟨old, hOld, rfl⟩

theorem extends_apply (rs : Ruleset) (operation : Operation) : rs.Extends (rs.apply operation) := by
  rcases rs.apply_eq_or_grows operation with hApply | hGrows
  · rw [hApply]
    exact Extends.refl rs
  · exact hGrows.extends

theorem build_concat (operations : List Operation) (operation : Operation) :
    build (operations ++ [operation]) = (build operations).apply operation := by
  rw [build, List.foldl_append]
  rfl

theorem Built.apply (hBuilt : rs.Built) (operation : Operation) : (rs.apply operation).Built := by
  obtain ⟨operations, rfl⟩ := hBuilt
  exact ⟨operations ++ [operation], build_concat operations operation⟩

/-- Every chain is added by one of the requests. It is an extension exactly if that request asks for
an extension. -/
theorem exists_request_of_chain {operations : List Operation} {c : ChainId} {chain : Chain}
    (hChain : (build operations).chain? c = some chain) :
    ∃ before operation after, operations = before ++ operation :: after ∧
      (build before).chain? c = none ∧ ((build (before ++ [operation])).chain? c).isSome ∧
      (chain.isExtension = true ↔ ∃ name, operation = .addExtension name) := by
  induction operations using List.reverseRecOn generalizing chain with
  | nil => simp [build, empty, chain?] at hChain
  | append_singleton operations operation ih =>
      have hFound := hChain
      rw [build_concat] at hChain
      rcases chain?_apply_cases hChain with ⟨old, hOld, hMark⟩ | ⟨hNew, hExtension⟩
      · obtain ⟨before, first, after, rfl, hNew, hAdded, hExtension⟩ := ih hOld
        refine ⟨before, first, after ++ [operation], by simp, hNew, hAdded, ?_⟩
        rwa [hMark]
      · exact ⟨operations, operation, [], rfl, hNew, by rw [hFound]; rfl, hExtension⟩

end Requests

/-- Whatever is asked for, tables, chains and rules are listed where they belong. A chain is an
extension exactly if it was asked for as one. The index of the tables has every table once, in order
of creation and under its name in small letters, and finds what looking through all tables finds. -/
theorem listed_build (operations : List Operation) :
    (build operations).Listed ∧
      (∀ c chain, (build operations).chain? c = some chain →
        ∃ before operation after, operations = before ++ operation :: after ∧
          (build before).chain? c = none ∧ ((build (before ++ [operation])).chain? c).isSome ∧
          (chain.isExtension = true ↔ ∃ name, operation = .addExtension name)) ∧
      (build operations).tableIndex = (build operations).tableKeys ∧
      ∀ name, (build operations).tableNamed? name =
        ((build operations).tables.findIdx? fun table => Text.sameName table.name name).map
          TableId.mk := by
  have hBuilt : (build operations).Built := ⟨operations, rfl⟩
  have h := hBuilt.consistent
  exact ⟨h.listed, fun c chain hChain => exists_request_of_chain hChain, h.tableIndex_eq,
    h.tableNamed?_eq_findIdx?⟩

end PacketFlow.Ruleset
