import PacketFlow.Proofs.Ruleset.Growth

/-!
How the numbers stored in a ruleset hang together. Tables list their chains and chains their rules,
and each chain and rule names its owner; `Consistent` says that the two directions agree, that
nothing is listed twice, that names are unique where they are looked up, and that the index has the
names of the tables. Every ruleset built by the operations is consistent, which is all that the later
theorems use of how it was built.
-/
namespace PacketFlow.Ruleset

/-- The tables by their names in small letters, in order of creation. -/
def tableKeys (rs : Ruleset) : List (String × TableId) :=
  (rs.tables.toList.map Table.name).zipIdx.map fun entry => (Text.fold entry.1, ⟨entry.2⟩)

/-- The lists of a ruleset agree with the owners that chains and rules name, and the index with the
names of the tables. Extension targets are the chains that no table owns. Lists are in order of
creation, names of tables are unique, and so are names of chains within a table. -/
structure Consistent (rs : Ruleset) : Prop where
  tableIndex_eq : rs.tableIndex = rs.tableKeys
  isExtension_iff {c : ChainId} {chain : Chain} (hChain : rs.chain? c = some chain) :
    chain.isExtension = true ↔ chain.table = none
  chain_of_mem {t : TableId} {table : Table} {c : ChainId} (hTable : rs.table? t = some table)
    (hMem : c ∈ table.chains) : ∃ chain, rs.chain? c = some chain ∧ chain.table = some t
  mem_of_chain {c : ChainId} {chain : Chain} {t : TableId} (hChain : rs.chain? c = some chain)
    (hOwner : chain.table = some t) : ∃ table, rs.table? t = some table ∧ c ∈ table.chains
  rule_of_mem {c : ChainId} {chain : Chain} {r : RuleId} (hChain : rs.chain? c = some chain)
    (hMem : r ∈ chain.rules) : ∃ rule, rs.rule? r = some rule ∧ rule.chain = c
  mem_of_rule {r : RuleId} {rule : Rule} (hRule : rs.rule? r = some rule) :
    ∃ chain, rs.chain? rule.chain = some chain ∧ r ∈ chain.rules
  chains_increasing {t : TableId} {table : Table} (hTable : rs.table? t = some table) :
    table.chains.Pairwise (·.index < ·.index)
  rules_increasing {c : ChainId} {chain : Chain} (hChain : rs.chain? c = some chain) :
    chain.rules.Pairwise (·.index < ·.index)
  position_eq {c : ChainId} {chain : Chain} {i : Nat} {r : RuleId} {rule : Rule}
    (hChain : rs.chain? c = some chain) (hAt : chain.rules[i]? = some r)
    (hRule : rs.rule? r = some rule) : rule.position = i + 1
  table_unique {t u : TableId} {first second : Table} (hFirst : rs.table? t = some first)
    (hSecond : rs.table? u = some second) (hName : Text.fold first.name = Text.fold second.name) :
    t = u
  chain_unique {c d : ChainId} {first second : Chain} {t : TableId}
    (hFirst : rs.chain? c = some first) (hSecond : rs.chain? d = some second)
    (hFirstTable : first.table = some t) (hSecondTable : second.table = some t)
    (hName : Text.fold first.name = Text.fold second.name) : c = d

variable {rs next : Ruleset}

section Keys

theorem map_snd_tableKeys (rs : Ruleset) :
    rs.tableKeys.map Prod.snd = (List.range rs.tables.size).map TableId.mk := by
  rw [tableKeys, List.map_map]
  have hSplit : (Prod.snd ∘ fun entry : String × Nat => (Text.fold entry.1, TableId.mk entry.2)) =
      TableId.mk ∘ Prod.snd := rfl
  rw [hSplit, ← List.map_map, List.zipIdx_map_snd, List.length_map, Array.length_toList,
    List.range_eq_range']

/-- A key is found where the first table of that name stands. -/
theorem lookup_keys (tables : List Table) (start : Nat) (name : String) :
    (((tables.map Table.name).zipIdx start).map fun entry =>
        (Text.fold entry.1, TableId.mk entry.2)).lookup (Text.fold name) =
      (tables.findIdx? fun table => Text.sameName table.name name).map
        fun index => ⟨start + index⟩ := by
  induction tables generalizing start with
  | nil => rfl
  | cons table tables ih =>
      rw [List.map_cons, List.zipIdx_cons, List.map_cons, List.lookup_cons, List.findIdx?_cons]
      by_cases hName : Text.fold table.name = Text.fold name
      · simp [hName, Text.sameName]
      · have hOther : (Text.fold name == Text.fold table.name) = false := by
          simpa using Ne.symm hName
        simp [hOther, Text.sameName, hName, ih, Function.comp_def, Nat.add_assoc, Nat.add_comm 1]

/-- Looking a name up among the keys finds what looking through the tables finds. -/
theorem lookup_tableKeys (rs : Ruleset) (name : String) :
    rs.tableKeys.lookup (Text.fold name) =
      (rs.tables.findIdx? fun table => Text.sameName table.name name).map TableId.mk := by
  rw [tableKeys, lookup_keys, ← rs.tables.toArray_toList, List.findIdx?_toArray]
  simp

theorem tableKeys_withTable (rs : Ruleset) (name : String) :
    (rs.withTable name).tableKeys = rs.tableKeys ++ [(Text.fold name, ⟨rs.tables.size⟩)] := by
  simp [tableKeys, withTable, List.zipIdx_append]

theorem tableKeys_withChain (rs : Ruleset) (id : TableId) (name policy : String) :
    (rs.withChain id name policy).tableKeys = rs.tableKeys := by
  have hNames : (rs.withChain id name policy).tables.toList.map Table.name =
      rs.tables.toList.map Table.name := by
    apply List.ext_getElem
    · simp [withChain]
    · intro i hFirst hSecond
      simp only [withChain, List.getElem_map, Array.getElem_toList, Array.getElem_modify]
      split <;> rfl
  rw [tableKeys, tableKeys, hNames]

end Keys

theorem nodup_of_increasing {α : Type} {number : α → Nat} {xs : List α}
    (hIncreasing : xs.Pairwise (number · < number ·)) : xs.Nodup := by
  apply hIncreasing.imp
  intro x y hLess hSame
  rw [hSame] at hLess
  exact Nat.lt_irrefl _ hLess

namespace Consistent

/-- The index lists every table once, in order of creation. -/
theorem tableIds_eq (h : rs.Consistent) :
    rs.tableIds = (List.range rs.tables.size).map TableId.mk := by
  rw [tableIds, h.tableIndex_eq, map_snd_tableKeys]

theorem mem_tableIds_iff (h : rs.Consistent) {t : TableId} :
    t ∈ rs.tableIds ↔ ∃ table, rs.table? t = some table := by
  rw [h.tableIds_eq, List.mem_map]
  constructor
  · rintro ⟨index, hIndex, rfl⟩
    exact ⟨_, Array.getElem?_eq_getElem (List.mem_range.1 hIndex)⟩
  · rintro ⟨table, hTable⟩
    exact ⟨t.index, List.mem_range.2 (lt_of_table?_eq_some hTable), rfl⟩

/-- The index finds the table that looking through all tables finds. -/
theorem tableNamed?_eq_findIdx? (h : rs.Consistent) (name : String) :
    rs.tableNamed? name =
      (rs.tables.findIdx? fun table => Text.sameName table.name name).map TableId.mk := by
  rw [tableNamed?, h.tableIndex_eq, lookup_tableKeys]

/-- A name under which no table is found is the name of no table. -/
theorem fold_ne_of_tableNamed?_eq_none (h : rs.Consistent) {name : String}
    (hFree : rs.tableNamed? name = none) {t : TableId} {table : Table}
    (hTable : rs.table? t = some table) : Text.fold table.name ≠ Text.fold name := by
  obtain ⟨hIndex, rfl⟩ := Array.getElem?_eq_some_iff.1 hTable
  rw [h.tableNamed?_eq_findIdx?, Option.map_eq_none_iff, Array.findIdx?_eq_none_iff] at hFree
  simpa [Text.sameName] using hFree _ (Array.getElem_mem hIndex)

/-- A chain of a table is no extension target. -/
theorem isExtension_of_table (h : rs.Consistent) {c : ChainId} {chain : Chain} {t : TableId}
    (hChain : rs.chain? c = some chain) (hOwner : chain.table = some t) :
    chain.isExtension = false := by
  refine eq_false_of_ne_true fun hExtension => ?_
  cases hOwner.symm.trans ((h.isExtension_iff hChain).1 hExtension)

theorem chains_nodup (h : rs.Consistent) {t : TableId} {table : Table}
    (hTable : rs.table? t = some table) : table.chains.Nodup :=
  nodup_of_increasing (h.chains_increasing hTable)

theorem rules_nodup (h : rs.Consistent) {c : ChainId} {chain : Chain}
    (hChain : rs.chain? c = some chain) : chain.rules.Nodup :=
  nodup_of_increasing (h.rules_increasing hChain)

/-- A name under which no chain is found in a table is the name of no chain there. -/
theorem fold_ne_of_chainNamed?_eq_none (h : rs.Consistent) {t : TableId} {name : String}
    (hFree : rs.chainNamed? t name = none) {c : ChainId} {chain : Chain}
    (hChain : rs.chain? c = some chain) (hOwner : chain.table = some t) :
    Text.fold chain.name ≠ Text.fold name := by
  obtain ⟨table, hTable, hMem⟩ := h.mem_of_chain hChain hOwner
  simp only [chainNamed?, hTable, Option.bind_eq_bind, Option.bind_some,
    List.find?_eq_none] at hFree
  simpa [hChain, Text.sameName] using hFree c hMem

theorem empty : Ruleset.empty.Consistent where
  tableIndex_eq := rfl
  isExtension_iff hChain := by simp [Ruleset.empty, chain?] at hChain
  chain_of_mem hTable := by simp [Ruleset.empty, table?] at hTable
  mem_of_chain hChain := by simp [Ruleset.empty, chain?] at hChain
  rule_of_mem hChain := by simp [Ruleset.empty, chain?] at hChain
  mem_of_rule hRule := by simp [Ruleset.empty, rule?] at hRule
  chains_increasing hTable := by simp [Ruleset.empty, table?] at hTable
  rules_increasing hChain := by simp [Ruleset.empty, chain?] at hChain
  position_eq hChain := by simp [Ruleset.empty, chain?] at hChain
  table_unique hFirst := by simp [Ruleset.empty, table?] at hFirst
  chain_unique hFirst := by simp [Ruleset.empty, chain?] at hFirst

/-- A new table lists nothing, and its name is new. -/
theorem withTable (h : rs.Consistent) {name : String} (hFree : rs.tableNamed? name = none) :
    (rs.withTable name).Consistent where
  tableIndex_eq := by rw [tableKeys_withTable, ← h.tableIndex_eq, Ruleset.withTable]
  isExtension_iff := h.isExtension_iff
  chain_of_mem hTable hMem := by
    rcases table?_withTable_cases hTable with ⟨-, rfl⟩ | hTable
    · cases hMem
    · exact h.chain_of_mem hTable hMem
  mem_of_chain hChain hOwner := by
    obtain ⟨table, hTable, hMem⟩ := h.mem_of_chain hChain hOwner
    exact ⟨table, table?_withTable_of_some hTable, hMem⟩
  rule_of_mem := h.rule_of_mem
  mem_of_rule := h.mem_of_rule
  chains_increasing hTable := by
    rcases table?_withTable_cases hTable with ⟨-, rfl⟩ | hTable
    · exact List.Pairwise.nil
    · exact h.chains_increasing hTable
  rules_increasing := h.rules_increasing
  position_eq := h.position_eq
  table_unique hFirst hSecond hName := by
    rcases table?_withTable_cases hFirst with ⟨rfl, rfl⟩ | hFirst <;>
      rcases table?_withTable_cases hSecond with ⟨rfl, rfl⟩ | hSecond
    · rfl
    · exact absurd hName.symm (h.fold_ne_of_tableNamed?_eq_none hFree hSecond)
    · exact absurd hName (h.fold_ne_of_tableNamed?_eq_none hFree hFirst)
    · exact h.table_unique hFirst hSecond hName
  chain_unique := h.chain_unique

/-- A new extension target stands outside all lists and has none of its own. -/
theorem withExtension (h : rs.Consistent) (name : String) : (rs.withExtension name).Consistent where
  tableIndex_eq := h.tableIndex_eq
  isExtension_iff hChain := by
    rcases chain?_withExtension_cases hChain with ⟨-, rfl⟩ | hChain
    · simp
    · exact h.isExtension_iff hChain
  chain_of_mem hTable hMem := by
    obtain ⟨chain, hChain, hOwner⟩ := h.chain_of_mem hTable hMem
    exact ⟨chain, chain?_withExtension_of_some hChain, hOwner⟩
  mem_of_chain hChain hOwner := by
    rcases chain?_withExtension_cases hChain with ⟨-, rfl⟩ | hChain
    · cases hOwner
    · exact h.mem_of_chain hChain hOwner
  rule_of_mem hChain hMem := by
    rcases chain?_withExtension_cases hChain with ⟨-, rfl⟩ | hChain
    · cases hMem
    · exact h.rule_of_mem hChain hMem
  mem_of_rule hRule := by
    obtain ⟨chain, hChain, hMem⟩ := h.mem_of_rule hRule
    exact ⟨chain, chain?_withExtension_of_some hChain, hMem⟩
  chains_increasing := h.chains_increasing
  rules_increasing hChain := by
    rcases chain?_withExtension_cases hChain with ⟨-, rfl⟩ | hChain
    · exact List.Pairwise.nil
    · exact h.rules_increasing hChain
  position_eq hChain hAt hRule := by
    rcases chain?_withExtension_cases hChain with ⟨-, rfl⟩ | hChain
    · cases hAt
    · exact h.position_eq hChain hAt hRule
  table_unique := h.table_unique
  chain_unique hFirst hSecond hFirstTable hSecondTable hName := by
    rcases chain?_withExtension_cases hFirst with ⟨-, rfl⟩ | hFirst
    · cases hFirstTable
    rcases chain?_withExtension_cases hSecond with ⟨-, rfl⟩ | hSecond
    · cases hSecondTable
    exact h.chain_unique hFirst hSecond hFirstTable hSecondTable hName

/-- A new chain is listed by its table alone, in the last place, and its name is new there. -/
theorem withChain (h : rs.Consistent) {id : TableId} {owner : Table} {name : String}
    (policy : String) (hOwner : rs.table? id = some owner)
    (hFree : rs.chainNamed? id name = none) : (rs.withChain id name policy).Consistent where
  tableIndex_eq := by rw [tableKeys_withChain, ← h.tableIndex_eq, Ruleset.withChain]
  isExtension_iff hChain := by
    rcases chain?_withChain_cases hChain with ⟨-, rfl⟩ | hChain
    · simp
    · exact h.isExtension_iff hChain
  chain_of_mem hTable hMem := by
    obtain ⟨old, hOld, rfl⟩ := table?_withChain_cases hTable
    rcases mem_listChain.1 hMem with hMem | ⟨rfl, rfl⟩
    · obtain ⟨chain, hChain, hTable⟩ := h.chain_of_mem hOld hMem
      exact ⟨chain, chain?_withChain_of_some hChain, hTable⟩
    · exact ⟨_, by rw [chain?_withChain, if_pos rfl], rfl⟩
  mem_of_chain hChain hTable := by
    rcases chain?_withChain_cases hChain with ⟨rfl, rfl⟩ | hChain
    · cases hTable
      exact ⟨_, table?_withChain_of_some hOwner, mem_listChain.2 (Or.inr ⟨rfl, rfl⟩)⟩
    · obtain ⟨table, hTable, hMem⟩ := h.mem_of_chain hChain hTable
      exact ⟨_, table?_withChain_of_some hTable, mem_listChain.2 (Or.inl hMem)⟩
  rule_of_mem hChain hMem := by
    rcases chain?_withChain_cases hChain with ⟨-, rfl⟩ | hChain
    · cases hMem
    · exact h.rule_of_mem hChain hMem
  mem_of_rule hRule := by
    obtain ⟨chain, hChain, hMem⟩ := h.mem_of_rule hRule
    exact ⟨chain, chain?_withChain_of_some hChain, hMem⟩
  chains_increasing hTable := by
    obtain ⟨old, hOld, rfl⟩ := table?_withChain_cases hTable
    refine List.pairwise_append.2 ⟨h.chains_increasing hOld, by split <;> simp, ?_⟩
    intro c hMem d hNew
    obtain ⟨chain, hChain, -⟩ := h.chain_of_mem hOld hMem
    have hLast : d = ⟨rs.chains.size⟩ := by split at hNew <;> simp_all
    rw [hLast]
    exact lt_of_chain?_eq_some hChain
  rules_increasing hChain := by
    rcases chain?_withChain_cases hChain with ⟨-, rfl⟩ | hChain
    · exact List.Pairwise.nil
    · exact h.rules_increasing hChain
  position_eq hChain hAt hRule := by
    rcases chain?_withChain_cases hChain with ⟨-, rfl⟩ | hChain
    · cases hAt
    · exact h.position_eq hChain hAt hRule
  table_unique hFirst hSecond hName := by
    obtain ⟨first, hOldFirst, rfl⟩ := table?_withChain_cases hFirst
    obtain ⟨second, hOldSecond, rfl⟩ := table?_withChain_cases hSecond
    exact h.table_unique hOldFirst hOldSecond hName
  chain_unique hFirst hSecond hFirstTable hSecondTable hName := by
    rcases chain?_withChain_cases hFirst with ⟨rfl, rfl⟩ | hFirst <;>
      rcases chain?_withChain_cases hSecond with ⟨rfl, rfl⟩ | hSecond
    · rfl
    · cases hFirstTable
      exact absurd hName.symm (h.fold_ne_of_chainNamed?_eq_none hFree hSecond hSecondTable)
    · cases hSecondTable
      exact absurd hName (h.fold_ne_of_chainNamed?_eq_none hFree hFirst hFirstTable)
    · exact h.chain_unique hFirst hSecond hFirstTable hSecondTable hName

/-- A new rule is listed by its chain alone, in the last place, and its position is that place. -/
theorem withRule (h : rs.Consistent) {id : ChainId} {owner : Chain} (body : RuleBody)
    (hOwner : rs.chain? id = some owner) :
    (rs.withRule id body (owner.rules.length + 1)).Consistent where
  tableIndex_eq := h.tableIndex_eq
  isExtension_iff hChain := by
    obtain ⟨old, hOld, rfl⟩ := chain?_withRule_cases hChain
    change old.isExtension = true ↔ old.table = none
    exact h.isExtension_iff hOld
  chain_of_mem hTable hMem := by
    obtain ⟨chain, hChain, hTable⟩ := h.chain_of_mem hTable hMem
    exact ⟨_, chain?_withRule_of_some hChain, hTable⟩
  mem_of_chain hChain hTable := by
    obtain ⟨old, hOld, rfl⟩ := chain?_withRule_cases hChain
    exact h.mem_of_chain hOld hTable
  rule_of_mem hChain hMem := by
    obtain ⟨old, hOld, rfl⟩ := chain?_withRule_cases hChain
    rcases mem_listRule.1 hMem with hMem | ⟨rfl, rfl⟩
    · obtain ⟨rule, hRule, hChain⟩ := h.rule_of_mem hOld hMem
      exact ⟨rule, rule?_withRule_of_some hRule, hChain⟩
    · exact ⟨_, by rw [rule?_withRule, if_pos rfl], rfl⟩
  mem_of_rule hRule := by
    rcases rule?_withRule_cases hRule with ⟨rfl, rfl⟩ | hRule
    · exact ⟨_, chain?_withRule_of_some hOwner, mem_listRule.2 (Or.inr ⟨rfl, rfl⟩)⟩
    · obtain ⟨chain, hChain, hMem⟩ := h.mem_of_rule hRule
      exact ⟨_, chain?_withRule_of_some hChain, mem_listRule.2 (Or.inl hMem)⟩
  chains_increasing := h.chains_increasing
  rules_increasing hChain := by
    obtain ⟨old, hOld, rfl⟩ := chain?_withRule_cases hChain
    refine List.pairwise_append.2 ⟨h.rules_increasing hOld, by split <;> simp, ?_⟩
    intro r hMem s hNew
    obtain ⟨rule, hRule, -⟩ := h.rule_of_mem hOld hMem
    have hLast : s = ⟨rs.rules.size⟩ := by split at hNew <;> simp_all
    rw [hLast]
    exact lt_of_rule?_eq_some hRule
  position_eq {c chain i r rule} hChain hAt hRule := by
    obtain ⟨old, hOld, rfl⟩ := chain?_withRule_cases hChain
    rw [listRule, List.getElem?_append] at hAt
    split at hAt
    · obtain ⟨rule', hRule', -⟩ := h.rule_of_mem hOld (List.mem_of_getElem? hAt)
      rw [rule?_withRule_of_some hRule'] at hRule
      cases hRule
      exact h.position_eq hOld hAt hRule'
    next hLast =>
      -- Past the old list there is only the new rule, and only in the chain that it was added to.
      have hOnly : c = id ∧ i - old.rules.length = 0 ∧ r = ⟨rs.rules.size⟩ := by
        split at hAt <;> simp_all [List.getElem?_singleton]
      obtain ⟨rfl, hPlace, rfl⟩ := hOnly
      obtain rfl : old = owner := Option.some.inj (hOld.symm.trans hOwner)
      rw [rule?_withRule, if_pos rfl] at hRule
      cases hRule
      change old.rules.length + 1 = i + 1
      omega
  table_unique := h.table_unique
  chain_unique hFirst hSecond hFirstTable hSecondTable hName := by
    obtain ⟨first, hOldFirst, rfl⟩ := chain?_withRule_cases hFirst
    obtain ⟨second, hOldSecond, rfl⟩ := chain?_withRule_cases hSecond
    exact h.chain_unique hOldFirst hOldSecond hFirstTable hSecondTable hName

/-- Whatever is added, the ruleset stays consistent. -/
theorem grows (h : rs.Consistent) (hGrows : rs.Grows next) : next.Consistent := by
  cases hGrows with
  | table hFree => exact h.withTable hFree
  | chain policy hOwner hFree => exact h.withChain policy hOwner hFree
  | extension name => exact h.withExtension name
  | rule body hOwner => exact h.withRule body hOwner

end Consistent

/-- Every ruleset built by the operations is consistent. -/
theorem Built.consistent (hBuilt : rs.Built) : rs.Consistent :=
  hBuilt.induction Consistent.empty fun _ _ h hGrows => h.grows hGrows

end PacketFlow.Ruleset
