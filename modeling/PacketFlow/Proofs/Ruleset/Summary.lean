import Mathlib.Algebra.GroupWithZero.Nat
import Mathlib.Data.List.Nodup
import PacketFlow.Proofs.Ruleset.Confinement
import PacketFlow.Proofs.Ruleset.Listing
import PacketFlow.Proofs.Ruleset.Lookup

/-!
What a summary counts. A summary goes through the chains of the tables, so it counts the rules that
are listed there. Where no rule belongs to an extension, those are all rules, each of them once.
-/
namespace PacketFlow.Ruleset

variable {rs : Ruleset}

/-- The rules of a table, chain by chain. -/
def rulesIn (rs : Ruleset) (t : TableId) : List RuleId :=
  (((rs.table? t).map Table.chains).getD []).flatMap fun c =>
    ((rs.chain? c).map Chain.rules).getD []

/-- The rules of all tables. -/
def listedRules (rs : Ruleset) : List RuleId :=
  rs.tableIds.flatMap rs.rulesIn

/-- How many chains the tables have together. -/
def chainCount (rs : Ruleset) : Nat :=
  (rs.tables.toList.map fun table => table.chains.length).sum

theorem chainCount_withTable (name : String) : (rs.withTable name).chainCount = rs.chainCount := by
  simp [chainCount, withTable]

/-- One table is longer by one chain, and the others are as they were. -/
theorem chainCount_withChain {id : TableId} {owner : Table} (name policy : String)
    (hOwner : rs.table? id = some owner) :
    (rs.withChain id name policy).chainCount = rs.chainCount + 1 := by
  have hIndex : id.index < rs.tables.toList.length := lt_of_table?_eq_some hOwner
  obtain ⟨before, table, after, hTables, -, hModify⟩ := List.exists_of_modify
    (fun t => { t with chains := t.chains ++ [⟨rs.chains.size⟩] }) hIndex
  simp only [chainCount, withChain, Array.toList_modify, hModify]
  simp only [hTables, List.map_append, List.map_cons, List.sum_append, List.sum_cons,
    List.length_append, List.length_singleton]
  omega

theorem mem_rulesIn {t : TableId} {r : RuleId} :
    r ∈ rs.rulesIn t ↔ ∃ table c chain, rs.table? t = some table ∧ c ∈ table.chains ∧
      rs.chain? c = some chain ∧ r ∈ chain.rules := by
  rw [rulesIn, List.mem_flatMap]
  cases hTable : rs.table? t with
  | none => simp
  | some table =>
      simp only [Option.map_some, Option.getD_some, Option.some.injEq, exists_eq_left',
        exists_and_left]
      refine exists_congr fun c => and_congr_right fun _ => ?_
      cases rs.chain? c <;> simp

theorem Consistent.owner_of_mem_rulesIn (h : rs.Consistent) {t : TableId} {r : RuleId}
    (hMem : r ∈ rs.rulesIn t) : ∃ rule chain, rs.rule? r = some rule ∧
      rs.chain? rule.chain = some chain ∧ chain.table = some t := by
  obtain ⟨table, c, chain, hTable, hListed, hChain, hMem⟩ := mem_rulesIn.1 hMem
  obtain ⟨rule, hRule, rfl⟩ := h.rule_of_mem hChain hMem
  exact ⟨rule, chain, hRule, hChain, (h.mem_chains_iff hChain hTable).1 hListed⟩

theorem Consistent.rulesIn_nodup (h : rs.Consistent) (t : TableId) : (rs.rulesIn t).Nodup := by
  rw [rulesIn, List.nodup_flatMap]
  constructor
  · intro c _
    cases hChain : rs.chain? c with
    | none => exact List.nodup_nil
    | some chain => exact h.rules_nodup hChain
  · cases hTable : rs.table? t with
    | none => exact List.Pairwise.nil
    | some table =>
        apply (h.chains_nodup hTable).imp
        intro c d hDistinct r hFirst hSecond
        cases hChain : rs.chain? c with
        | none => simp [hChain] at hFirst
        | some first =>
            cases hOther : rs.chain? d with
            | none => simp [hOther] at hSecond
            | some second =>
                simp only [hChain, hOther, Option.map_some, Option.getD_some] at hFirst hSecond
                obtain ⟨rule, hRule, hOwner⟩ := h.rule_of_mem hChain hFirst
                exact hDistinct (hOwner.symm.trans ((h.mem_rules_iff hRule hOther).1 hSecond))

/-- No rule is listed twice. -/
theorem Consistent.listedRules_nodup (h : rs.Consistent) : rs.listedRules.Nodup := by
  rw [listedRules, List.nodup_flatMap]
  refine ⟨fun t _ => h.rulesIn_nodup t, ?_⟩
  apply h.listed.tables_increasing.imp
  intro t u hLess r hFirst hSecond
  obtain ⟨rule, chain, hRule, hChain, hTable⟩ := h.owner_of_mem_rulesIn hFirst
  obtain ⟨rule', chain', hRule', hChain', hTable'⟩ := h.owner_of_mem_rulesIn hSecond
  obtain rfl := Option.some.inj (hRule.symm.trans hRule')
  obtain rfl := Option.some.inj (hChain.symm.trans hChain')
  obtain rfl := Option.some.inj (hTable.symm.trans hTable')
  exact Nat.lt_irrefl _ hLess

/-- Where every rule belongs to a table, every rule is listed. -/
theorem Consistent.mem_listedRules (h : rs.Consistent) (hConfined : rs.Confined) {r : RuleId} :
    r ∈ rs.listedRules ↔ r ∈ (List.range rs.rules.size).map RuleId.mk := by
  rw [listedRules, List.mem_flatMap, List.mem_map]
  constructor
  · rintro ⟨t, -, hMem⟩
    obtain ⟨rule, -, hRule, -⟩ := h.owner_of_mem_rulesIn hMem
    exact ⟨r.index, List.mem_range.2 (lt_of_rule?_eq_some hRule), rfl⟩
  · rintro ⟨index, hLess, rfl⟩
    obtain ⟨rule, hRule⟩ : ∃ rule, rs.rule? ⟨index⟩ = some rule :=
      ⟨_, Array.getElem?_eq_getElem (List.mem_range.1 hLess)⟩
    obtain ⟨owner, t, hOwner, hTable, -⟩ := hConfined _ _ hRule
    obtain ⟨table, hFound, hListed⟩ := h.mem_of_chain hOwner hTable
    exact ⟨t, h.mem_tableIds_iff.2 ⟨table, hFound⟩, mem_rulesIn.2 ⟨table, _, owner, hFound, hListed,
      hOwner, (h.mem_rules_iff hRule hOwner).2 rfl⟩⟩

theorem Consistent.length_listedRules (h : rs.Consistent) (hConfined : rs.Confined) :
    rs.listedRules.length = rs.rules.size := by
  have hAll : ((List.range rs.rules.size).map RuleId.mk).Nodup := by
    apply List.nodup_range.map
    intro i j hSame
    exact RuleId.mk.inj hSame
  have hPerm := (List.perm_ext_iff_of_nodup h.listedRules_nodup hAll).2 fun _ =>
    h.mem_listedRules hConfined
  rw [hPerm.length_eq, List.length_map, List.length_range]

theorem ruleCount_of_tableSummary? {t : TableId} {summary : TableSummary}
    (hSummary : rs.tableSummary? t = some summary) :
    summary.ruleCount = (rs.rulesIn t).length := by
  simp only [tableSummary?, chainsOf?, Option.bind_eq_bind, Option.bind_eq_some_iff] at hSummary
  obtain ⟨table, hTable, chains, ⟨owner, hOwner, hChains⟩, hSummary⟩ := hSummary
  obtain rfl := Option.some.inj (hTable.symm.trans hOwner)
  obtain rfl := Option.some.inj hSummary
  obtain ⟨hListed, hRead⟩ := mapM_pair_eq_some_iff.1 hChains
  rw [rulesIn, hTable, Option.map_some, Option.getD_some, ← hListed, List.length_flatMap,
    List.map_map]
  show ((chains.map fun chain => chain.2.summary).map ChainSummary.rules).sum = _
  rw [List.map_map]
  congr 1
  refine List.map_congr_left fun chain hMem => ?_
  simp [hRead chain hMem, Chain.summary]

/-- A summary counts every rule once. -/
theorem Consistent.sum_ruleCount (h : rs.Consistent) (hConfined : rs.Confined) :
    ∃ tables, rs.summary? = some tables ∧
      (tables.map TableSummary.ruleCount).sum = rs.rules.size := by
  obtain ⟨tables, hTables⟩ := h.exists_summary?
  refine ⟨tables, hTables, ?_⟩
  rw [← h.length_listedRules hConfined, listedRules, List.length_flatMap]
  congr 1
  have hRead := mapM_eq_some_iff.1 hTables
  clear hTables
  generalize rs.tableIds = ids at hRead
  induction hRead with
  | nil => rfl
  | cons hHead hTail ih => rw [List.map_cons, List.map_cons, ruleCount_of_tableSummary? hHead, ih]

end PacketFlow.Ruleset
