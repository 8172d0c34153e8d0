import PacketFlow.Proofs.Ruleset.Consistency

/-!
What the searches by name find. In a consistent ruleset at most one table has a name, and at most
one chain of a table, so a search that stops at the first hit finds the only one.
-/
namespace PacketFlow.Ruleset

variable {rs : Ruleset}

theorem tableNamed?_congr {name name' : String} (hName : Text.fold name = Text.fold name') :
    rs.tableNamed? name = rs.tableNamed? name' := by
  rw [tableNamed?, tableNamed?, hName]

theorem fold_eq_of_chainNamed?_eq_some {t : TableId} {name : String} {c : ChainId}
    (hFound : rs.chainNamed? t name = some c) :
    ∃ table chain, rs.table? t = some table ∧ c ∈ table.chains ∧ rs.chain? c = some chain ∧
      Text.fold chain.name = Text.fold name := by
  rw [chainNamed?, Option.bind_eq_bind, Option.bind_eq_some_iff] at hFound
  obtain ⟨table, hTable, hFind⟩ := hFound
  have hName := List.find?_some hFind
  rw [Option.any_eq_true] at hName
  obtain ⟨chain, hChain, hName⟩ := hName
  exact ⟨table, chain, hTable, List.mem_of_find?_eq_some hFind, hChain, Text.sameName_iff.1 hName⟩

namespace Consistent

theorem isSome_tableNamed?_iff (h : rs.Consistent) {name : String} : (rs.tableNamed? name).isSome ↔
    Text.fold name ∈ rs.tables.toList.map fun table => Text.fold table.name := by
  rw [h.tableNamed?_eq_findIdx?, Option.isSome_map, Array.findIdx?_isSome, Array.any_eq_true',
    List.mem_map]
  simp only [Array.mem_toList_iff, Text.sameName_iff]

theorem fold_eq_of_tableNamed?_eq_some (h : rs.Consistent) {name : String} {t : TableId}
    (hFound : rs.tableNamed? name = some t) :
    ∃ table, rs.table? t = some table ∧ Text.fold table.name = Text.fold name := by
  rw [h.tableNamed?_eq_findIdx?, Option.map_eq_some_iff] at hFound
  obtain ⟨index, hIndex, rfl⟩ := hFound
  obtain ⟨hLt, hName, -⟩ := Array.findIdx?_eq_some_iff_getElem.1 hIndex
  exact ⟨rs.tables[index], Array.getElem?_eq_getElem hLt, Text.sameName_iff.1 hName⟩

/-- A table is found under every spelling of its name. -/
theorem tableNamed?_eq_some_iff (h : rs.Consistent) {name : String} {t : TableId} :
    rs.tableNamed? name = some t ↔
      ∃ table, rs.table? t = some table ∧ Text.fold table.name = Text.fold name := by
  refine ⟨h.fold_eq_of_tableNamed?_eq_some, ?_⟩
  rintro ⟨table, hTable, hName⟩
  cases hFound : rs.tableNamed? name with
  | none => exact absurd hName (h.fold_ne_of_tableNamed?_eq_none hFound hTable)
  | some u =>
      obtain ⟨other, hOther, hOtherName⟩ := h.fold_eq_of_tableNamed?_eq_some hFound
      rw [h.table_unique hOther hTable (hOtherName.trans hName.symm)]

/-- A chain is found in its table under every spelling of its name. -/
theorem chainNamed?_eq_some_iff (h : rs.Consistent) {t : TableId} {name : String} {c : ChainId} :
    rs.chainNamed? t name = some c ↔
      ∃ chain, rs.chain? c = some chain ∧ chain.table = some t ∧
        Text.fold chain.name = Text.fold name := by
  constructor
  · intro hFound
    obtain ⟨table, chain, hTable, hMem, hChain, hName⟩ := fold_eq_of_chainNamed?_eq_some hFound
    obtain ⟨owned, hOwned, hOwner⟩ := h.chain_of_mem hTable hMem
    obtain rfl : owned = chain := Option.some.inj (hOwned.symm.trans hChain)
    exact ⟨owned, hChain, hOwner, hName⟩
  · rintro ⟨chain, hChain, hOwner, hName⟩
    cases hFound : rs.chainNamed? t name with
    | none => exact absurd hName (h.fold_ne_of_chainNamed?_eq_none hFound hChain hOwner)
    | some d =>
        obtain ⟨table, other, hTable, hMem, hOther, hOtherName⟩ :=
          fold_eq_of_chainNamed?_eq_some hFound
        obtain ⟨owned, hOwned, hOtherOwner⟩ := h.chain_of_mem hTable hMem
        obtain rfl : owned = other := Option.some.inj (hOwned.symm.trans hOther)
        rw [h.chain_unique hOther hChain hOtherOwner hOwner (hOtherName.trans hName.symm)]

/-- An extension is not found under its name in any table. -/
theorem chainNamed?_withExtension (h : rs.Consistent) (extension : String) (t : TableId) :
    (rs.withExtension extension).chainNamed? t = rs.chainNamed? t := by
  funext name
  ext c
  rw [(h.withExtension extension).chainNamed?_eq_some_iff, h.chainNamed?_eq_some_iff]
  constructor
  · rintro ⟨chain, hChain, hOwner, hName⟩
    rcases chain?_withExtension_cases hChain with ⟨-, rfl⟩ | hChain
    · cases hOwner
    · exact ⟨chain, hChain, hOwner, hName⟩
  · rintro ⟨chain, hChain, hOwner, hName⟩
    exact ⟨chain, chain?_withExtension_of_some hChain, hOwner, hName⟩

end Consistent

end PacketFlow.Ruleset
