import Mathlib.Data.List.Nodup
import PacketFlow.Flow.Traversal
import PacketFlow.Proofs.Ruleset.Naming

/-!
The built-in chains that a packet comes to. A packet passes stations, each a hook with a table that
is consulted there, and comes to the chain that the table declares for the hook. No chain belongs to
two stations of one origin, so it comes to none of them twice.
-/
namespace PacketFlow

/-- Where a packet of an origin is held up, in order: each hook with each table consulted there. -/
def Origin.stations (origin : Origin) : List (Hook × String) :=
  origin.hooks.flatMap fun hook => hook.tables.map (hook, ·)

/-- Two stations of an origin differ in the name of the hook or in that of the table, in every
spelling. -/
theorem Origin.stations_nodup (origin : Origin) :
    (origin.stations.map fun s => (Text.fold s.1.name, Text.fold s.2)).Nodup := by
  cases origin <;> decide +kernel

/-- A station comes before another: its hook does, or it has the same hook and its table does. -/
def Origin.Before (origin : Origin) : Hook × String → Hook × String → Prop :=
  InvImage (Prod.Lex (· < ·) (· < ·)) fun station =>
    (origin.hooks.idxOf station.1, station.1.tables.idxOf station.2)

theorem Origin.stations_ordered (origin : Origin) : origin.stations.Pairwise origin.Before := by
  unfold Origin.Before InvImage
  cases origin <;> decide

namespace Ruleset

variable {rs : Ruleset}

/-- The chain of a station. -/
def chainAt? (rs : Ruleset) (station : Hook × String) : Option ChainId := do
  let table ← rs.tableNamed? station.2
  rs.chainNamed? table station.1.name

theorem builtinChains_eq_filterMap (rs : Ruleset) (origin : Origin) :
    rs.builtinChains origin = origin.stations.filterMap rs.chainAt? := by
  simp only [builtinChains, Origin.stations, List.filterMap_flatMap, List.filterMap_map]
  rfl

/-- A built-in chain belongs to the table of its station, and is named after the hook. -/
theorem Consistent.chainAt?_eq_some_iff (h : rs.Consistent) {station : Hook × String}
    {c : ChainId} :
    rs.chainAt? station = some c ↔
      ∃ t table chain, rs.table? t = some table ∧ Text.fold table.name = Text.fold station.2 ∧
        rs.chain? c = some chain ∧ chain.table = some t ∧
          Text.fold chain.name = Text.fold station.1.name := by
  rw [chainAt?, Option.bind_eq_bind, Option.bind_eq_some_iff]
  constructor
  · rintro ⟨t, hTable, hChain⟩
    obtain ⟨table, hTable, hTableName⟩ := h.tableNamed?_eq_some_iff.1 hTable
    obtain ⟨chain, hChain, hOwner, hName⟩ := h.chainNamed?_eq_some_iff.1 hChain
    exact ⟨t, table, chain, hTable, hTableName, hChain, hOwner, hName⟩
  · rintro ⟨t, table, chain, hTable, hTableName, hChain, hOwner, hName⟩
    exact ⟨t, h.tableNamed?_eq_some_iff.2 ⟨table, hTable, hTableName⟩,
      h.chainNamed?_eq_some_iff.2 ⟨chain, hChain, hOwner, hName⟩⟩

/-- A chain of a station tells which station it is. -/
theorem Consistent.station_unique (h : rs.Consistent) {first second : Hook × String} {c : ChainId}
    (hFirst : rs.chainAt? first = some c) (hSecond : rs.chainAt? second = some c) :
    (Text.fold first.1.name, Text.fold first.2) =
      (Text.fold second.1.name, Text.fold second.2) := by
  obtain ⟨t, table, chain, hTable, hTableName, hChain, hOwner, hName⟩ :=
    h.chainAt?_eq_some_iff.1 hFirst
  obtain ⟨u, other, chain', hOther, hOtherName, hChain', hOwner', hName'⟩ :=
    h.chainAt?_eq_some_iff.1 hSecond
  obtain rfl : chain = chain' := Option.some.inj (hChain.symm.trans hChain')
  obtain rfl : t = u := Option.some.inj (hOwner.symm.trans hOwner')
  obtain rfl : table = other := Option.some.inj (hTable.symm.trans hOther)
  rw [← hName, ← hName', ← hTableName, ← hOtherName]

/-- A packet comes to no built-in chain twice. -/
theorem Consistent.builtinChains_nodup (h : rs.Consistent) (origin : Origin) :
    (rs.builtinChains origin).Nodup := by
  rw [builtinChains_eq_filterMap, List.Nodup, List.pairwise_filterMap]
  refine (List.pairwise_map.1 origin.stations_nodup).imp ?_
  intro first second hStations c hFirst d hSecond hSame
  subst hSame
  exact hStations (h.station_unique hFirst hSecond)

/-- A built-in chain is a chain of a table. -/
theorem Consistent.exists_of_mem_builtinChains (h : rs.Consistent) {origin : Origin} {c : ChainId}
    (hMem : c ∈ rs.builtinChains origin) :
    ∃ chain, rs.chain? c = some chain ∧ chain.isExtension = false := by
  rw [builtinChains_eq_filterMap, List.mem_filterMap] at hMem
  obtain ⟨station, -, hStation⟩ := hMem
  obtain ⟨t, table, chain, -, -, hChain, hOwner, -⟩ := h.chainAt?_eq_some_iff.1 hStation
  exact ⟨chain, hChain, h.isExtension_of_table hChain hOwner⟩

/-- The chain is declared for a station: it belongs to a table that is named like the station's, and
is itself named like the hook. -/
def DeclaredFor (rs : Ruleset) (c : ChainId) (station : Hook × String) : Prop :=
  ∃ t table chain, rs.table? t = some table ∧ Text.sameName table.name station.2 = true ∧
    c ∈ table.chains ∧ rs.chain? c = some chain ∧ Text.sameName chain.name station.1.name = true

theorem Consistent.chainAt?_eq_some_iff_declaredFor (h : rs.Consistent) {station : Hook × String}
    {c : ChainId} : rs.chainAt? station = some c ↔ rs.DeclaredFor c station := by
  rw [h.chainAt?_eq_some_iff]
  simp only [DeclaredFor, Text.sameName_iff]
  constructor
  · rintro ⟨t, table, chain, hTable, hTableName, hChain, hOwner, hName⟩
    obtain ⟨owner, hOwnerTable, hMem⟩ := h.mem_of_chain hChain hOwner
    obtain rfl : owner = table := Option.some.inj (hOwnerTable.symm.trans hTable)
    exact ⟨t, owner, chain, hTable, hTableName, hMem, hChain, hName⟩
  · rintro ⟨t, table, chain, hTable, hTableName, hMem, hChain, hName⟩
    obtain ⟨owned, hOwned, hOwner⟩ := h.chain_of_mem hTable hMem
    obtain rfl : owned = chain := Option.some.inj (hOwned.symm.trans hChain)
    exact ⟨t, table, owned, hTable, hTableName, hChain, hOwner, hName⟩

/-- A packet comes to exactly the chains that are declared for its stations, to each of them once and
to no extension. It comes to them in the order of the hooks and, at a hook, of the tables consulted
there, in whatever order the tables and chains have been declared. -/
theorem builtinChains_inOrder (hBuilt : rs.Built) (origin : Origin) :
    (∀ c, c ∈ rs.builtinChains origin ↔ ∃ station ∈ origin.stations, rs.DeclaredFor c station) ∧
      (rs.builtinChains origin).Nodup ∧
      (∀ c ∈ rs.builtinChains origin, ∃ chain, rs.chain? c = some chain ∧ chain.isExtension = false) ∧
      (rs.builtinChains origin).Pairwise fun c d =>
        ∀ first ∈ origin.stations, ∀ second ∈ origin.stations, rs.DeclaredFor c first →
          rs.DeclaredFor d second → origin.Before first second := by
  have h := hBuilt.consistent
  refine ⟨fun c => ?_, h.builtinChains_nodup origin, fun c => h.exists_of_mem_builtinChains, ?_⟩
  · simp only [builtinChains_eq_filterMap, List.mem_filterMap, h.chainAt?_eq_some_iff_declaredFor]
  · rw [builtinChains_eq_filterMap, List.pairwise_filterMap]
    have hDistinct := List.inj_on_of_nodup_map origin.stations_nodup
    refine origin.stations_ordered.imp_of_mem ?_
    intro station other hStation hOther hBefore c hChain d hChain' first hFirst second hSecond
      hDeclared hDeclared'
    -- Each chain is that of one station only, so the stations asked about are those it was found at.
    rw [← h.chainAt?_eq_some_iff_declaredFor] at hDeclared hDeclared'
    rw [hDistinct hFirst hStation (h.station_unique hDeclared hChain),
      hDistinct hSecond hOther (h.station_unique hDeclared' hChain')]
    exact hBefore

/-- Tables and chains that are declared against the order in which a packet comes to them, in various
spellings. The table `Filter` has a chain for a hook at which it is not consulted. -/
def scattered : Ruleset :=
  build [.openTable "Filter", .declareChain ⟨0⟩ "forward" "DROP",
    .declareChain ⟨0⟩ "PREROUTING" "ACCEPT", .openTable "NAT",
    .declareChain ⟨1⟩ "postrouting" "ACCEPT", .declareChain ⟨1⟩ "Prerouting" "ACCEPT",
    .addExtension "FORWARD", .openTable "mangle", .declareChain ⟨2⟩ "FORWARD" "ACCEPT"]

theorem builtinChains_inOrder_scattered :
    (∀ c, c ∈ scattered.builtinChains .forward ↔
        ∃ station ∈ Origin.forward.stations, scattered.DeclaredFor c station) ∧
      (scattered.builtinChains .forward).Nodup ∧
      (∀ c ∈ scattered.builtinChains .forward,
        ∃ chain, scattered.chain? c = some chain ∧ chain.isExtension = false) ∧
      (scattered.builtinChains .forward).Pairwise fun c d =>
        ∀ first ∈ Origin.forward.stations, ∀ second ∈ Origin.forward.stations,
          scattered.DeclaredFor c first → scattered.DeclaredFor d second →
            Origin.forward.Before first second :=
  builtinChains_inOrder ⟨_, rfl⟩ .forward

end Ruleset

end PacketFlow
