import PacketFlow.Proofs.Ruleset.Listing

/-!
Finding tables and chains by name. A registry holds two maps and nothing of the tables and chains
themselves: from names of tables, and from tables with names of chains, all in small letters, to
numbers. It enters a name that is free under the next number and has no other way of changing. A
ruleset answers requests as the registry does, and finds what the registry holds.
-/
namespace PacketFlow

/-- What the names of tables and chains stand for. The counts are the next numbers to be given out;
extensions take numbers of chains and have no names here. -/
structure Registry where
  tables : String → Option TableId
  chains : TableId → String → Option ChainId
  tableCount : Nat
  chainCount : Nat

namespace Registry

/-- No names. -/
def empty : Registry :=
  ⟨fun _ => none, fun _ _ => none, 0, 0⟩

/-- Enters a new table under a key. -/
def enterTable (reg : Registry) (key : String) : Registry :=
  { reg with
    tables := fun other => if other = key then some ⟨reg.tableCount⟩ else reg.tables other
    tableCount := reg.tableCount + 1 }

/-- Enters a new chain of a table under a key. -/
def enterChain (reg : Registry) (t : TableId) (key : String) : Registry :=
  { reg with
    chains := fun u other =>
      if u = t ∧ other = key then some ⟨reg.chainCount⟩ else reg.chains u other
    chainCount := reg.chainCount + 1 }

/-- The number of the table of that name, which is entered if it is not there. -/
def openTable (reg : Registry) (name : String) : TableId × Registry :=
  match reg.tables (Text.fold name) with
  | some t => (t, reg)
  | none => (⟨reg.tableCount⟩, reg.enterTable (Text.fold name))

/-- The number of a new chain, if there is the table and the name is free in it. -/
def declareChain? (reg : Registry) (t : TableId) (name : String) : Option (ChainId × Registry) :=
  if t.index < reg.tableCount ∧ reg.chains t (Text.fold name) = none then
    some (⟨reg.chainCount⟩, reg.enterChain t (Text.fold name))
  else none

/-- Follows a request for one of the operations that build rulesets. -/
def apply (reg : Registry) : Operation → Registry
  | .openTable name => (reg.openTable name).2
  | .declareChain t name _ =>
    match reg.declareChain? t name with
    | some (_, next) => next
    | none => reg
  | .addExtension _ => { reg with chainCount := reg.chainCount + 1 }
  | .appendRule _ _ => reg

/-- The registry that requests lead to, one after the other. -/
def build (operations : List Operation) : Registry :=
  operations.foldl apply empty

end Registry

namespace Ruleset

variable {rs next : Ruleset} {reg : Registry} {t : TableId} {owner : Table} {name : String}

section Answers

/-! What the operations answer, told by what is looked up before and after them. -/

/-- There is one more table, and all else is as it was. -/
structure AddsTable (rs : Ruleset) (name : String) (t : TableId) (next : Ruleset) : Prop where
  new : rs.table? t = none
  added : next.table? t = some ⟨name, []⟩
  table {u : TableId} (hOther : u ≠ t) : next.table? u = rs.table? u
  chain (c : ChainId) : next.chain? c = rs.chain? c
  rule (r : RuleId) : next.rule? r = rs.rule? r

/-- There is one more chain, at the end of its table, and all else is as it was. -/
structure AddsChain (rs : Ruleset) (t : TableId) (name policy : String) (c : ChainId)
    (next : Ruleset) : Prop where
  new : rs.chain? c = none
  added : next.chain? c = some ⟨name, policy, some t, false, []⟩
  chain {d : ChainId} (hOther : d ≠ c) : next.chain? d = rs.chain? d
  listed {table : Table} (hTable : rs.table? t = some table) :
    next.table? t = some { table with chains := table.chains ++ [c] }
  table {u : TableId} (hOther : u ≠ t) : next.table? u = rs.table? u
  rule (r : RuleId) : next.rule? r = rs.rule? r

/-- The table lists a chain of that name. -/
def HasChain (rs : Ruleset) (t : TableId) (name : String) : Prop :=
  ∃ table c chain, rs.table? t = some table ∧ c ∈ table.chains ∧ rs.chain? c = some chain ∧
    Text.sameName chain.name name = true

/-- A table that is found under any spelling of the name is opened again. Otherwise there is a new
table, of the spelling that is asked for. -/
structure OpensByName (rs : Ruleset) (name : String) : Prop where
  found {spelling : String} {t : TableId} (hSame : Text.sameName spelling name = true)
    (hFound : rs.tableNamed? spelling = some t) : rs.openTable name = (t, rs)
  added (hFree : ∀ spelling, Text.sameName spelling name = true → rs.tableNamed? spelling = none) :
    ∃ t next, rs.openTable name = (t, next) ∧ rs.AddsTable name t next

/-- A chain is refused if its table does not exist, or has a chain of that name, and for no other
reason. The refusal names the table and the chain, and changes nothing. -/
structure DeclaresByName (rs : Ruleset) (t : TableId) (name policy : String) : Prop where
  unknownTable_iff : (∃ u, rs.declareChain t name policy = .error (.unknownTable u)) ↔
    rs.table? t = none
  unknownTable {u : TableId} (hRefused : rs.declareChain t name policy = .error (.unknownTable u)) :
    u = t
  duplicate_iff : (∃ table chain, rs.declareChain t name policy = .error (.duplicate table chain)) ↔
    rs.HasChain t name
  duplicate {table chain : String}
    (hRefused : rs.declareChain t name policy = .error (.duplicate table chain)) :
    chain = name ∧ ∃ owner, rs.table? t = some owner ∧ owner.name = table
  refused {refusal : ChainRefusal} (hRefused : rs.declareChain t name policy = .error refusal) :
    rs.apply (.declareChain t name policy) = rs
  declared {c : ChainId} {next : Ruleset} (hNext : rs.declareChain t name policy = .ok (c, next)) :
    rs.AddsChain t name policy c next

theorem addsTable_withTable (rs : Ruleset) (name : String) :
    rs.AddsTable name ⟨rs.tables.size⟩ (rs.withTable name) where
  new := by simp [table?]
  added := by rw [table?_withTable, if_pos rfl]
  table hOther := by rw [table?_withTable, if_neg hOther]
  chain _ := rfl
  rule _ := rfl

theorem addsChain_withChain (rs : Ruleset) (t : TableId) (name policy : String) :
    rs.AddsChain t name policy ⟨rs.chains.size⟩ (rs.withChain t name policy) where
  new := by simp [chain?]
  added := by rw [chain?_withChain, if_pos rfl]
  chain hOther := by rw [chain?_withChain, if_neg hOther]
  listed hTable := by rw [table?_withChain_of_some hTable, listChain, if_pos rfl]
  table {u} hOther := by
    have hSame : rs.listChain t u = id := by
      funext table
      simp [listChain, hOther]
    rw [table?_withChain, hSame, Option.map_id, id]
  rule _ := rfl

theorem opensByName (rs : Ruleset) (name : String) : rs.OpensByName name where
  found hSame hFound := by
    rw [tableNamed?_congr (Text.sameName_iff.1 hSame)] at hFound
    exact openTable_of_taken hFound
  added hFree := ⟨_, _, openTable_of_free (hFree name (Text.sameName_iff.2 rfl)),
    addsTable_withTable rs name⟩

namespace Consistent

theorem hasChain_iff (h : rs.Consistent) :
    rs.HasChain t name ↔ ∃ c, rs.chainNamed? t name = some c := by
  constructor
  · rintro ⟨table, c, chain, hTable, hMem, hChain, hName⟩
    refine ⟨c, h.chainNamed?_eq_some_iff.2 ⟨chain, hChain, ?_, Text.sameName_iff.1 hName⟩⟩
    exact (h.mem_chains_iff hChain hTable).1 hMem
  · rintro ⟨c, hFound⟩
    obtain ⟨table, chain, hTable, hMem, hChain, hName⟩ := fold_eq_of_chainNamed?_eq_some hFound
    exact ⟨table, c, chain, hTable, hMem, hChain, Text.sameName_iff.2 hName⟩

theorem declaresByName (h : rs.Consistent) (t : TableId) (name policy : String) :
    rs.DeclaresByName t name policy := by
  have hHas : rs.HasChain t name ↔ ∃ c, rs.chainNamed? t name = some c := h.hasChain_iff
  cases hOwner : rs.table? t with
  | none =>
      have hAnswer : rs.declareChain t name policy = .error (.unknownTable t) := by
        rw [declareChain, hOwner]
      have hNone : ¬rs.HasChain t name := by
        rintro ⟨table, -, -, hTable, -⟩
        rw [hOwner] at hTable
        cases hTable
      constructor <;> simp [hAnswer, hOwner, hNone, apply, eq_comm]
  | some owner =>
      cases hFound : rs.chainNamed? t name with
      | some c =>
          have hAnswer := declareChain_of_taken policy hOwner hFound
          have hSome : rs.HasChain t name := hHas.2 ⟨c, hFound⟩
          constructor <;> simp [hAnswer, hOwner, hSome, apply, eq_comm]
      | none =>
          have hAnswer := declareChain_of_free policy hOwner hFound
          have hNone : ¬rs.HasChain t name := by
            rw [hHas, hFound]
            simp
          have hAdds := addsChain_withChain rs t name policy
          constructor <;> simp [hAnswer, hOwner, hNone]
          exact hAdds

end Consistent

end Answers

section Growth

/-! Which chain is found by name after each growth. -/

namespace Consistent

variable (h : rs.Consistent)

include h

theorem chainNamed?_withTable (hFree : rs.tableNamed? name = none) (u : TableId) (other : String) :
    (rs.withTable name).chainNamed? u other = rs.chainNamed? u other := by
  ext c
  rw [(h.withTable hFree).chainNamed?_eq_some_iff, h.chainNamed?_eq_some_iff]
  rfl

theorem chainNamed?_withChain (policy : String) (hOwner : rs.table? t = some owner)
    (hFree : rs.chainNamed? t name = none) (u : TableId) (other : String) :
    (rs.withChain t name policy).chainNamed? u other =
      if u = t ∧ Text.fold other = Text.fold name then some ⟨rs.chains.size⟩
      else rs.chainNamed? u other := by
  have hNext := h.withChain policy hOwner hFree
  split
  next hSame =>
    obtain ⟨rfl, hName⟩ := hSame
    rw [hNext.chainNamed?_eq_some_iff]
    exact ⟨_, (rs.addsChain_withChain u name policy).added, rfl, hName.symm⟩
  next hOther =>
    ext c
    rw [hNext.chainNamed?_eq_some_iff, h.chainNamed?_eq_some_iff]
    constructor
    · rintro ⟨chain, hChain, hTable, hName⟩
      rcases chain?_withChain_cases hChain with ⟨-, rfl⟩ | hOld
      · exact absurd ⟨(Option.some.inj hTable).symm, hName.symm⟩ hOther
      · exact ⟨chain, hOld, hTable, hName⟩
    · rintro ⟨chain, hChain, hTable, hName⟩
      exact ⟨chain, chain?_withChain_of_some hChain, hTable, hName⟩

theorem chainNamed?_withRule {c : ChainId} {chain : Chain} (body : RuleBody)
    (hChain : rs.chain? c = some chain) (u : TableId) (other : String) :
    (rs.withRule c body (chain.rules.length + 1)).chainNamed? u other = rs.chainNamed? u other := by
  ext d
  rw [(h.withRule body hChain).chainNamed?_eq_some_iff, h.chainNamed?_eq_some_iff, chain?_withRule]
  simp [listRule]

end Consistent

end Growth

section Refinement

/-- The index of a ruleset is the map of the tables, and the chains are found that the registry holds,
under every spelling. -/
structure Refines (rs : Ruleset) (reg : Registry) : Prop where
  tableIndex (key : String) : rs.tableIndex.lookup key = reg.tables key
  chainNamed? (t : TableId) (name : String) :
    rs.chainNamed? t name = reg.chains t (Text.fold name)
  tables_size : rs.tables.size = reg.tableCount
  chains_size : rs.chains.size = reg.chainCount

/-- The ruleset gives out the numbers that the registry gives out, and refuses what it refuses. -/
structure AnswersAs (rs : Ruleset) (reg : Registry) : Prop where
  openTable (name : String) : (rs.openTable name).1 = (reg.openTable name).1
  declareChain (t : TableId) (name policy : String) :
    (rs.declareChain t name policy).toOption.map Prod.fst = (reg.declareChain? t name).map Prod.fst

theorem isSome_table?_iff : (rs.table? t).isSome ↔ t.index < rs.tables.size := by
  simp [table?]

namespace Refines

theorem empty : Ruleset.empty.Refines Registry.empty where
  tableIndex _ := rfl
  chainNamed? t name := by simp [Ruleset.empty, Ruleset.chainNamed?, table?, Registry.empty]
  tables_size := rfl
  chains_size := rfl

variable (hRefines : rs.Refines reg)

include hRefines

theorem tableNamed? (name : String) : rs.tableNamed? name = reg.tables (Text.fold name) :=
  hRefines.tableIndex _

theorem openTable_of_taken (hTaken : rs.tableNamed? name = some t) : reg.openTable name = (t, reg) := by
  simp [Registry.openTable, ← hRefines.tableNamed?, hTaken]

theorem openTable_of_free (hFree : rs.tableNamed? name = none) :
    reg.openTable name = (⟨rs.tables.size⟩, reg.enterTable (Text.fold name)) := by
  simp [Registry.openTable, ← hRefines.tableNamed?, hFree, hRefines.tables_size]

theorem declareChain?_of_unknown (hNone : rs.table? t = none) : reg.declareChain? t name = none := by
  have hIndex : ¬t.index < rs.tables.size := by simp [← isSome_table?_iff, hNone]
  simp [Registry.declareChain?, ← hRefines.tables_size, hIndex]

theorem declareChain?_of_taken {c : ChainId} (hTaken : rs.chainNamed? t name = some c) :
    reg.declareChain? t name = none := by
  simp [Registry.declareChain?, ← hRefines.chainNamed?, hTaken]

theorem declareChain?_of_free (hOwner : rs.table? t = some owner)
    (hFree : rs.chainNamed? t name = none) :
    reg.declareChain? t name = some (⟨rs.chains.size⟩, reg.enterChain t (Text.fold name)) := by
  have hIndex := lt_of_table?_eq_some hOwner
  simp [Registry.declareChain?, ← hRefines.tables_size, hIndex, ← hRefines.chainNamed?, hFree,
    hRefines.chains_size]

/-- The same request is granted or refused, and gets the same number. -/
theorem answersAs : rs.AnswersAs reg where
  openTable name := by
    cases hName : rs.tableNamed? name with
    | some t => rw [Ruleset.openTable_of_taken hName, hRefines.openTable_of_taken hName]
    | none => rw [Ruleset.openTable_of_free hName, hRefines.openTable_of_free hName]
  declareChain t name policy := by
    cases hOwner : rs.table? t with
    | none =>
        rw [hRefines.declareChain?_of_unknown hOwner, declareChain, hOwner]
        rfl
    | some owner =>
        cases hFound : rs.chainNamed? t name with
        | some c =>
            rw [declareChain_of_taken policy hOwner hFound, hRefines.declareChain?_of_taken hFound]
            rfl
        | none =>
            rw [declareChain_of_free policy hOwner hFound,
              hRefines.declareChain?_of_free hOwner hFound]
            rfl

variable (h : rs.Consistent)

include h

theorem withTable (hFree : rs.tableNamed? name = none) :
    (rs.withTable name).Refines (reg.enterTable (Text.fold name)) where
  tableIndex key := by
    simp only [Ruleset.withTable, Registry.enterTable, List.lookup_append, hRefines.tableIndex,
      hRefines.tables_size]
    by_cases hKey : key = Text.fold name
    · have hNone : reg.tables key = none := by rw [hKey, ← hRefines.tableNamed?, hFree]
      rw [if_pos hKey, hNone, hKey, Option.none_or, List.lookup_cons_self]
    · have hOther : (key == Text.fold name) = false := beq_eq_false_iff_ne.2 hKey
      rw [if_neg hKey, List.lookup_cons, hOther, List.lookup_nil, Option.or_none]
  chainNamed? u other := by
    rw [h.chainNamed?_withTable hFree, hRefines.chainNamed?]
    rfl
  tables_size := by simp [Ruleset.withTable, Registry.enterTable, hRefines.tables_size]
  chains_size := hRefines.chains_size

theorem withChain (policy : String) (hOwner : rs.table? t = some owner)
    (hFree : rs.chainNamed? t name = none) :
    (rs.withChain t name policy).Refines (reg.enterChain t (Text.fold name)) where
  tableIndex := hRefines.tableIndex
  chainNamed? u other := by
    rw [h.chainNamed?_withChain policy hOwner hFree, Registry.enterChain, hRefines.chainNamed?,
      hRefines.chains_size]
  tables_size := by simp [Ruleset.withChain, Registry.enterChain, hRefines.tables_size]
  chains_size := by simp [Ruleset.withChain, Registry.enterChain, hRefines.chains_size]

theorem withExtension (name : String) :
    (rs.withExtension name).Refines { reg with chainCount := reg.chainCount + 1 } where
  tableIndex := hRefines.tableIndex
  chainNamed? u other := by rw [h.chainNamed?_withExtension, hRefines.chainNamed?]
  tables_size := hRefines.tables_size
  chains_size := by simp [Ruleset.withExtension, hRefines.chains_size]

theorem withRule {c : ChainId} {chain : Chain} (body : RuleBody)
    (hChain : rs.chain? c = some chain) :
    (rs.withRule c body (chain.rules.length + 1)).Refines reg where
  tableIndex := hRefines.tableIndex
  chainNamed? u other := by rw [h.chainNamed?_withRule body hChain, hRefines.chainNamed?]
  tables_size := hRefines.tables_size
  chains_size := by simp [Ruleset.withRule, hRefines.chains_size]

/-- Whatever is asked for, the ruleset goes on finding what the registry holds. -/
theorem apply (operation : Operation) : (rs.apply operation).Refines (reg.apply operation) := by
  cases operation with
  | openTable name =>
      cases hName : rs.tableNamed? name with
      | some t =>
          rw [Ruleset.apply, Ruleset.openTable_of_taken hName, Registry.apply,
            hRefines.openTable_of_taken hName]
          exact hRefines
      | none =>
          rw [Ruleset.apply, Ruleset.openTable_of_free hName, Registry.apply,
            hRefines.openTable_of_free hName]
          exact hRefines.withTable h hName
  | declareChain t name policy =>
      cases hOwner : rs.table? t with
      | none =>
          rw [Ruleset.apply, declareChain, hOwner, Registry.apply,
            hRefines.declareChain?_of_unknown hOwner]
          exact hRefines
      | some owner =>
          cases hFound : rs.chainNamed? t name with
          | some c =>
              rw [Ruleset.apply, declareChain_of_taken policy hOwner hFound, Registry.apply,
                hRefines.declareChain?_of_taken hFound]
              exact hRefines
          | none =>
              rw [Ruleset.apply, declareChain_of_free policy hOwner hFound, Registry.apply,
                hRefines.declareChain?_of_free hOwner hFound]
              exact hRefines.withChain h policy hOwner hFound
  | addExtension name => exact hRefines.withExtension h name
  | appendRule c body =>
      cases hChain : rs.chain? c with
      | none =>
          rw [Ruleset.apply, appendRule?, hChain]
          exact hRefines
      | some chain =>
          rw [Ruleset.apply, appendRule?_of_chain body hChain]
          exact hRefines.withRule h body hChain

end Refines

theorem refines_build (operations : List Operation) :
    (build operations).Refines (Registry.build operations) := by
  induction operations using List.reverseRecOn with
  | nil => exact .empty
  | append_singleton operations operation ih =>
      have hBuilt : (build operations).Built := ⟨operations, rfl⟩
      rw [build_concat, Registry.build, List.foldl_append]
      exact ih.apply hBuilt.consistent operation

/-- A ruleset stands for two maps, from names of tables and from tables with names of chains, in which
the case of ASCII letters does not matter. Whatever has been asked for, the index of the tables is the
one map, what is found by name is what the maps hold, and requests are granted and refused as the maps have it. A granted request adds one
table or one chain under a new number, with the name as it is spelt there, and changes nothing else; a
refused one changes nothing. -/
theorem refines_registry (operations : List Operation) :
    (build operations).Refines (Registry.build operations) ∧
      (∀ name, (build operations).tableNamed? name =
        (Registry.build operations).tables (Text.fold name)) ∧
      (build operations).AnswersAs (Registry.build operations) ∧
      (∀ name, (build operations).OpensByName name) ∧
      ∀ t name policy, (build operations).DeclaresByName t name policy := by
  have hBuilt : (build operations).Built := ⟨operations, rfl⟩
  have hRefines := refines_build operations
  exact ⟨hRefines, hRefines.tableNamed?, hRefines.answersAs, opensByName _,
    hBuilt.consistent.declaresByName⟩

end Refinement

end Ruleset

end PacketFlow
