import Mathlib.Data.List.Induction
import PacketFlow.Ruleset.Basic

/-!
How rulesets come about. Four operations build a ruleset from nothing. Each of them either refuses
and leaves the ruleset as it is, or adds one thing at the end of its list; `Grows` says what is
added, and what the operation made sure of before. Everything that holds of all rulesets is proved
by induction along these steps.
-/
namespace PacketFlow

/-- A request for one of the operations that build rulesets. -/
inductive Operation where
  | openTable (name : String)
  | declareChain (table : TableId) (name policy : String)
  | addExtension (name : String)
  | appendRule (chain : ChainId) (body : RuleBody)
  deriving DecidableEq, Repr

namespace Ruleset

variable {rs next : Ruleset}

/-- Carries out a request. One that is refused changes nothing. -/
def apply (rs : Ruleset) : Operation → Ruleset
  | .openTable name => (rs.openTable name).2
  | .declareChain table name policy =>
    match rs.declareChain table name policy with
    | .ok (_, next) => next
    | .error _ => rs
  | .addExtension name => (rs.addExtension name).2
  | .appendRule chain body =>
    match rs.appendRule? chain body with
    | some (_, next) => next
    | none => rs

/-- The ruleset that requests lead to, one after the other. -/
def build (operations : List Operation) : Ruleset :=
  operations.foldl apply empty

/-- A ruleset that some sequence of requests leads to. -/
def Built (rs : Ruleset) : Prop :=
  ∃ operations, build operations = rs

/-- The ruleset with a new table at the end. -/
def withTable (rs : Ruleset) (name : String) : Ruleset :=
  { rs with
    tables := rs.tables.push ⟨name, []⟩
    tableIndex := rs.tableIndex ++ [(Text.fold name, ⟨rs.tables.size⟩)] }

/-- The ruleset with a new chain at the end of a table. -/
def withChain (rs : Ruleset) (table : TableId) (name policy : String) : Ruleset :=
  { rs with
    tables := rs.tables.modify table.index fun t => { t with chains := t.chains ++ [⟨rs.chains.size⟩] }
    chains := rs.chains.push ⟨name, policy, some table, false, []⟩ }

/-- The ruleset with a new extension target. -/
def withExtension (rs : Ruleset) (name : String) : Ruleset :=
  { rs with chains := rs.chains.push ⟨name, unsetPolicy, none, true, []⟩ }

/-- The ruleset with a new rule at the end of a chain. -/
def withRule (rs : Ruleset) (chain : ChainId) (body : RuleBody) (position : Nat) : Ruleset :=
  { rs with
    chains := rs.chains.modify chain.index fun c => { c with rules := c.rules ++ [⟨rs.rules.size⟩] }
    rules := rs.rules.push ⟨body, chain, position⟩ }

/-- One thing is added to a ruleset. A table is added only under a free name, a chain only to a table
that exists and under a name free in it, a rule only to a chain that exists. -/
inductive Grows (rs : Ruleset) : Ruleset → Prop where
  | table {name : String} (hFree : rs.tableNamed? name = none) : rs.Grows (rs.withTable name)
  | chain {id : TableId} {owner : Table} {name : String} (policy : String)
      (hOwner : rs.table? id = some owner) (hFree : rs.chainNamed? id name = none) :
      rs.Grows (rs.withChain id name policy)
  | extension (name : String) : rs.Grows (rs.withExtension name)
  | rule {id : ChainId} {owner : Chain} (body : RuleBody) (hOwner : rs.chain? id = some owner) :
      rs.Grows (rs.withRule id body (owner.rules.length + 1))

section Operations

theorem openTable_of_free {name : String} (hFree : rs.tableNamed? name = none) :
    rs.openTable name = (⟨rs.tables.size⟩, rs.withTable name) := by
  simp [openTable, hFree, withTable]

theorem openTable_of_taken {name : String} {id : TableId} (hTaken : rs.tableNamed? name = some id) :
    rs.openTable name = (id, rs) := by
  simp [openTable, hTaken]

theorem declareChain_of_free {id : TableId} {owner : Table} {name : String} (policy : String)
    (hOwner : rs.table? id = some owner) (hFree : rs.chainNamed? id name = none) :
    rs.declareChain id name policy = .ok (⟨rs.chains.size⟩, rs.withChain id name policy) := by
  simp [declareChain, hOwner, hFree, withChain]

theorem declareChain_of_taken {id : TableId} {owner : Table} {name : String} {taken : ChainId}
    (policy : String) (hOwner : rs.table? id = some owner)
    (hTaken : rs.chainNamed? id name = some taken) :
    rs.declareChain id name policy = .error (.duplicate owner.name name) := by
  simp [declareChain, hOwner, hTaken]

theorem addExtension_eq (name : String) :
    rs.addExtension name = (⟨rs.chains.size⟩, rs.withExtension name) :=
  rfl

theorem appendRule?_of_chain {id : ChainId} {owner : Chain} (body : RuleBody)
    (hOwner : rs.chain? id = some owner) :
    rs.appendRule? id body =
      some (⟨rs.rules.size⟩, rs.withRule id body (owner.rules.length + 1)) := by
  simp [appendRule?, hOwner, withRule]

/-- A request is refused, or the ruleset grows. -/
theorem apply_eq_or_grows (rs : Ruleset) (operation : Operation) :
    rs.apply operation = rs ∨ rs.Grows (rs.apply operation) := by
  cases operation with
  | openTable name =>
      cases hName : rs.tableNamed? name with
      | some id => exact Or.inl (by simp [apply, openTable_of_taken hName])
      | none =>
          right
          rw [apply, openTable_of_free hName]
          exact Grows.table hName
  | declareChain id name policy =>
      cases hOwner : rs.table? id with
      | none => exact Or.inl (by simp [apply, Ruleset.declareChain, hOwner])
      | some owner =>
          cases hName : rs.chainNamed? id name with
          | some taken => exact Or.inl (by simp [apply, declareChain_of_taken policy hOwner hName])
          | none =>
              right
              rw [apply, declareChain_of_free policy hOwner hName]
              exact Grows.chain policy hOwner hName
  | addExtension name => exact Or.inr (Grows.extension name)
  | appendRule id body =>
      cases hOwner : rs.chain? id with
      | none => exact Or.inl (by simp [apply, appendRule?, hOwner])
      | some owner =>
          right
          rw [apply, appendRule?_of_chain body hOwner]
          exact Grows.rule body hOwner

/-- Every growth is one request that is not refused. -/
theorem Grows.exists_apply (hGrows : rs.Grows next) : ∃ operation, rs.apply operation = next := by
  cases hGrows with
  | @table name hFree => exact ⟨.openTable name, by rw [apply, openTable_of_free hFree]⟩
  | @chain id owner name policy hOwner hFree =>
      exact ⟨.declareChain id name policy, by rw [apply, declareChain_of_free policy hOwner hFree]⟩
  | extension name => exact ⟨.addExtension name, rfl⟩
  | @rule id owner body hOwner =>
      exact ⟨.appendRule id body, by rw [apply, appendRule?_of_chain body hOwner]⟩

end Operations

namespace Built

theorem empty : Ruleset.empty.Built :=
  ⟨[], rfl⟩

theorem grows (hBuilt : rs.Built) (hGrows : rs.Grows next) : next.Built := by
  obtain ⟨operations, rfl⟩ := hBuilt
  obtain ⟨operation, rfl⟩ := hGrows.exists_apply
  exact ⟨operations ++ [operation], by simp [build]⟩

/-- What holds of the empty ruleset and survives every growth holds of all rulesets. -/
theorem induction {Holds : Ruleset → Prop} (hEmpty : Holds Ruleset.empty)
    (hGrows : ∀ rs next, Holds rs → rs.Grows next → Holds next) (hBuilt : rs.Built) : Holds rs := by
  obtain ⟨operations, rfl⟩ := hBuilt
  induction operations using List.reverseRecOn with
  | nil => exact hEmpty
  | append_singleton operations operation ih =>
      rw [build, List.foldl_append]
      change Holds ((build operations).apply operation)
      rcases (build operations).apply_eq_or_grows operation with hSame | hStep
      · rwa [hSame]
      · exact hGrows _ _ ih hStep

end Built

section Lookup

/-! What is found after each growth. The new thing stands under the first number that was free, and
what was there before is found as it was, but for the list of its owner, which is longer by one. -/

theorem table?_withTable (name : String) (t : TableId) :
    (rs.withTable name).table? t =
      if t = ⟨rs.tables.size⟩ then some ⟨name, []⟩ else rs.table? t := by
  cases t
  simp [withTable, table?, Array.getElem?_push]

theorem table?_withTable_of_some {name : String} {t : TableId} {table : Table}
    (hTable : rs.table? t = some table) : (rs.withTable name).table? t = some table := by
  have hOld : t ≠ ⟨rs.tables.size⟩ := fun hNew => by simpa [hNew] using lt_of_table?_eq_some hTable
  rwa [table?_withTable, if_neg hOld]

theorem table?_withTable_cases {name : String} {t : TableId} {table : Table}
    (hTable : (rs.withTable name).table? t = some table) :
    (t = ⟨rs.tables.size⟩ ∧ table = ⟨name, []⟩) ∨ rs.table? t = some table := by
  rw [table?_withTable] at hTable
  split at hTable
  next hNew => exact Or.inl ⟨hNew, (Option.some.inj hTable).symm⟩
  next => exact Or.inr hTable

theorem chain?_withExtension (name : String) (c : ChainId) :
    (rs.withExtension name).chain? c =
      if c = ⟨rs.chains.size⟩ then some ⟨name, unsetPolicy, none, true, []⟩ else rs.chain? c := by
  cases c
  simp [withExtension, chain?, Array.getElem?_push]

theorem chain?_withExtension_new (name : String) :
    (rs.withExtension name).chain? ⟨rs.chains.size⟩ = some ⟨name, unsetPolicy, none, true, []⟩ := by
  rw [chain?_withExtension, if_pos rfl]

theorem chain?_withExtension_of_some {name : String} {c : ChainId} {chain : Chain}
    (hChain : rs.chain? c = some chain) : (rs.withExtension name).chain? c = some chain := by
  have hOld : c ≠ ⟨rs.chains.size⟩ := fun hNew => by simpa [hNew] using lt_of_chain?_eq_some hChain
  rwa [chain?_withExtension, if_neg hOld]

theorem chain?_withExtension_cases {name : String} {c : ChainId} {chain : Chain}
    (hChain : (rs.withExtension name).chain? c = some chain) :
    (c = ⟨rs.chains.size⟩ ∧ chain = ⟨name, unsetPolicy, none, true, []⟩) ∨
      rs.chain? c = some chain := by
  rw [chain?_withExtension] at hChain
  split at hChain
  next hNew => exact Or.inl ⟨hNew, (Option.some.inj hChain).symm⟩
  next => exact Or.inr hChain

theorem chain?_withChain (id : TableId) (name policy : String) (c : ChainId) :
    (rs.withChain id name policy).chain? c =
      if c = ⟨rs.chains.size⟩ then some ⟨name, policy, some id, false, []⟩ else rs.chain? c := by
  cases c
  simp [withChain, chain?, Array.getElem?_push]

theorem chain?_withChain_of_some {id : TableId} {name policy : String} {c : ChainId} {chain : Chain}
    (hChain : rs.chain? c = some chain) :
    (rs.withChain id name policy).chain? c = some chain := by
  have hOld : c ≠ ⟨rs.chains.size⟩ := fun hNew => by simpa [hNew] using lt_of_chain?_eq_some hChain
  rwa [chain?_withChain, if_neg hOld]

theorem chain?_withChain_cases {id : TableId} {name policy : String} {c : ChainId} {chain : Chain}
    (hChain : (rs.withChain id name policy).chain? c = some chain) :
    (c = ⟨rs.chains.size⟩ ∧ chain = ⟨name, policy, some id, false, []⟩) ∨ rs.chain? c = some chain := by
  rw [chain?_withChain] at hChain
  split at hChain
  next hNew => exact Or.inl ⟨hNew, (Option.some.inj hChain).symm⟩
  next => exact Or.inr hChain

/-- The table as it is after a chain has been added at the end of the table `id`. -/
def listChain (rs : Ruleset) (id t : TableId) (table : Table) : Table :=
  { table with chains := table.chains ++ if t = id then [⟨rs.chains.size⟩] else [] }

theorem mem_listChain {id t : TableId} {table : Table} {c : ChainId} :
    c ∈ (rs.listChain id t table).chains ↔
      c ∈ table.chains ∨ (t = id ∧ c = ⟨rs.chains.size⟩) := by
  rw [listChain]
  split <;> simp [*]

theorem table?_withChain (id : TableId) (name policy : String) (t : TableId) :
    (rs.withChain id name policy).table? t = (rs.table? t).map (rs.listChain id t) := by
  have hIndex : id.index = t.index ↔ t = id := by cases id; cases t; simp [eq_comm]
  have hList : rs.listChain id t = fun table =>
      { table with chains := table.chains ++ if t = id then [⟨rs.chains.size⟩] else [] } := rfl
  by_cases hOwner : t = id
  · subst hOwner
    simp [withChain, table?, Array.getElem?_modify, hList]
  · simp [withChain, table?, Array.getElem?_modify, hList, hIndex, hOwner]

theorem table?_withChain_of_some {id : TableId} {name policy : String} {t : TableId} {table : Table}
    (hTable : rs.table? t = some table) :
    (rs.withChain id name policy).table? t = some (rs.listChain id t table) := by
  rw [table?_withChain, hTable, Option.map_some]

theorem table?_withChain_cases {id : TableId} {name policy : String} {t : TableId} {table : Table}
    (hTable : (rs.withChain id name policy).table? t = some table) :
    ∃ old, rs.table? t = some old ∧ table = rs.listChain id t old := by
  rw [table?_withChain, Option.map_eq_some_iff] at hTable
  obtain ⟨old, hOld, rfl⟩ := hTable
  exact ⟨old, hOld, rfl⟩

theorem rule?_withRule (id : ChainId) (body : RuleBody) (position : Nat) (r : RuleId) :
    (rs.withRule id body position).rule? r =
      if r = ⟨rs.rules.size⟩ then some ⟨body, id, position⟩ else rs.rule? r := by
  cases r
  simp [withRule, rule?, Array.getElem?_push]

theorem rule?_withRule_of_some {id : ChainId} {body : RuleBody} {position : Nat} {r : RuleId}
    {rule : Rule} (hRule : rs.rule? r = some rule) :
    (rs.withRule id body position).rule? r = some rule := by
  have hOld : r ≠ ⟨rs.rules.size⟩ := fun hNew => by simpa [hNew] using lt_of_rule?_eq_some hRule
  rwa [rule?_withRule, if_neg hOld]

theorem rule?_withRule_cases {id : ChainId} {body : RuleBody} {position : Nat} {r : RuleId}
    {rule : Rule} (hRule : (rs.withRule id body position).rule? r = some rule) :
    (r = ⟨rs.rules.size⟩ ∧ rule = ⟨body, id, position⟩) ∨ rs.rule? r = some rule := by
  rw [rule?_withRule] at hRule
  split at hRule
  next hNew => exact Or.inl ⟨hNew, (Option.some.inj hRule).symm⟩
  next => exact Or.inr hRule

/-- The chain as it is after a rule has been added at the end of the chain `id`. -/
def listRule (rs : Ruleset) (id c : ChainId) (chain : Chain) : Chain :=
  { chain with rules := chain.rules ++ if c = id then [⟨rs.rules.size⟩] else [] }

theorem mem_listRule {id c : ChainId} {chain : Chain} {r : RuleId} :
    r ∈ (rs.listRule id c chain).rules ↔ r ∈ chain.rules ∨ (c = id ∧ r = ⟨rs.rules.size⟩) := by
  rw [listRule]
  split <;> simp [*]

theorem chain?_withRule (id : ChainId) (body : RuleBody) (position : Nat) (c : ChainId) :
    (rs.withRule id body position).chain? c = (rs.chain? c).map (rs.listRule id c) := by
  have hIndex : id.index = c.index ↔ c = id := by cases id; cases c; simp [eq_comm]
  have hList : rs.listRule id c = fun chain =>
      { chain with rules := chain.rules ++ if c = id then [⟨rs.rules.size⟩] else [] } := rfl
  by_cases hOwner : c = id
  · subst hOwner
    simp [withRule, chain?, Array.getElem?_modify, hList]
  · simp [withRule, chain?, Array.getElem?_modify, hList, hIndex, hOwner]

theorem chain?_withRule_of_some {id : ChainId} {body : RuleBody} {position : Nat} {c : ChainId}
    {chain : Chain} (hChain : rs.chain? c = some chain) :
    (rs.withRule id body position).chain? c = some (rs.listRule id c chain) := by
  rw [chain?_withRule, hChain, Option.map_some]

theorem chain?_withRule_cases {id : ChainId} {body : RuleBody} {position : Nat} {c : ChainId}
    {chain : Chain} (hChain : (rs.withRule id body position).chain? c = some chain) :
    ∃ old, rs.chain? c = some old ∧ chain = rs.listRule id c old := by
  rw [chain?_withRule, Option.map_eq_some_iff] at hChain
  obtain ⟨old, hOld, rfl⟩ := hChain
  exact ⟨old, hOld, rfl⟩

end Lookup

end Ruleset

end PacketFlow
