import Mathlib.Data.List.Forall2
import PacketFlow.Proofs.Ruleset.Naming
import PacketFlow.Proofs.Ruleset.Target
import PacketFlow.Ruleset.Label
import PacketFlow.Ruleset.Summary

/-!
Lookups by number. What is listed in a consistent ruleset exists, so the chains of a table and the
rules of a chain can be read, every chain and rule has a label, and every ruleset can be summed up.

An operation may also pass over a number that is not in use, where it could as well have failed. The
strict operations look up what their namesakes do, and give no answer where a number is not in use.
In a consistent ruleset they answer as their namesakes do.
-/
namespace PacketFlow

theorem forall₂_getElem? {α β : Type} {R : α → β → Prop} {xs : List α} {ys : List β}
    (hAll : List.Forall₂ R xs ys) {i : Nat} {y : β} (hAt : ys[i]? = some y) :
    ∃ x, xs[i]? = some x ∧ R x y := by
  induction hAll generalizing i with
  | nil => simp at hAt
  | cons hHead hTail ih =>
      cases i with
      | zero =>
          obtain rfl := Option.some.inj hAt
          exact ⟨_, rfl, hHead⟩
      | succ i => exact ih hAt

theorem mapM_eq_some_iff {α β : Type} {f : α → Option β} {xs : List α} {ys : List β} :
    xs.mapM f = some ys ↔ List.Forall₂ (fun x y => f x = some y) xs ys := by
  induction xs generalizing ys with
  | nil => simp [eq_comm]
  | cons x xs ih =>
      simp only [List.mapM_cons, Option.bind_eq_bind, Option.bind_eq_some_iff, Option.pure_def,
        Option.some.injEq, List.forall₂_cons_left_iff, ih]
      constructor
      · rintro ⟨y, hHead, ys, hTail, rfl⟩
        exact ⟨y, ys, hHead, hTail, rfl⟩
      · rintro ⟨y, ys, hHead, hTail, rfl⟩
        exact ⟨y, hHead, ys, hTail, rfl⟩

theorem exists_mapM_eq_some {α β : Type} {f : α → Option β} {xs : List α}
    (h : ∀ x ∈ xs, ∃ y, f x = some y) : ∃ ys, xs.mapM f = some ys := by
  induction xs with
  | nil => exact ⟨[], rfl⟩
  | cons x xs ih =>
      obtain ⟨y, hHead⟩ := h x (List.mem_cons_self ..)
      obtain ⟨ys, hTail⟩ := ih fun z hz => h z (List.mem_cons_of_mem _ hz)
      exact ⟨y :: ys, mapM_eq_some_iff.2 (.cons hHead (mapM_eq_some_iff.1 hTail))⟩

/-- What is read of a list is read again by every function that agrees wherever there was an answer. -/
theorem mapM_of_some {α β : Type} {f g : α → Option β} {xs : List α} {ys : List β}
    (hAgain : ∀ x ∈ xs, ∀ y, f x = some y → g x = some y) (hRead : xs.mapM f = some ys) :
    xs.mapM g = some ys := by
  rw [mapM_eq_some_iff] at hRead ⊢
  induction hRead with
  | nil => exact .nil
  | cons hHead _ ih =>
      rw [List.forall_mem_cons] at hAgain
      exact .cons (hAgain.1 _ hHead) (ih hAgain.2)

theorem exists_mapM_forall₂ {α α' β β' : Type} {f : α → Option β} {f' : α' → Option β'}
    {R : β → β' → Prop} {xs : List α} {xs' : List α'}
    (hRead : List.Forall₂ (fun x x' => ∃ y y', f x = some y ∧ f' x' = some y' ∧ R y y') xs xs') :
    ∃ ys ys', xs.mapM f = some ys ∧ xs'.mapM f' = some ys' ∧ List.Forall₂ R ys ys' := by
  simp only [mapM_eq_some_iff]
  induction hRead with
  | nil => exact ⟨[], [], .nil, .nil, .nil⟩
  | cons hHead hTail ih =>
      obtain ⟨y, y', hFirst, hFirst', hRelated⟩ := hHead
      obtain ⟨ys, ys', hRest, hRest', hAll⟩ := ih
      exact ⟨y :: ys, y' :: ys', .cons hFirst hRest, .cons hFirst' hRest', .cons hRelated hAll⟩

theorem mapM_pair_eq_some_iff {α β : Type} {f : α → Option β} {xs : List α}
    {ps : List (α × β)} :
    xs.mapM (fun x => (f x).map (x, ·)) = some ps ↔
      ps.map Prod.fst = xs ∧ ∀ p ∈ ps, f p.1 = some p.2 := by
  rw [mapM_eq_some_iff]
  constructor
  · intro hRead
    induction hRead with
    | nil => exact ⟨rfl, by simp⟩
    | cons hHead hTail ih =>
        obtain ⟨y, hFirst, rfl⟩ := Option.map_eq_some_iff.1 hHead
        exact ⟨by rw [List.map_cons, ih.1], List.forall_mem_cons.2 ⟨hFirst, ih.2⟩⟩
  · rintro ⟨rfl, hRead⟩
    induction ps with
    | nil => exact .nil
    | cons p ps ih =>
        rw [List.forall_mem_cons] at hRead
        exact .cons (by rw [hRead.1]; rfl) (ih hRead.2)

theorem findM?_eq_some {α : Type} {test? : α → Option Bool} {test : α → Bool} {xs : List α}
    (hTest : ∀ x ∈ xs, test? x = some (test x)) : xs.findM? test? = some (xs.find? test) := by
  induction xs with
  | nil => rfl
  | cons x xs ih =>
      rw [List.forall_mem_cons] at hTest
      rw [List.findM?, hTest.1, List.find?]
      cases test x with
      | true => rfl
      | false => exact ih hTest.2

namespace Ruleset

variable {rs : Ruleset}

/-- The chain of that name within a table. The table and every chain that is looked at must exist. -/
def strictChainNamed? (rs : Ruleset) (table : TableId) (name : String) :
    Option (Option ChainId) := do
  let owner ← rs.table? table
  owner.chains.findM? fun id => (rs.chain? id).map fun chain => Text.sameName chain.name name

/-- Adds a chain at the end of a table, unless the table has a chain of that name. The table and
every chain that is looked at must exist. -/
def strictDeclareChain? (rs : Ruleset) (table : TableId) (name policy : String) :
    Option (Except ChainRefusal (ChainId × Ruleset)) := do
  let owner ← rs.table? table
  let taken ← rs.strictChainNamed? table name
  if taken.isSome then return .error (.duplicate owner.name name)
  else return .ok (⟨rs.chains.size⟩, rs.withChain table name policy)

theorem rulesOf?_eq_some {c : ChainId} {rules : List (RuleId × Rule)}
    (hRules : rs.rulesOf? c = some rules) :
    ∃ chain, rs.chain? c = some chain ∧ rules.map Prod.fst = chain.rules ∧
      ∀ rule ∈ rules, rs.rule? rule.1 = some rule.2 := by
  rw [rulesOf?, Option.bind_eq_bind, Option.bind_eq_some_iff] at hRules
  obtain ⟨chain, hChain, hRules⟩ := hRules
  exact ⟨chain, hChain, mapM_pair_eq_some_iff.1 hRules⟩

namespace Consistent

theorem strictChainNamed?_eq (h : rs.Consistent) {id : TableId} {table : Table}
    (hTable : rs.table? id = some table) (name : String) :
    rs.strictChainNamed? id name = some (rs.chainNamed? id name) := by
  simp only [strictChainNamed?, chainNamed?, hTable, Option.bind_eq_bind, Option.bind_some]
  refine findM?_eq_some fun c hMem => ?_
  obtain ⟨chain, hChain, -⟩ := h.chain_of_mem hTable hMem
  simp [hChain]

theorem strictDeclareChain?_eq (h : rs.Consistent) {id : TableId} {table : Table}
    (hTable : rs.table? id = some table) (name policy : String) :
    rs.strictDeclareChain? id name policy = some (rs.declareChain id name policy) := by
  simp only [strictDeclareChain?, hTable, h.strictChainNamed?_eq hTable, Option.bind_eq_bind,
    Option.bind_some]
  cases hFound : rs.chainNamed? id name with
  | some taken =>
      rw [declareChain_of_taken policy hTable hFound]
      rfl
  | none =>
      rw [declareChain_of_free policy hTable hFound]
      rfl

theorem exists_rulesOf? (h : rs.Consistent) {c : ChainId} {chain : Chain}
    (hChain : rs.chain? c = some chain) : ∃ rules, rs.rulesOf? c = some rules := by
  simp only [rulesOf?, hChain, Option.bind_eq_bind, Option.bind_some]
  refine exists_mapM_eq_some fun r hMem => ?_
  obtain ⟨rule, hRule, -⟩ := h.rule_of_mem hChain hMem
  exact ⟨(r, rule), by rw [hRule, Option.map_some]⟩

theorem of_mem_rulesOf? (h : rs.Consistent) {c : ChainId} {rules : List (RuleId × Rule)}
    {rule : RuleId × Rule} (hRules : rs.rulesOf? c = some rules) (hMem : rule ∈ rules) :
    rs.rule? rule.1 = some rule.2 ∧ rule.2.chain = c := by
  obtain ⟨chain, hChain, hFirst, hRead⟩ := rulesOf?_eq_some hRules
  obtain ⟨found, hFound, hOwner⟩ :=
    h.rule_of_mem hChain (hFirst ▸ List.mem_map_of_mem hMem)
  obtain rfl := Option.some.inj (hFound.symm.trans (hRead rule hMem))
  exact ⟨hFound, hOwner⟩

theorem exists_chainLabel? (h : rs.Consistent) {c : ChainId} {chain : Chain}
    (hChain : rs.chain? c = some chain) : ∃ label, rs.chainLabel? c = some label := by
  cases hOwner : chain.table with
  | none => exact ⟨_, chainLabel?_of_outside hChain (.inl hOwner)⟩
  | some t =>
      obtain ⟨table, hTable, -⟩ := h.mem_of_chain hChain hOwner
      rw [chainLabel?_of_table hChain hOwner (h.isExtension_of_table hChain hOwner), hTable]
      exact ⟨_, rfl⟩

theorem exists_chainsOf? (h : rs.Consistent) {id : TableId} {table : Table}
    (hTable : rs.table? id = some table) : ∃ chains, rs.chainsOf? id = some chains := by
  simp only [chainsOf?, hTable, Option.bind_eq_bind, Option.bind_some]
  refine exists_mapM_eq_some fun c hMem => ?_
  obtain ⟨chain, hChain, -⟩ := h.chain_of_mem hTable hMem
  exact ⟨(c, chain), by rw [hChain, Option.map_some]⟩

theorem exists_summary? (h : rs.Consistent) : ∃ tables, rs.summary? = some tables := by
  refine exists_mapM_eq_some fun id hMem => ?_
  obtain ⟨table, hTable⟩ := h.mem_tableIds_iff.1 hMem
  obtain ⟨chains, hChains⟩ := h.exists_chainsOf? hTable
  exact ⟨_, by rw [tableSummary?, hTable, hChains]; rfl⟩

/-- A rule has a label if its own targets exist. -/
theorem exists_ruleLabel?_of_targets (h : rs.Consistent) {r : RuleId} {rule : Rule}
    (hRule : rs.rule? r = some rule)
    (hFound : ∀ transfer c, rule.target? transfer = some c → ∃ chain, rs.chain? c = some chain) :
    ∃ label, rs.ruleLabel? r = some label := by
  obtain ⟨owner, hOwner, -⟩ := h.mem_of_rule hRule
  obtain ⟨place, hPlace⟩ := h.exists_chainLabel? hOwner
  have hDestination : ∃ destination, rs.destinationLabel? rule = some destination := by
    cases hJump : rule.jump with
    | some target =>
        obtain ⟨chain, hChain⟩ := hFound .jump target hJump
        simp only [destinationLabel?, hJump, hChain, Option.bind_eq_bind, Option.bind_some]
        exact ⟨_, rfl⟩
    | none =>
        cases hGoto : rule.goto with
        | some target =>
            obtain ⟨chain, hChain⟩ := hFound .goto target hGoto
            simp only [destinationLabel?, hJump, hGoto, hChain, Option.bind_eq_bind,
              Option.bind_some]
            exact ⟨_, rfl⟩
        | none =>
            simp only [destinationLabel?, hJump, hGoto, hOwner, Option.bind_eq_bind,
              Option.bind_some]
            exact ⟨_, rfl⟩
  obtain ⟨destination, hDestination⟩ := hDestination
  simp only [ruleLabel?, hRule, hPlace, hDestination, Option.bind_eq_bind, Option.bind_some]
  exact ⟨_, rfl⟩

theorem exists_ruleLabel? (h : rs.Consistent) (hTargets : rs.TargetsExist) {r : RuleId}
    {rule : Rule} (hRule : rs.rule? r = some rule) : ∃ label, rs.ruleLabel? r = some label :=
  h.exists_ruleLabel?_of_targets hRule (hTargets r rule hRule)

end Consistent

end Ruleset

end PacketFlow
