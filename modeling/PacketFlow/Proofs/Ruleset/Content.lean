import Mathlib.Data.List.Forall2
import PacketFlow.Proofs.Ruleset.Naming
import PacketFlow.Proofs.Ruleset.Persistence
import PacketFlow.Proofs.Ruleset.Target

/-!
What the tables say, told without numbers. The content of a table tells its chains in order with
their rules in order, and targets by name. As long as targets exist, every growth of the ruleset
changes the content of one table at most, and the change depends on the content of that table alone.
-/
namespace PacketFlow

/-- Where a rule hands a packet, by name: to an extension, or to a chain of a table. -/
inductive Destination where
  | extension (name : String)
  | chain (name : String)
  deriving DecidableEq, Repr

/-- What a rule says and its position. -/
structure RuleContent where
  comment : Option String
  protocol : Option String
  source : Option String
  destination : Option String
  inInterface : Option String
  outInterface : Option String
  jump : Option Destination
  goto : Option Destination
  position : Nat
  deriving DecidableEq, Repr

/-- A chain and its rules, in order. -/
structure ChainContent where
  name : String
  policy : String
  rules : List RuleContent
  deriving DecidableEq, Repr

/-- A table and its chains, in order. -/
structure TableContent where
  name : String
  chains : List ChainContent
  deriving DecidableEq, Repr

/-- What the body of a rule says, if its targets have these names. -/
def RuleBody.content (body : RuleBody) (jump goto : Option Destination) (position : Nat) :
    RuleContent where
  comment := body.comment
  protocol := body.protocol
  source := body.source
  destination := body.destination
  inInterface := body.inInterface
  outInterface := body.outInterface
  jump := jump
  goto := goto
  position := position

/-- The chain with one more rule, in the next position. -/
def ChainContent.addRule (chain : ChainContent) (body : RuleBody) (jump goto : Option Destination) :
    ChainContent :=
  { chain with rules := chain.rules ++ [body.content jump goto (chain.rules.length + 1)] }

namespace TableContent

/-- The chain of that name. -/
def chainNamed? (content : TableContent) (name : String) : Option ChainContent :=
  content.chains.find? fun chain => Text.sameName chain.name name

/-- The table with one more chain. -/
def addChain (content : TableContent) (name policy : String) : TableContent :=
  { content with chains := content.chains ++ [⟨name, policy, []⟩] }

/-- The table with one more rule in the chain of that name. -/
def addRule (content : TableContent) (name : String) (body : RuleBody)
    (jump goto : Option Destination) : TableContent :=
  { content with
    chains := content.chains.map fun chain =>
      if Text.sameName chain.name name then chain.addRule body jump goto else chain }

end TableContent

namespace Ruleset

/-- What a target is called, and of which sort it is. -/
def destination? (rs : Ruleset) (c : ChainId) : Option Destination :=
  (rs.chain? c).map fun chain =>
    if chain.isExtension then .extension chain.name else .chain chain.name

def ruleContent (rs : Ruleset) (rule : Rule) : RuleContent :=
  rule.content (rule.jump.bind rs.destination?) (rule.goto.bind rs.destination?) rule.position

def chainContent (rs : Ruleset) (chain : Chain) : ChainContent where
  name := chain.name
  policy := chain.policy
  rules := chain.rules.filterMap fun r => (rs.rule? r).map rs.ruleContent

def tableContent (rs : Ruleset) (table : Table) : TableContent where
  name := table.name
  chains := table.chains.filterMap fun c => (rs.chain? c).map rs.chainContent

/-- The content of a table. -/
def content? (rs : Ruleset) (t : TableId) : Option TableContent :=
  (rs.table? t).map rs.tableContent

/-- The content of the table of that name. -/
def contentNamed? (rs : Ruleset) (name : String) : Option TableContent :=
  (rs.tableNamed? name).bind rs.content?

variable {rs later : Ruleset}

@[simp]
theorem tableContent_name (rs : Ruleset) (table : Table) :
    (rs.tableContent table).name = table.name :=
  rfl

theorem destination?_of_chain? {c : ChainId} {chain : Chain}
    (hChain : rs.chain? c = some chain) (hDeclared : chain.isExtension = false) :
    rs.destination? c = some (.chain chain.name) := by
  simp [destination?, hChain, hDeclared]

theorem chainNamed?_tableContent {t : TableId} {table : Table} (hTable : rs.table? t = some table)
    (name : String) :
    (rs.tableContent table).chainNamed? name =
      (rs.chainNamed? t name).bind fun c => (rs.chain? c).map rs.chainContent := by
  rw [TableContent.chainNamed?, tableContent, List.find?_filterMap, chainNamed?, hTable]
  simp only [Option.any_map, Option.bind_eq_bind, Option.bind_some]
  rfl

theorem Consistent.isSome_chainNamed?_tableContent (h : rs.Consistent) {t : TableId} {table : Table}
    (hTable : rs.table? t = some table) (name : String) :
    ((rs.tableContent table).chainNamed? name).isSome = (rs.chainNamed? t name).isSome := by
  rw [chainNamed?_tableContent hTable]
  cases hFound : rs.chainNamed? t name with
  | none => rfl
  | some c =>
      obtain ⟨chain, hChain, -⟩ := h.chainNamed?_eq_some_iff.1 hFound
      simp [hChain]

/-- The content of a table has the content of each of its chains under the name of the chain. -/
theorem Consistent.chainNamed?_eq_chainContent (h : rs.Consistent) {t : TableId} {table : Table}
    {c : ChainId} {chain : Chain} {name : String} (hTable : rs.table? t = some table)
    (hChain : rs.chain? c = some chain) (hOwner : chain.table = some t)
    (hName : Text.fold chain.name = Text.fold name) :
    (rs.tableContent table).chainNamed? name = some (rs.chainContent chain) := by
  rw [chainNamed?_tableContent hTable, h.chainNamed?_eq_some_iff.2 ⟨chain, hChain, hOwner, hName⟩,
    Option.bind_some, hChain, Option.map_some]

/-- A chain that a table has is told among the chains of its content. -/
theorem Consistent.destination?_of_chainNamed? (h : rs.Consistent) {t : TableId} {table : Table}
    (hTable : rs.table? t = some table) (name : String) :
    ((rs.tableContent table).chainNamed? name).map (Destination.chain ·.name) =
      (rs.chainNamed? t name).bind rs.destination? := by
  rw [chainNamed?_tableContent hTable]
  cases hFound : rs.chainNamed? t name with
  | none => rfl
  | some c =>
      obtain ⟨chain, hChain, hOwner, -⟩ := h.chainNamed?_eq_some_iff.1 hFound
      have hDeclared := h.isExtension_of_table hChain hOwner
      simp only [Option.bind_some, hChain, Option.map_some, destination?_of_chain? hChain hDeclared]
      rfl

/-- Where everything that is looked up is found, the list of what is found has one entry for each. -/
theorem forall₂_filterMap_map {α β γ : Type} {f : α → Option β} {g : β → γ} {xs : List α}
    (hFound : ∀ x ∈ xs, ∃ y, f x = some y) :
    List.Forall₂ (fun x z => ∃ y, f x = some y ∧ g y = z) xs
      (xs.filterMap fun x => (f x).map g) := by
  induction xs with
  | nil => exact .nil
  | cons x xs ih =>
      obtain ⟨⟨y, hHead⟩, hRest⟩ := List.forall_mem_cons.1 hFound
      rw [List.filterMap_cons_some (by rw [hHead, Option.map_some])]
      exact .cons ⟨y, hHead, rfl⟩ (ih hRest)

theorem Consistent.rules_chainContent (h : rs.Consistent) {c : ChainId} {chain : Chain}
    (hChain : rs.chain? c = some chain) :
    List.Forall₂ (fun r content => ∃ rule, rs.rule? r = some rule ∧ rs.ruleContent rule = content)
      chain.rules (rs.chainContent chain).rules :=
  forall₂_filterMap_map fun _ hMem => (h.rule_of_mem hChain hMem).imp fun _ hRule => hRule.1

theorem Consistent.chains_tableContent (h : rs.Consistent) {t : TableId} {table : Table}
    (hTable : rs.table? t = some table) :
    List.Forall₂ (fun c content => ∃ chain, rs.chain? c = some chain ∧
      rs.chainContent chain = content) table.chains (rs.tableContent table).chains :=
  forall₂_filterMap_map fun _ hMem => (h.chain_of_mem hTable hMem).imp fun _ hChain => hChain.1

theorem content?_eq_some_iff {t : TableId} {content : TableContent} :
    rs.content? t = some content ↔ ∃ table, rs.table? t = some table ∧ rs.tableContent table = content :=
  Option.map_eq_some_iff

theorem Consistent.contentNamed?_eq_tableContent (h : rs.Consistent) {t : TableId} {table : Table}
    {name : String} (hTable : rs.table? t = some table)
    (hName : Text.fold table.name = Text.fold name) :
    rs.contentNamed? name = some (rs.tableContent table) := by
  rw [contentNamed?, h.tableNamed?_eq_some_iff.2 ⟨table, hTable, hName⟩, Option.bind_some, content?,
    hTable, Option.map_some]

theorem Consistent.contentNamed?_eq_some_iff (h : rs.Consistent) {name : String}
    {content : TableContent} :
    rs.contentNamed? name = some content ↔
      ∃ t, rs.content? t = some content ∧ Text.fold content.name = Text.fold name := by
  rw [contentNamed?, Option.bind_eq_some_iff]
  constructor
  · intro hFound
    obtain ⟨t, hNamed, hContent⟩ := hFound
    obtain ⟨table, hTable, hName⟩ := h.tableNamed?_eq_some_iff.1 hNamed
    rw [content?, hTable] at hContent
    obtain rfl := Option.some.inj hContent
    exact ⟨t, by rw [content?, hTable, Option.map_some], hName⟩
  · intro hContent
    obtain ⟨t, hContent, hName⟩ := hContent
    obtain ⟨table, hTable, rfl⟩ := content?_eq_some_iff.1 hContent
    exact ⟨t, h.tableNamed?_eq_some_iff.2 ⟨table, hTable, hName⟩, hContent⟩

section Growth

/-! The content of the tables after each growth. -/

theorem Extends.destination?_eq (hExtends : rs.Extends later) {c : ChainId} {chain : Chain}
    (hChain : rs.chain? c = some chain) : later.destination? c = rs.destination? c := by
  obtain ⟨after, hAfter, hName, -, -, hMark, -⟩ := hExtends.chain hChain
  simp [destination?, hChain, hAfter, hName, hMark]

/-- A rule says the same later, as its targets have the same names. -/
theorem Extends.ruleContent_eq (hExtends : rs.Extends later) (hTargets : rs.TargetsExist)
    {r : RuleId} {rule : Rule} (hRule : rs.rule? r = some rule) :
    later.ruleContent rule = rs.ruleContent rule := by
  have hTarget (transfer : Transfer) : (rule.target? transfer).bind later.destination? =
      (rule.target? transfer).bind rs.destination? := by
    cases hSome : rule.target? transfer with
    | none => rfl
    | some c =>
        obtain ⟨chain, hChain⟩ := hTargets r rule hRule transfer c hSome
        exact hExtends.destination?_eq hChain
  rw [ruleContent, ruleContent]
  congr 1
  · exact hTarget .jump
  · exact hTarget .goto

/-- A chain that has got no rule says the same later. -/
theorem Extends.chainContent_eq (hExtends : rs.Extends later) (h : rs.Consistent)
    (hTargets : rs.TargetsExist) {c : ChainId} {chain : Chain} (hChain : rs.chain? c = some chain) :
    later.chainContent chain = rs.chainContent chain := by
  rw [chainContent, chainContent]
  congr 1
  refine List.filterMap_congr fun r hMem => ?_
  obtain ⟨rule, hRule, -⟩ := h.rule_of_mem hChain hMem
  rw [hRule, hExtends.rule hRule, Option.map_some, Option.map_some,
    hExtends.ruleContent_eq hTargets hRule]

theorem content?_withTable (name : String) (t : TableId) :
    (rs.withTable name).content? t =
      if t = ⟨rs.tables.size⟩ then some ⟨name, []⟩ else rs.content? t := by
  rw [content?, table?_withTable]
  split <;> rfl

variable (h : rs.Consistent) (hTargets : rs.TargetsExist)

include h hTargets

theorem content?_withExtension (name : String) (t : TableId) :
    (rs.withExtension name).content? t = rs.content? t := by
  have hGrows : rs.Grows (rs.withExtension name) := .extension name
  have hExtends := hGrows.extends
  change (rs.table? t).map (rs.withExtension name).tableContent = (rs.table? t).map rs.tableContent
  cases hTable : rs.table? t with
  | none => rfl
  | some table =>
      simp only [Option.map_some, Option.some.injEq, tableContent, TableContent.mk.injEq, true_and]
      refine List.filterMap_congr fun c hMem => ?_
      obtain ⟨chain, hChain, -⟩ := h.chain_of_mem hTable hMem
      rw [hChain, chain?_withExtension_of_some hChain, Option.map_some, Option.map_some,
        hExtends.chainContent_eq h hTargets hChain]

theorem content?_withChain {id : TableId} {owner : Table} {name : String} (policy : String)
    (hOwner : rs.table? id = some owner) (hFree : rs.chainNamed? id name = none) (t : TableId) :
    (rs.withChain id name policy).content? t =
      (rs.content? t).map fun content => if t = id then content.addChain name policy else content := by
  have hExtends := (Grows.chain policy hOwner hFree).extends
  rw [content?, content?, table?_withChain]
  cases hTable : rs.table? t with
  | none => rfl
  | some table =>
      have hOld : table.chains.filterMap (fun c =>
            ((rs.withChain id name policy).chain? c).map (rs.withChain id name policy).chainContent) =
          table.chains.filterMap fun c => (rs.chain? c).map rs.chainContent := by
        refine List.filterMap_congr fun c hMem => ?_
        obtain ⟨chain, hChain, -⟩ := h.chain_of_mem hTable hMem
        rw [hChain, chain?_withChain_of_some hChain, Option.map_some, Option.map_some,
          hExtends.chainContent_eq h hTargets hChain]
      simp only [Option.map_some, tableContent, listChain, List.filterMap_append, hOld]
      split
      · simp [TableContent.addChain, chain?_withChain, chainContent]
      · simp

/-- A new rule stands at the end of its chain, in the content too. -/
theorem chainContent_withRule {id : ChainId} {owner : Chain} (body : RuleBody)
    (hOwner : rs.chain? id = some owner) {c : ChainId} {chain : Chain}
    (hChain : rs.chain? c = some chain)
    (hBody : ∀ transfer target, body.target? transfer = some target →
      ∃ found, rs.chain? target = some found) :
    (rs.withRule id body (owner.rules.length + 1)).chainContent (rs.listRule id c chain) =
      if c = id then (rs.chainContent chain).addRule body (body.jump.bind rs.destination?)
        (body.goto.bind rs.destination?)
      else rs.chainContent chain := by
  have hExtends := (Grows.rule body hOwner).extends
  have hOld := congrArg ChainContent.rules (hExtends.chainContent_eq h hTargets hChain)
  have hTarget (transfer : Transfer) : (body.target? transfer).bind
        (rs.withRule id body (owner.rules.length + 1)).destination? =
      (body.target? transfer).bind rs.destination? := by
    cases hSome : body.target? transfer with
    | none => rfl
    | some target =>
        obtain ⟨found, hFound⟩ := hBody transfer target hSome
        exact hExtends.destination?_eq hFound
  simp only [chainContent] at hOld
  simp only [chainContent, listRule, List.filterMap_append, hOld]
  split
  next hSame =>
    subst hSame
    obtain rfl : chain = owner := Option.some.inj (hChain.symm.trans hOwner)
    have hLength := (h.rules_chainContent hChain).length_eq
    have hNew : ((rs.withRule c body (chain.rules.length + 1)).rule? ⟨rs.rules.size⟩).map
          (rs.withRule c body (chain.rules.length + 1)).ruleContent =
        some (body.content (body.jump.bind rs.destination?) (body.goto.bind rs.destination?)
          (chain.rules.length + 1)) := by
      rw [rule?_withRule, if_pos rfl, Option.map_some]
      exact congrArg some (congrArg₂ (body.content · · (chain.rules.length + 1)) (hTarget .jump)
        (hTarget .goto))
    simp only [chainContent] at hLength
    simp only [ChainContent.addRule, ← hLength, List.filterMap_cons, hNew, List.filterMap_nil]
  next => simp

/-- A new rule changes the content of the table of its chain, where it is the last of that chain. -/
theorem content?_withRule {id : ChainId} {owner : Chain} {u : TableId} (body : RuleBody)
    (hOwner : rs.chain? id = some owner) (hTable : owner.table = some u)
    (hBody : ∀ transfer target, body.target? transfer = some target →
      ∃ found, rs.chain? target = some found) (t : TableId) :
    (rs.withRule id body (owner.rules.length + 1)).content? t =
      (rs.content? t).map fun content =>
        if t = u then content.addRule owner.name body (body.jump.bind rs.destination?)
          (body.goto.bind rs.destination?)
        else content := by
  change (rs.table? t).map (rs.withRule id body (owner.rules.length + 1)).tableContent =
    ((rs.table? t).map rs.tableContent).map _
  cases hFound : rs.table? t with
  | none => rfl
  | some table =>
      -- Within the table the chain is known by its name, and in other tables it is not.
      have hChain (c : ChainId) (hMem : c ∈ table.chains) :
          ((rs.withRule id body (owner.rules.length + 1)).chain? c).map
              (rs.withRule id body (owner.rules.length + 1)).chainContent =
            ((rs.chain? c).map rs.chainContent).map fun content =>
              if t = u ∧ Text.sameName content.name owner.name then
                content.addRule body (body.jump.bind rs.destination?) (body.goto.bind rs.destination?)
              else content := by
        obtain ⟨chain, hChain, hListed⟩ := h.chain_of_mem hFound hMem
        have hKnown : c = id ↔ t = u ∧ Text.sameName chain.name owner.name := by
          constructor
          · rintro rfl
            obtain rfl : chain = owner := Option.some.inj (hChain.symm.trans hOwner)
            exact ⟨Option.some.inj (hListed.symm.trans hTable), Text.sameName_iff.2 rfl⟩
          · rintro ⟨rfl, hName⟩
            exact h.chain_unique hChain hOwner hListed hTable (Text.sameName_iff.1 hName)
        rw [chain?_withRule, hChain, Option.map_some, Option.map_some, Option.map_some,
          Option.map_some, chainContent_withRule h hTargets body hOwner hChain hBody]
        simp only [hKnown]
        rfl
      simp only [Option.map_some, Option.some.injEq]
      have hChains := List.filterMap_congr hChain
      rw [tableContent, hChains]
      split
      next hSame =>
        simp only [hSame, true_and, tableContent, TableContent.addRule, List.map_filterMap]
      next hOther => simp [hOther, tableContent, Function.comp_def]

end Growth

theorem contentNamed?_congr {name name' : String} (hName : Text.fold name = Text.fold name') :
    rs.contentNamed? name = rs.contentNamed? name' := by
  rw [contentNamed?, contentNamed?, tableNamed?_congr hName]

theorem contentNamed?_of_free {name : String} (hFree : rs.tableNamed? name = none) :
    rs.contentNamed? name = none := by
  rw [contentNamed?, hFree, Option.bind_none]

theorem isSome_contentNamed? (h : rs.Consistent) (name : String) :
    (rs.contentNamed? name).isSome = (rs.tableNamed? name).isSome := by
  rw [contentNamed?]
  cases hFound : rs.tableNamed? name with
  | none => rfl
  | some t =>
      obtain ⟨table, hTable, -⟩ := h.fold_eq_of_tableNamed?_eq_some hFound
      simp [content?, hTable]

theorem contentNamed?_withTable (h : rs.Consistent) {name : String}
    (hFree : rs.tableNamed? name = none) (name' : String) :
    (rs.withTable name).contentNamed? name' =
      if Text.fold name = Text.fold name' then some ⟨name, []⟩ else rs.contentNamed? name' := by
  have hLater := h.grows (Grows.table hFree)
  have hNew : (rs.withTable name).content? ⟨rs.tables.size⟩ = some ⟨name, []⟩ := by
    rw [content?_withTable, if_pos rfl]
  split
  next hName => exact hLater.contentNamed?_eq_some_iff.2 ⟨_, hNew, hName⟩
  next hOther =>
    ext content
    rw [hLater.contentNamed?_eq_some_iff, h.contentNamed?_eq_some_iff]
    refine exists_congr fun t => and_congr_left fun hName => ?_
    rw [content?_withTable]
    split
    next hLast =>
      -- The new number was no table's, and the new name is not the one that is asked for.
      have hOld : rs.content? t = none := by
        rw [hLast, content?, table?, Array.getElem?_eq_none (Nat.le_refl _), Option.map_none]
      rw [hOld]
      constructor
      · rintro ⟨⟩
        exact absurd hName hOther
      · rintro ⟨⟩
    next => rfl

/-- What is done to one table is done to the content under its name, and to no other. -/
theorem contentNamed?_of_content? (h : rs.Consistent) (hLater : later.Consistent) {u : TableId}
    {owner : Table} (hOwner : rs.table? u = some owner) {change : TableContent → TableContent}
    (hChange : ∀ content, (change content).name = content.name)
    (hContent : ∀ t, later.content? t =
      (rs.content? t).map fun content => if t = u then change content else content)
    (name : String) :
    later.contentNamed? name = (rs.contentNamed? name).map fun content =>
      if Text.fold owner.name = Text.fold name then change content else content := by
  ext content
  rw [hLater.contentNamed?_eq_some_iff, Option.map_eq_some_iff]
  -- A table has the name exactly if it is the one that is changed, or the other way round.
  have hSame {t : TableId} {old : TableContent} (hOld : rs.content? t = some old)
      (hName : Text.fold old.name = Text.fold name) :
      t = u ↔ Text.fold owner.name = Text.fold name := by
    obtain ⟨table, hTable, rfl⟩ := content?_eq_some_iff.1 hOld
    constructor
    · rintro rfl
      obtain rfl := Option.some.inj (hOwner.symm.trans hTable)
      exact hName
    · intro hOwnerName
      exact h.table_unique hTable hOwner (hName.trans hOwnerName.symm)
  constructor
  · intro hFound
    obtain ⟨t, hFound, hName⟩ := hFound
    rw [hContent, Option.map_eq_some_iff] at hFound
    obtain ⟨old, hOld, rfl⟩ := hFound
    have hOldName : Text.fold old.name = Text.fold name := by
      rw [← hName]
      split
      · rw [hChange]
      · rfl
    exact ⟨old, h.contentNamed?_eq_some_iff.2 ⟨t, hOld, hOldName⟩, by
      simp only [hSame hOld hOldName]⟩
  · intro hFound
    obtain ⟨old, hOld, rfl⟩ := hFound
    obtain ⟨t, hOld, hName⟩ := h.contentNamed?_eq_some_iff.1 hOld
    refine ⟨t, ?_, ?_⟩
    · rw [hContent, hOld, Option.map_some]
      simp only [hSame hOld hName]
    · split
      · rw [hChange, hName]
      · exact hName

end Ruleset

end PacketFlow
