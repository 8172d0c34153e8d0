import PacketFlow.Dump.Session
import PacketFlow.Proofs.Ruleset.Naming
import PacketFlow.Proofs.Ruleset.Persistence

/-!
How a rule line finds its place. A jump to an extension adds the extension; every other target is
looked up in the open table, and one that is found nowhere is missed with a warning. The rule is added
at the end of its chain, with the targets that are found.
-/
namespace PacketFlow

/-- Neither a chain of the table nor a verdict has that name. -/
def Ruleset.lacks (rs : Ruleset) (id : TableId) (name : String) : Bool :=
  (rs.chainNamed? id name).isNone && !Dump.isVerdict name

namespace Dump

namespace RuleLine

/-- The extension that the rule jumps to. -/
def extension? (rule : RuleLine) : Option String :=
  (rule.targetName? .jump).filter isExtensionName

/-- The name that has to be that of a chain of the table. A jump to an extension has none. -/
def soughtName? (rule : RuleLine) : Transfer → Option String
  | .jump => (rule.targetName? .jump).filter (!isExtensionName ·)
  | .goto => rule.targetName? .goto

/-- The ruleset with the extension that the rule jumps to, if it jumps to one. -/
def ready (rule : RuleLine) (rs : Ruleset) : Ruleset :=
  match rule.extension? with
  | some name => rs.withExtension name
  | none => rs

/-- Where a target of the rule is found, for a rule of the table `id`. -/
def target? (rule : RuleLine) (rs : Ruleset) (id : TableId) : Transfer → Option ChainId
  | .jump =>
    if rule.extension?.isSome then some ⟨rs.chains.size⟩
    else (rule.soughtName? .jump).bind (rs.chainNamed? id)
  | .goto => (rule.soughtName? .goto).bind (rs.chainNamed? id)

/-- The targets of the rule that are found nowhere and are no verdicts, the jump first. -/
def lostTargets (rule : RuleLine) (rs : Ruleset) (id : TableId) : List (Transfer × String) :=
  [Transfer.jump, Transfer.goto].flatMap fun transfer =>
    ((rule.soughtName? transfer).filter (rs.lacks id)).toList.map (transfer, ·)

theorem soughtName?_jump_of_extension? {rule : RuleLine} {name : String}
    (hExtension : rule.extension? = some name) : rule.soughtName? .jump = none := by
  obtain ⟨hName, hIs⟩ := Option.filter_eq_some_iff.1 hExtension
  simp [soughtName?, hName, hIs]

theorem soughtName?_of_extension?_eq_none {rule : RuleLine} (hNone : rule.extension? = none)
    (transfer : Transfer) : rule.soughtName? transfer = rule.targetName? transfer := by
  cases transfer with
  | goto => rfl
  | jump =>
      rw [extension?, Option.filter_eq_none_iff] at hNone
      rw [soughtName?]
      cases hName : rule.targetName? .jump with
      | none => rfl
      | some name => simp [hNone name hName]

theorem target?_of_extension? {rule : RuleLine} {name : String}
    (hExtension : rule.extension? = some name) (rs : Ruleset) (id : TableId) :
    rule.target? rs id .jump = some ⟨rs.chains.size⟩ := by
  simp [target?, hExtension]

theorem target?_of_extension?_eq_none {rule : RuleLine} (hNone : rule.extension? = none)
    (rs : Ruleset) (id : TableId) (transfer : Transfer) :
    rule.target? rs id transfer = (rule.targetName? transfer).bind (rs.chainNamed? id) := by
  cases transfer <;> simp [target?, hNone, soughtName?_of_extension?_eq_none hNone]

theorem ready_of_extension? {rule : RuleLine} {name : String}
    (hExtension : rule.extension? = some name) (rs : Ruleset) :
    rule.ready rs = rs.withExtension name := by
  simp [ready, hExtension]

theorem ready_of_extension?_eq_none {rule : RuleLine} (hNone : rule.extension? = none)
    (rs : Ruleset) : rule.ready rs = rs := by
  simp [ready, hNone]

theorem extends_ready (rule : RuleLine) (rs : Ruleset) : rs.Extends (rule.ready rs) := by
  cases hExtension : rule.extension? with
  | some name =>
      rw [ready_of_extension? hExtension]
      exact (Ruleset.Grows.extension name).extends
  | none =>
      rw [ready_of_extension?_eq_none hExtension]
      exact .refl rs

theorem chain?_ready_of_some (rule : RuleLine) {rs : Ruleset} {c : ChainId} {chain : Chain}
    (hChain : rs.chain? c = some chain) : (rule.ready rs).chain? c = some chain := by
  cases hExtension : rule.extension? with
  | some name =>
      rw [ready_of_extension? hExtension]
      exact Ruleset.chain?_withExtension_of_some hChain
  | none => rwa [ready_of_extension?_eq_none hExtension]

theorem tables_ready (rule : RuleLine) (rs : Ruleset) : (rule.ready rs).tables = rs.tables := by
  rw [ready]
  split <;> rfl

theorem table?_ready (rule : RuleLine) (rs : Ruleset) : (rule.ready rs).table? = rs.table? := by
  funext t
  rw [Ruleset.table?, Ruleset.table?, rule.tables_ready]

theorem rules_ready (rule : RuleLine) (rs : Ruleset) : (rule.ready rs).rules = rs.rules := by
  rw [ready]
  split <;> rfl

theorem consistent_ready (rule : RuleLine) {rs : Ruleset} (h : rs.Consistent) :
    (rule.ready rs).Consistent := by
  rw [ready]
  split
  · exact h.withExtension _
  · exact h

theorem chainNamed?_ready (rule : RuleLine) {rs : Ruleset} (h : rs.Consistent) (id : TableId) :
    (rule.ready rs).chainNamed? id = rs.chainNamed? id := by
  cases hExtension : rule.extension? with
  | some name =>
      rw [ready_of_extension? hExtension]
      exact h.chainNamed?_withExtension name id
  | none => rw [ready_of_extension?_eq_none hExtension]

/-- A target that is found is a chain of that name, an extension or a chain of the table. -/
theorem exists_chain_of_target? {rule : RuleLine} {rs : Ruleset} {id : TableId} {transfer : Transfer}
    {c : ChainId} (hTarget : rule.target? rs id transfer = some c) :
    ∃ name chain, rule.targetName? transfer = some name ∧ (rule.ready rs).chain? c = some chain ∧
      Text.fold chain.name = Text.fold name := by
  have hNamed (hFound : (rule.targetName? transfer).bind (rs.chainNamed? id) = some c) :
      ∃ name chain, rule.targetName? transfer = some name ∧ (rule.ready rs).chain? c = some chain ∧
        Text.fold chain.name = Text.fold name := by
    obtain ⟨name, hName, hFound⟩ := Option.bind_eq_some_iff.1 hFound
    obtain ⟨-, chain, -, -, hChain, hSame⟩ := Ruleset.fold_eq_of_chainNamed?_eq_some hFound
    exact ⟨name, chain, hName, rule.chain?_ready_of_some hChain, hSame⟩
  cases hExtension : rule.extension? with
  | none => exact hNamed (by rwa [← target?_of_extension?_eq_none hExtension])
  | some name =>
      cases transfer with
      | goto => exact hNamed hTarget
      | jump =>
          rw [target?_of_extension? hExtension] at hTarget
          obtain rfl := Option.some.inj hTarget
          rw [ready_of_extension? hExtension]
          exact ⟨name, _, (Option.filter_eq_some_iff.1 hExtension).1,
            Ruleset.chain?_withExtension_new name, rfl⟩

/-- A target that is found nowhere is absent. -/
theorem target?_eq_none_of_mem_lostTargets {rule : RuleLine} {rs : Ruleset} {id : TableId}
    {lost : Transfer × String} (hLost : lost ∈ rule.lostTargets rs id) :
    rule.target? rs id lost.1 = none := by
  obtain ⟨transfer, -, hTransfer⟩ := List.mem_flatMap.1 hLost
  obtain ⟨name, hName, rfl⟩ := List.mem_map.1 hTransfer
  obtain ⟨hSought, hLacks⟩ := Option.filter_eq_some_iff.1 (Option.mem_toList.1 hName)
  have hFound : rs.chainNamed? id name = none := by
    rw [Ruleset.lacks, Bool.and_eq_true, Option.isNone_iff_eq_none] at hLacks
    exact hLacks.1
  cases transfer with
  | goto => rw [target?, hSought, Option.bind_some, hFound]
  | jump =>
      cases hExtension : rule.extension? with
      | some extension => simp [soughtName?_jump_of_extension? hExtension] at hSought
      | none => simp [target?, hExtension, hSought, hFound]

end RuleLine

namespace Session

variable {s : Session}

/-- Adds warnings about the present line, in order. -/
def warnAll (s : Session) (faults : List Fault) : Session :=
  { s with warnings := s.warnings ++ (faults.map (Warning.mk s.line)).toArray }

@[simp]
theorem warnAll_nil (s : Session) : s.warnAll [] = s := by
  simp [warnAll]

theorem warn_eq_warnAll (s : Session) (fault : Fault) : s.warn fault = s.warnAll [fault] := by
  simp [warn, warnAll]

/-- A name is looked up among the chains of the table, and missed if nothing else has it. -/
theorem resolve_eq_bind (s : Session) (id : TableId) (table : Table) (transfer : Transfer)
    (name? : Option String) :
    s.resolve id table transfer name? = (name?.bind (s.ruleset.chainNamed? id),
      s.warnAll ((name?.filter (s.ruleset.lacks id)).toList.map
        (.unresolvedTarget table.name transfer))) := by
  cases name? with
  | none => simp [resolve]
  | some name =>
      rw [Option.filter_some, Ruleset.lacks]
      cases hFound : s.ruleset.chainNamed? id name with
      | some c => simp [resolve, hFound]
      | none =>
          by_cases hVerdict : isVerdict name
          · simp [resolve, hFound, hVerdict]
          · simp [resolve, hFound, hVerdict, warn_eq_warnAll]

theorem resolveJump_eq (s : Session) (id : TableId) (table : Table) (rule : RuleLine) :
    s.resolveJump id table (rule.targetName? .jump) = (rule.target? s.ruleset id .jump,
      { s.warnAll (((rule.soughtName? .jump).filter (s.ruleset.lacks id)).toList.map
          (.unresolvedTarget table.name .jump)) with ruleset := rule.ready s.ruleset }) := by
  cases hExtension : rule.extension? with
  | some name =>
      have hSought := RuleLine.soughtName?_jump_of_extension? hExtension
      simp only [resolveJump, RuleLine.target?, RuleLine.ready, hExtension, hSought]
      rw [RuleLine.extension?] at hExtension
      simp [hExtension, Ruleset.addExtension_eq]
  | none =>
      rw [RuleLine.target?_of_extension?_eq_none hExtension,
        RuleLine.soughtName?_of_extension?_eq_none hExtension, RuleLine.ready, hExtension]
      rw [RuleLine.extension?] at hExtension
      simp only [resolveJump, hExtension, resolve_eq_bind]
      rfl

/-- A rule is placed at the end of its chain, with the targets that are found. -/
theorem placeRule_eq (h : s.ruleset.Consistent) (id : TableId) (table : Table) {c : ChainId}
    {owner : Chain} (hOwner : s.ruleset.chain? c = some owner) (rule : RuleLine) :
    s.placeRule id table c rule =
      { s.warnAll ((rule.lostTargets s.ruleset id).map fun lost =>
          .unresolvedTarget table.name lost.1 lost.2) with
        ruleset := (rule.ready s.ruleset).withRule c
          (rule.body (rule.target? s.ruleset id .jump) (rule.target? s.ruleset id .goto))
          (owner.rules.length + 1) } := by
  have hSame := rule.chainNamed?_ready h id
  have hReady := rule.chain?_ready_of_some hOwner
  have hLacks : (rule.ready s.ruleset).lacks id = s.ruleset.lacks id := by
    funext name
    rw [Ruleset.lacks, hSame, Ruleset.lacks]
  rw [placeRule, resolveJump_eq]
  simp only [resolve_eq_bind, warnAll]
  rw [Ruleset.appendRule?_of_chain _ hReady]
  simp [RuleLine.lostTargets, RuleLine.target?, RuleLine.soughtName?, hSame, hLacks,
    Function.comp_def]

end Session

end Dump

end PacketFlow
