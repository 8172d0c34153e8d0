import PacketFlow.Proofs.Ruleset.Persistence
import PacketFlow.Proofs.Ruleset.Target

/-!
Rulesets whose rules stay within their tables. Rules belong to chains of tables, and what they hand
packets to is a chain of the same table or, for a jump, an extension. The operations do not see to
it; where all new rules are of this kind, the property is kept.
-/
namespace PacketFlow.Ruleset

/-- The targets of a rule of that table are chains of the table, or extensions that it jumps to. -/
def KeepsWithin (rs : Ruleset) (t : TableId) (body : RuleBody) : Prop :=
  ∀ transfer c, body.target? transfer = some c → ∃ chain, rs.chain? c = some chain ∧
    (chain.table = some t ∨ (transfer = .jump ∧ chain.isExtension = true))

theorem KeepsWithin.targets_exist {rs : Ruleset} {t : TableId} {body : RuleBody}
    (hWithin : rs.KeepsWithin t body) (transfer : Transfer) (c : ChainId)
    (hTarget : body.target? transfer = some c) : ∃ chain, rs.chain? c = some chain :=
  (hWithin transfer c hTarget).imp fun _ hChain => hChain.1

/-- All rules belong to tables and stay within them. -/
def Confined (rs : Ruleset) : Prop :=
  ∀ r rule, rs.rule? r = some rule → ∃ owner t, rs.chain? rule.chain = some owner ∧
    owner.table = some t ∧ rs.KeepsWithin t rule.toRuleBody

variable {rs later : Ruleset}

theorem Confined.empty : Ruleset.empty.Confined := by
  intro r rule hRule
  simp [Ruleset.empty, rule?] at hRule

theorem Confined.targetsExist (hConfined : rs.Confined) : rs.TargetsExist := by
  intro r rule hRule transfer c hTarget
  obtain ⟨owner, t, -, -, hWithin⟩ := hConfined r rule hRule
  obtain ⟨chain, hChain, -⟩ := hWithin transfer c hTarget
  exact ⟨chain, hChain⟩

theorem Extends.keepsWithin (hExtends : rs.Extends later) {t : TableId} {body : RuleBody}
    (hWithin : rs.KeepsWithin t body) : later.KeepsWithin t body := by
  intro transfer c hTarget
  obtain ⟨chain, hChain, hPlace⟩ := hWithin transfer c hTarget
  obtain ⟨after, hAfter, -, -, hOwner, hMark, -⟩ := hExtends.chain hChain
  refine ⟨after, hAfter, ?_⟩
  rwa [hOwner, hMark]

/-- A ruleset without new rules stays confined. -/
theorem Confined.extends (hConfined : rs.Confined) (hExtends : rs.Extends later)
    (hSame : later.rules = rs.rules) : later.Confined := by
  intro r rule hRule
  rw [rule?, hSame] at hRule
  obtain ⟨owner, t, hOwner, hTable, hWithin⟩ := hConfined r rule hRule
  obtain ⟨after, hAfter, -, -, hAfterTable, -⟩ := hExtends.chain hOwner
  exact ⟨after, t, hAfter, hAfterTable.trans hTable, hExtends.keepsWithin hWithin⟩

/-- A ruleset stays confined when a rule joins that stays within its table. -/
theorem Confined.withRule (hConfined : rs.Confined) {id : ChainId} {owner : Chain} {t : TableId}
    {body : RuleBody} (hOwner : rs.chain? id = some owner) (hTable : owner.table = some t)
    (hWithin : rs.KeepsWithin t body) :
    (rs.withRule id body (owner.rules.length + 1)).Confined := by
  have hExtends := (Grows.rule body hOwner).extends
  have hStays {c : ChainId} {chain : Chain} (hChain : rs.chain? c = some chain) :
      ∃ after, (rs.withRule id body (owner.rules.length + 1)).chain? c = some after ∧
        after.table = chain.table := by
    obtain ⟨after, hAfter, -, -, hAfterTable, -⟩ := hExtends.chain hChain
    exact ⟨after, hAfter, hAfterTable⟩
  intro r rule hRule
  rcases rule?_withRule_cases hRule with ⟨-, rfl⟩ | hRule
  · obtain ⟨after, hAfter, hAfterTable⟩ := hStays hOwner
    exact ⟨after, t, hAfter, hAfterTable.trans hTable, hExtends.keepsWithin hWithin⟩
  · obtain ⟨old, u, hOld, hOldTable, hOldWithin⟩ := hConfined r rule hRule
    obtain ⟨after, hAfter, hAfterTable⟩ := hStays hOld
    exact ⟨after, u, hAfter, hAfterTable.trans hOldTable, hExtends.keepsWithin hOldWithin⟩

end PacketFlow.Ruleset
