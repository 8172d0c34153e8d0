import PacketFlow.Proofs.Ruleset.Content
import PacketFlow.Ruleset.Label

/-!
Labels and contents. The label of a rule depends on what the rule says, on the label of its chain and
on the name of that chain, and on no number.
-/
namespace PacketFlow

/-- Where a rule sends a packet, as its label tells it. -/
def RuleContent.destinationLabel (content : RuleContent) (chain : String) : String :=
  match content.jump, content.goto with
  | some (.extension name), _ => s!"Extension target: {name}"
  | some (.chain name), _ => s!"Next chain: {name}"
  | none, some (.extension name) => s!"Goto chain: {name}"
  | none, some (.chain name) => s!"Goto chain: {name}"
  | none, none => s!"Stay within chain: {chain}"

namespace Ruleset

variable {rs : Ruleset}

theorem destinationLabel?_eq {rule : Rule} {owner : Chain}
    (hOwner : rs.chain? rule.chain = some owner)
    (hTargets : ∀ transfer c, rule.target? transfer = some c → ∃ chain, rs.chain? c = some chain) :
    rs.destinationLabel? rule = some ((rs.ruleContent rule).destinationLabel owner.name) := by
  unfold destinationLabel? RuleContent.destinationLabel
  cases hJump : rule.jump with
  | some c =>
      obtain ⟨chain, hChain⟩ := hTargets .jump c hJump
      simp only [hChain, ruleContent, RuleBody.content, hJump, destination?, Option.bind_eq_bind,
        Option.bind_some, Option.map_some]
      by_cases hExtension : chain.isExtension
      · simp [hExtension]
      · simp [hExtension]
  | none =>
      cases hGoto : rule.goto with
      | some c =>
          obtain ⟨chain, hChain⟩ := hTargets .goto c hGoto
          simp only [hChain, ruleContent, RuleBody.content, hJump, hGoto, destination?,
            Option.bind_eq_bind, Option.bind_some, Option.bind_none, Option.map_some]
          by_cases hExtension : chain.isExtension
          · simp [hExtension]
          · simp [hExtension]
      | none => simp [ruleContent, RuleBody.content, hJump, hGoto, hOwner]

theorem ruleLabel?_eq {r : RuleId} {rule : Rule} {owner : Chain} {place : String}
    (hRule : rs.rule? r = some rule) (hOwner : rs.chain? rule.chain = some owner)
    (hPlace : rs.chainLabel? rule.chain = some place)
    (hTargets : ∀ transfer c, rule.target? transfer = some c → ∃ chain, rs.chain? c = some chain) :
    rs.ruleLabel? r = some s!"{place}, rule: {rule.position}|{
      (rs.ruleContent rule).destinationLabel owner.name}" := by
  simp only [ruleLabel?, hRule, hPlace, destinationLabel?_eq hOwner hTargets, Option.bind_eq_bind,
    Option.bind_some]
  rfl

end Ruleset

end PacketFlow
