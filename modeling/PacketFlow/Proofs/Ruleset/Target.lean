import PacketFlow.Ruleset.Basic

/-!
The targets of rules. Whether a target exists is not looked at when a rule is added, so it is a
property that a ruleset may or may not have.
-/
namespace PacketFlow

/-- A rule has at most one target of either kind. -/
theorem RuleBody.targets_pairwise (body : RuleBody) :
    body.targets.Pairwise (·.1 ≠ ·.1) := by
  rw [RuleBody.targets, List.pairwise_filterMap]
  refine (by decide : [Transfer.jump, Transfer.goto].Pairwise (· ≠ ·)).imp ?_
  intro first second hDistinct a hFirst b hSecond
  obtain ⟨c, -, rfl⟩ := Option.map_eq_some_iff.1 hFirst
  obtain ⟨d, -, rfl⟩ := Option.map_eq_some_iff.1 hSecond
  exact hDistinct

theorem RuleBody.mem_targets {body : RuleBody} {transfer : Transfer} {c : ChainId} :
    (transfer, c) ∈ body.targets ↔ body.target? transfer = some c := by
  cases transfer <;> simp [RuleBody.targets]

namespace Ruleset

variable {rs : Ruleset}

/-- Every target of a rule is a chain of the ruleset. -/
def TargetsExist (rs : Ruleset) : Prop :=
  ∀ r rule, rs.rule? r = some rule → ∀ transfer c, rule.target? transfer = some c →
    ∃ chain, rs.chain? c = some chain

theorem targetsExist_iff :
    rs.TargetsExist ↔
      ∀ rule ∈ rs.rules.toList, ∀ target ∈ rule.targets, (rs.chain? target.2).isSome := by
  simp only [TargetsExist, Option.isSome_iff_exists]
  constructor
  · rintro hExist rule hMem ⟨transfer, c⟩ hTarget
    obtain ⟨index, hLt, rfl⟩ := List.getElem_of_mem hMem
    exact hExist ⟨index⟩ _ (Array.getElem?_eq_getElem hLt) transfer c (RuleBody.mem_targets.1 hTarget)
  · intro hExist r rule hRule transfer c hTarget
    obtain ⟨hLt, rfl⟩ := Array.getElem?_eq_some_iff.1 hRule
    exact hExist _ (Array.getElem_mem_toList hLt) (transfer, c) (RuleBody.mem_targets.2 hTarget)

instance (rs : Ruleset) : Decidable rs.TargetsExist :=
  decidable_of_iff _ targetsExist_iff.symm

end Ruleset

end PacketFlow
