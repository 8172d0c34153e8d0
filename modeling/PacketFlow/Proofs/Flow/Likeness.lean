import PacketFlow.Flow.Rendering
import PacketFlow.Proofs.Flow.Drawing

/-!
Pictures of rulesets that differ in their numbers only. A likeness relates the chains of two rulesets
so that related chains are called the same and have rules that say the same, with related targets.
Then packets have one picture in both. The two traversals come to related chains with related chains
being shown around them, and a chain is shown around the place in both or in neither.
-/
namespace PacketFlow.Ruleset

variable {rs rs' : Ruleset} {R : ChainId → ChainId → Prop} {origin : Origin}

/-- Two rules that are shown in the same way, with related targets. -/
structure RuleLikeness (rs rs' : Ruleset) (R : ChainId → ChainId → Prop)
    (rule rule' : RuleId × Rule) : Prop where
  label : ∃ label, rs.ruleLabel? rule.1 = some label ∧ rs'.ruleLabel? rule'.1 = some label
  found : rs.rule? rule.1 = some rule.2
  found' : rs'.rule? rule'.1 = some rule'.2
  comment : rule.2.comment = rule'.2.comment
  inInterface : rule.2.inInterface = rule'.2.inInterface
  outInterface : rule.2.outInterface = rule'.2.outInterface
  targets : List.Forall₂ (fun target target' => target.1 = target'.1 ∧ R target.2 target'.2)
    rule.2.targets rule'.2.targets

/-- The relation pairs chains of two rulesets that only differ in their numbers. -/
structure Likeness (rs rs' : Ruleset) (R : ChainId → ChainId → Prop) : Prop where
  label {c c' : ChainId} (hLike : R c c') :
    ∃ label, rs.chainLabel? c = some label ∧ rs'.chainLabel? c' = some label
  chain {c c' : ChainId} (hLike : R c c') : ∃ chain chain', rs.chain? c = some chain ∧
    rs'.chain? c' = some chain' ∧ chain.isExtension = chain'.isExtension
  rules {c c' : ChainId} (hLike : R c c') (hTable : ¬rs.IsExtension c) : ∃ rules rules',
    rs.rulesOf? c = some rules ∧ rs'.rulesOf? c' = some rules' ∧
      List.Forall₂ (rs.RuleLikeness rs' R) rules rules'
  unique {c c' d d' : ChainId} (hLike : R c c') (hLike' : R d d') (hTable : ¬rs.IsExtension d) :
    c = d ↔ c' = d'

/-- Stops at rules that are like each other look the same if visits to their targets do. -/
theorem RuleLikeness.exists_stop? {path path' : List ChainId} {rule rule' : RuleId × Rule}
    (hRule : rs.RuleLikeness rs' R rule rule')
    (hVisit : ∀ c c', R c c' → ∃ visit visit', rs.visit? path c = some visit ∧
      rs'.visit? path' c' = some visit' ∧ visit.Matches rs rs' visit') :
    ∃ stop stop', rs.stop? path rule = some stop ∧ rs'.stop? path' rule' = some stop' ∧
      stop.Matches rs rs' stop' := by
  obtain ⟨label, hLabel, hLabel'⟩ := hRule.label
  have hVisits : List.Forall₂ (fun target target' => ∃ visit visit',
      (rs.visit? path target.2).map (target.1, ·) = some visit ∧
      (rs'.visit? path' target'.2).map (target'.1, ·) = some visit' ∧
      visit.1 = visit'.1 ∧ visit.2.Matches rs rs' visit'.2)
      rule.2.targets rule'.2.targets := by
    refine hRule.targets.imp fun target target' hTarget => ?_
    obtain ⟨visit, visit', hFound, hFound', hMatches⟩ := hVisit _ _ hTarget.2
    exact ⟨(target.1, visit), (target'.1, visit'), by rw [hFound, Option.map_some],
      by rw [hFound', Option.map_some], hTarget.1, hMatches⟩
  obtain ⟨visits, visits', hVisits, hVisits', hSame⟩ := exists_mapM_forall₂ hVisits
  refine ⟨⟨.rule label rule.1, visits⟩, ⟨.rule label rule'.1, visits'⟩, ?_, ?_, ?_, hSame⟩
  · rw [stop?_eq, hLabel, Option.bind_some, hVisits, Option.map_some]
  · rw [stop?_eq, hLabel', Option.bind_some, hVisits', Option.map_some]
  · exact Vertex.matches_rule label hRule.found hRule.found' (congrArg shownMatch hRule.inInterface)
      (congrArg shownMatch hRule.outInterface) hRule.comment

namespace Likeness

variable (hLikeness : rs.Likeness rs' R)

include hLikeness

/-- A chain is on a path exactly if its like is on the like of the path. -/
theorem mem_iff {path path' : List ChainId} (hPath : List.Forall₂ R path path')
    (hTables : ∀ d ∈ path, ¬rs.IsExtension d) {c c' : ChainId} (hLike : R c c') :
    c ∈ path ↔ c' ∈ path' := by
  induction hPath with
  | nil => simp
  | @cons d d' path path' hHead hTail ih =>
      obtain ⟨hTable, hRest⟩ := List.forall_mem_cons.1 hTables
      rw [List.mem_cons, List.mem_cons, hLikeness.unique hLike hHead hTable, ih hRest]

/-- Visits to chains that are like each other look the same. The induction is on the chains off the
path, since a chain that expands joins the path. -/
theorem exists_visit? {path path' : List ChainId} (hPath : List.Forall₂ R path path')
    (hTables : ∀ d ∈ path, ¬rs.IsExtension d) {c c' : ChainId} (hLike : R c c') :
    ∃ visit visit', rs.visit? path c = some visit ∧ rs'.visit? path' c' = some visit' ∧
      visit.Matches rs rs' visit' := by
  induction hOff : rs.offPath path using Nat.strongRecOn generalizing path path' c c' with
  | _ off ih =>
      obtain ⟨label, hLabel, hLabel'⟩ := hLikeness.label hLike
      obtain ⟨chain, chain', hChain, hChain', hExtension⟩ := hLikeness.chain hLike
      have hContains : path.contains c = path'.contains c' := by
        rw [Bool.eq_iff_iff, List.contains_iff_mem, List.contains_iff_mem]
        exact hLikeness.mem_iff hPath hTables hLike
      have hHead : (Vertex.chain label c chain.isExtension (path.contains c)).Matches rs rs'
          (.chain label c' chain.isExtension (path.contains c)) := Vertex.matches_chain ..
      simp only [visit?_eq, hLabel, hLabel', hChain, hChain', Option.bind_some, ← hExtension,
        ← hContains]
      by_cases hTable : rs.IsExtension c
      · obtain ⟨found, hFound, hExtends⟩ := hTable
        obtain rfl := Option.some.inj (hFound.symm.trans hChain)
        rw [if_pos (by rw [hExtends]; rfl), if_pos (by rw [hExtends]; rfl)]
        exact ⟨_, _, rfl, rfl, hHead, .none⟩
      obtain ⟨rules, rules', hRules, hRules', hSame⟩ := hLikeness.rules hLike hTable
      have hEmpty : chain.rules.isEmpty = chain'.rules.isEmpty := by
        obtain ⟨found, hFound, hFirst, -⟩ := rulesOf?_eq_some hRules
        obtain ⟨found', hFound', hFirst', -⟩ := rulesOf?_eq_some hRules'
        obtain rfl := Option.some.inj (hFound.symm.trans hChain)
        obtain rfl := Option.some.inj (hFound'.symm.trans hChain')
        rw [← hFirst, ← hFirst']
        cases hSame <;> rfl
      rw [← hEmpty]
      split
      · exact ⟨_, _, rfl, rfl, hHead, .none⟩
      next hOpen =>
        have hFresh : c ∉ path := by
          intro hMem
          simp [hMem] at hOpen
        have hStops := hSame.imp fun rule rule' hRule =>
          hRule.exists_stop? fun d d' hLike' =>
            ih _ (hOff ▸ offPath_cons_lt hChain hFresh) (.cons hLike hPath)
              (List.forall_mem_cons.2 ⟨hTable, hTables⟩) hLike' rfl
        obtain ⟨stops, stops', hStops, hStops', hMatches⟩ := exists_mapM_forall₂ hStops
        refine ⟨_, _, by rw [innerGraph?_eq, hRules, Option.bind_some, hStops]; rfl,
          by rw [innerGraph?_eq, hRules', Option.bind_some, hStops']; rfl, hHead, .some ?_⟩
        exact (Stop.matches_level hMatches).matches_rules _ c c'

/-- Packets have one picture in rulesets that are like each other. -/
theorem exists_picture? (hBuiltin : List.Forall₂ R (rs.builtinChains origin)
    (rs'.builtinChains origin)) :
    ∃ text, rs.render? origin .dot = some text ∧ rs'.render? origin .dot = some text := by
  have hVisit := hBuiltin.imp fun c c' hLike =>
    hLikeness.exists_visit? .nil (fun _ hMem => absurd hMem List.not_mem_nil) hLike
  obtain ⟨visits, visits', hVisits, hVisits', hSame⟩ := exists_mapM_forall₂ hVisit
  obtain ⟨text, hText, hText'⟩ := (Visit.matches_level hSame).exists_picture? origin
  refine ⟨text, ?_, ?_⟩
  · rw [render?, traversal?, hVisits]
    exact hText
  · rw [render?, traversal?, hVisits']
    exact hText'

end Likeness

end PacketFlow.Ruleset
