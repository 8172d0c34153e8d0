import PacketFlow.Proofs.Flow.Likeness

/-!
What is shown of a packet's ways exists. The built-in chains are found with strict lookups. Where all
targets of rules exist, a ruleset is like itself, so packets of every origin have a picture, and they
have a document as well.
-/
namespace PacketFlow.Ruleset

variable {rs : Ruleset}

/-- The chain of a station. The table that is found must exist, and so must every chain that is looked
at. -/
def strictChainAt? (rs : Ruleset) (station : Hook × String) : Option (Option ChainId) :=
  match rs.tableNamed? station.2 with
  | none => some none
  | some table => rs.strictChainNamed? table station.1.name

/-- The built-in chains that a packet comes to, found with strict lookups. -/
def strictBuiltinChains? (rs : Ruleset) (origin : Origin) : Option (List ChainId) := do
  let chains ← origin.stations.mapM rs.strictChainAt?
  return chains.filterMap id

namespace Consistent

theorem strictChainAt?_eq (h : rs.Consistent) (station : Hook × String) :
    rs.strictChainAt? station = some (rs.chainAt? station) := by
  cases hFound : rs.tableNamed? station.2 with
  | none => simp [strictChainAt?, chainAt?, hFound]
  | some id =>
      obtain ⟨table, hTable, -⟩ := h.tableNamed?_eq_some_iff.1 hFound
      simp [strictChainAt?, chainAt?, hFound, h.strictChainNamed?_eq hTable]

theorem strictBuiltinChains?_eq (h : rs.Consistent) (origin : Origin) :
    rs.strictBuiltinChains? origin = some (rs.builtinChains origin) := by
  have hStations : origin.stations.mapM rs.strictChainAt? =
      some (origin.stations.map rs.chainAt?) := by
    rw [mapM_eq_some_iff, List.forall₂_map_right_iff, List.forall₂_same]
    exact fun station _ => h.strictChainAt?_eq station
  rw [strictBuiltinChains?, hStations, builtinChains_eq_filterMap]
  simp [List.filterMap_map]

theorem exists_builtinLabels? (h : rs.Consistent) (origin : Origin) :
    ∃ labels, rs.builtinLabels? origin = some labels := by
  refine exists_mapM_eq_some fun c hMem => ?_
  obtain ⟨chain, hChain, -⟩ := h.exists_of_mem_builtinChains hMem
  exact h.exists_chainLabel? hChain

variable (h : rs.Consistent) (hTargets : rs.TargetsExist)

include h hTargets

/-- A ruleset is like itself, chain by chain. -/
theorem likeness_self :
    rs.Likeness rs fun c c' => c = c' ∧ ∃ chain, rs.chain? c = some chain where
  label := by
    rintro c _ ⟨rfl, chain, hChain⟩
    obtain ⟨label, hLabel⟩ := h.exists_chainLabel? hChain
    exact ⟨label, hLabel, hLabel⟩
  chain := by
    rintro c _ ⟨rfl, chain, hChain⟩
    exact ⟨chain, chain, hChain, hChain, rfl⟩
  rules := by
    rintro c _ ⟨rfl, chain, hChain⟩ -
    obtain ⟨rules, hRules⟩ := h.exists_rulesOf? hChain
    refine ⟨rules, rules, hRules, hRules, List.forall₂_same.2 fun rule hMem => ?_⟩
    obtain ⟨hRule, -⟩ := h.of_mem_rulesOf? hRules hMem
    obtain ⟨label, hLabel⟩ := h.exists_ruleLabel? hTargets hRule
    refine ⟨⟨label, hLabel, hLabel⟩, hRule, hRule, rfl, rfl, rfl, ?_⟩
    refine List.forall₂_same.2 fun target hTarget => ⟨rfl, rfl, ?_⟩
    exact hTargets rule.1 rule.2 hRule target.1 target.2 (RuleBody.mem_targets.1 hTarget)
  unique := by
    rintro c _ d _ ⟨rfl, -⟩ ⟨rfl, -⟩ -
    exact Iff.rfl

/-- The ways of packets of every origin can be given out in every form. -/
theorem exists_render? (origin : Origin) (format : Format) :
    ∃ text, rs.render? origin format = some text := by
  cases format with
  | dot =>
      have hBuiltin : List.Forall₂ (fun c c' => c = c' ∧ ∃ chain, rs.chain? c = some chain)
          (rs.builtinChains origin) (rs.builtinChains origin) := by
        refine List.forall₂_same.2 fun c hMem => ⟨rfl, ?_⟩
        obtain ⟨chain, hChain, -⟩ := h.exists_of_mem_builtinChains hMem
        exact ⟨chain, hChain⟩
      obtain ⟨text, hText, -⟩ := (h.likeness_self hTargets).exists_picture? hBuiltin
      exact ⟨text, hText⟩
  | json =>
      obtain ⟨g, hGraph⟩ := h.exists_traversal? hTargets origin
      obtain ⟨labels, hLabels⟩ := h.exists_builtinLabels? origin
      exact ⟨(g.document origin labels).pretty, by simp [render?, hGraph, hLabels]⟩

end Consistent

end PacketFlow.Ruleset
