import PacketFlow.Proofs.Flow.CallPath

/-!
The chains that a packet reaches. Reaching a chain allows every chain to be passed any number of
times, while the graph shows no chain's rules within themselves. The graph nevertheless shows every
chain that is reached and every rule of such a chain: where a walk comes back to a chain, the place
at which the chain's rules were first entered shows what they lead to.
-/
namespace PacketFlow.Ruleset

variable {rs : Ruleset} {origin : Origin} {path : List ChainId} {g : Graph}

/-- The packet reaches the chain: the chain is a built-in one on its way, or a rule of a chain of a
table that it reaches hands it over. -/
inductive Reached (rs : Ruleset) (origin : Origin) : ChainId → Prop
  | builtin {c : ChainId} (hMem : c ∈ rs.builtinChains origin) : rs.Reached origin c
  | call {c : ChainId} {call : Call} (hReached : rs.Reached origin c) (hTable : ¬rs.IsExtension c)
      (hCall : rs.Calls c call) : rs.Reached origin call.target

/-- All chains of the path are reached and walked through. -/
def Walked (rs : Ruleset) (origin : Origin) (path : List ChainId) : Prop :=
  ∀ c ∈ path, rs.Reached origin c ∧ ¬rs.IsExtension c

/-- A packet stays among chains that include its built-in ones and the targets of all rules of the
chains of tables among them. -/
theorem Consistent.mem_of_reached (h : rs.Consistent) (within : List ChainId)
    (hBuiltin : ∀ c ∈ rs.builtinChains origin, c ∈ within)
    (hRules : ∀ rule ∈ rs.rules.toList, rule.chain ∈ within → ¬rs.IsExtension rule.chain →
      ∀ target ∈ rule.targets, target.2 ∈ within)
    {c : ChainId} (hReached : rs.Reached origin c) : c ∈ within := by
  induction hReached with
  | builtin hMem => exact hBuiltin _ hMem
  | call _ hTable hCall ih =>
      obtain ⟨chain, rule, hChain, hMem, hRule, hTarget⟩ := hCall
      obtain ⟨found, hFound, rfl⟩ := h.rule_of_mem hChain hMem
      obtain rfl := Option.some.inj (hFound.symm.trans hRule)
      exact hRules found (Array.mem_toList_iff.2 (Array.mem_of_getElem? hRule)) ih hTable _
        (RuleBody.mem_targets.2 hTarget)

theorem Leads.reached {approach : Approach} {c : ChainId} (hLeads : rs.Leads origin path approach c)
    (hPath : rs.Walked origin path) : rs.Reached origin c := by
  cases path with
  | nil =>
      cases approach with
      | none => exact .builtin hLeads
      | some call => exact hLeads.elim
  | cons d path =>
      cases approach with
      | none => exact hLeads.elim
      | some call =>
          obtain ⟨hReached, hTable⟩ := hPath d (List.mem_cons_self ..)
          exact .call hReached hTable hLeads

theorem Opens.walked {way : Way} (hOpens : rs.Opens origin path way)
    (hPath : rs.Walked origin path) : rs.Walked origin (way.path path) := by
  induction way generalizing path with
  | nil => exact hPath
  | cons step way ih =>
      obtain ⟨approach, c⟩ := step
      obtain ⟨⟨hLeads, hExpands⟩, hRest⟩ := hOpens
      rw [Way.path_cons]
      refine ih hRest (List.forall_mem_cons.2 ⟨⟨hLeads.reached hPath, ?_⟩, hPath⟩)
      exact (expands_iff.1 hExpands).2.1

theorem walked_nil : rs.Walked origin [] :=
  fun _ hMem => absurd hMem List.not_mem_nil

theorem exists_way_of_mem_path {way : Way} {c : ChainId} (hOpens : rs.Opens origin [] way)
    (hMem : c ∈ way.path []) :
    ∃ (outer : Way) (rest : List ChainId), rs.Opens origin [] outer ∧ outer.path [] = c :: rest := by
  rw [Way.path, List.append_nil, List.mem_reverse, List.mem_map] at hMem
  obtain ⟨⟨approach, d⟩, hMem, rfl⟩ := hMem
  obtain ⟨before, after, rfl⟩ := List.append_of_mem hMem
  rw [List.append_cons, opens_append] at hOpens
  exact ⟨before ++ [(approach, d)], Way.path before [], hOpens.1, Way.path_append ..⟩

/-- A chain of a table that has rules is entered last by some open way wherever a packet comes to
it. -/
theorem exists_way_of_leads {way : Way} {approach : Approach} {c : ChainId}
    (hOpens : rs.Opens origin [] way) (hLeads : rs.Leads origin (way.path []) approach c)
    (hRules : rs.HasRules c) (hTable : ¬rs.IsExtension c) :
    ∃ (outer : Way) (rest : List ChainId), rs.Opens origin [] outer ∧ outer.path [] = c :: rest := by
  by_cases hMem : c ∈ way.path []
  · exact exists_way_of_mem_path hOpens hMem
  · have hExpands : rs.Expands (way.path []) c := expands_iff.2 ⟨hRules, hTable, hMem⟩
    refine ⟨way ++ [(approach, c)], way.path [], ?_, Way.path_append ..⟩
    exact opens_append.2 ⟨hOpens, ⟨hLeads, hExpands⟩, trivial⟩

theorem Calls.hasRules {c : ChainId} {call : Call} (hCall : rs.Calls c call) : rs.HasRules c := by
  obtain ⟨chain, rule, hChain, hMem, -, -⟩ := hCall
  exact ⟨chain, hChain, List.ne_nil_of_mem hMem⟩

/-- The chains that a packet reaches are closed if the calls of those among them that belong to
tables lead to chains that exist. -/
theorem Consistent.closed_reached (h : rs.Consistent)
    (hFound : ∀ c call, rs.Reached origin c → ¬rs.IsExtension c → rs.Calls c call →
      ∃ chain, rs.chain? call.target = some chain) : rs.Closed (rs.Reached origin) where
  found hReached := by
    cases hReached with
    | builtin hMem => exact (h.exists_of_mem_builtinChains hMem).imp fun _ hChain => hChain.1
    | call hReached hTable hCall => exact hFound _ _ hReached hTable hCall
  target {c d chain r rule transfer} hReached hChain hTable hMem hRule hTarget := by
    have hCall : rs.Calls c ⟨r, transfer, d⟩ := ⟨chain, rule, hChain, hMem, hRule, hTarget⟩
    exact .call hReached (by simp [IsExtension, hChain, hTable]) hCall

/-- A packet comes to every reached chain at the end of some open way. -/
theorem Reached.exists_way {c : ChainId} (hReached : rs.Reached origin c) :
    ∃ (way : Way) (approach : Approach),
      rs.Opens origin [] way ∧ rs.Leads origin (way.path []) approach c := by
  induction hReached with
  | builtin hMem => exact ⟨[], none, trivial, hMem⟩
  | @call c call _ hTable hCall ih =>
      obtain ⟨way, approach, hOpens, hLeads⟩ := ih
      obtain ⟨outer, rest, hOuter, hPath⟩ :=
        exists_way_of_leads hOpens hLeads hCall.hasRules hTable
      exact ⟨outer, some (call.rule, call.transfer), hOuter, by rw [hPath]; exact hCall⟩

namespace Consistent

/-- Every entry on the level of an open way has its vertex somewhere. -/
theorem exists_at?_of_entry (h : rs.Consistent) (hGraph : rs.traversal? origin = some g) {way : Way}
    {entry : Entry} (hOpens : rs.Opens origin [] way)
    (hMem : entry ∈ rs.entries origin (way.path [])) :
    ∃ v, (∃ place, g.at? place = some v) ∧ rs.Stands origin (way.path []) entry v := by
  have hOuter : rs.level? origin [] = some g := hGraph
  obtain ⟨level, hLevel, hAround⟩ := h.levelAt?_placeFrom hOuter hOpens
  obtain ⟨v, hVertex, hStands⟩ := exists_vertex?_of_mem_entries hLevel hMem
  exact ⟨v, Graph.exists_at?_iff.2 ⟨_, level, _, hAround, hVertex⟩, hStands⟩

/-- The chains that are shown are those that a packet comes to at the end of an open way. -/
theorem exists_chainAt?_iff (h : rs.Consistent) (hGraph : rs.traversal? origin = some g)
    {c : ChainId} :
    (∃ place, g.chainAt? place = some c) ↔
      ∃ (way : Way) (approach : Approach),
        rs.Opens origin [] way ∧ rs.Leads origin (way.path []) approach c := by
  have hOuter : rs.level? origin [] = some g := hGraph
  constructor
  · intro hShown
    obtain ⟨place, hShown⟩ := hShown
    obtain ⟨name, isExtension, truncated, hAt⟩ := Graph.chainAt?_eq_some_iff.1 hShown
    obtain ⟨way, level, position, hOpens, hLevel, hVertex⟩ := h.exists_way_of_at? hOuter hAt
    obtain ⟨approach, chain, hMem, -⟩ := h.exists_entry_of_chain hLevel hVertex
    exact ⟨way, approach, hOpens, h.chain_mem_entries.1 hMem⟩
  · intro hComes
    obtain ⟨way, approach, hOpens, hLeads⟩ := hComes
    obtain ⟨v, ⟨place, hAt⟩, label, chain, -, -, rfl⟩ :=
      h.exists_at?_of_entry hGraph hOpens (h.chain_mem_entries.2 hLeads)
    exact ⟨place, Graph.chainAt?_eq_some_iff.2 ⟨_, _, _, hAt⟩⟩

/-- The rules that are shown are those of the chains that some open way enters last. -/
theorem exists_ruleAt?_iff (h : rs.Consistent) (hGraph : rs.traversal? origin = some g)
    {r : RuleId} :
    (∃ place, g.ruleAt? place = some r) ↔
      ∃ (way : Way) (rest : List ChainId) (rule : Rule), rs.Opens origin [] way ∧
        way.path [] = rule.chain :: rest ∧ rs.rule? r = some rule := by
  have hOuter : rs.level? origin [] = some g := hGraph
  constructor
  · intro hShown
    obtain ⟨place, hShown⟩ := hShown
    obtain ⟨name, hAt⟩ := Graph.ruleAt?_eq_some_iff.1 hShown
    obtain ⟨way, level, position, hOpens, hLevel, hVertex⟩ := h.exists_way_of_at? hOuter hAt
    obtain ⟨hMem, -⟩ := h.entry_of_rule hLevel hVertex
    cases hPath : way.path [] with
    | nil => simp [hPath, entries] at hMem
    | cons c rest =>
        obtain ⟨rule, hRule, rfl⟩ := h.rule_mem_entries.1 (hPath ▸ hMem)
        exact ⟨way, rest, rule, hOpens, hPath, hRule⟩
  · intro hEntered
    obtain ⟨way, rest, rule, hOpens, hPath, hRule⟩ := hEntered
    have hMem : .rule r ∈ rs.entries origin (way.path []) := by
      rw [hPath]
      exact h.rule_mem_entries.2 ⟨rule, hRule, rfl⟩
    obtain ⟨v, ⟨place, hAt⟩, label, -, rfl⟩ := h.exists_at?_of_entry hGraph hOpens hMem
    exact ⟨place, Graph.ruleAt?_eq_some_iff.2 ⟨_, hAt⟩⟩

end Consistent

/-- The graph shows exactly the chains that a packet reaches, and exactly the rules of those among
them that belong to a table, although it walks through no chain within itself. -/
theorem shown_iff_reached (hBuilt : rs.Built) (hTargets : rs.TargetsExist) (origin : Origin) :
    ∃ g, rs.traversal? origin = some g ∧
      (∀ c, (∃ place, g.chainAt? place = some c) ↔ rs.Reached origin c) ∧
      ∀ r, (∃ place, g.ruleAt? place = some r) ↔
        ∃ rule, rs.rule? r = some rule ∧ rs.Reached origin rule.chain ∧
          ¬rs.IsExtension rule.chain := by
  have h := hBuilt.consistent
  obtain ⟨g, hGraph⟩ := h.exists_traversal? hTargets origin
  refine ⟨g, hGraph, fun c => ?_, fun r => ?_⟩
  · rw [h.exists_chainAt?_iff hGraph]
    constructor
    · intro hComes
      obtain ⟨way, approach, hOpens, hLeads⟩ := hComes
      exact hLeads.reached (hOpens.walked walked_nil)
    · exact Reached.exists_way
  · rw [h.exists_ruleAt?_iff hGraph]
    constructor
    · intro hEntered
      obtain ⟨way, rest, rule, hOpens, hPath, hRule⟩ := hEntered
      exact ⟨rule, hRule, hOpens.walked walked_nil _ (hPath ▸ List.mem_cons_self ..)⟩
    · intro hRule
      obtain ⟨rule, hRule, hReached, hTable⟩ := hRule
      obtain ⟨owner, hOwner, hMem⟩ := h.mem_of_rule hRule
      obtain ⟨way, approach, hOpens, hLeads⟩ := hReached.exists_way
      obtain ⟨outer, rest, hOuter, hPath⟩ :=
        exists_way_of_leads hOpens hLeads ⟨owner, hOwner, List.ne_nil_of_mem hMem⟩ hTable
      exact ⟨outer, rest, rule, hOuter, hPath, hRule⟩

theorem shown_iff_reached_crossing :
    crossing.TargetsExist ∧ ∃ g, crossing.traversal? .outside = some g ∧
      (∀ c, (∃ place, g.chainAt? place = some c) ↔ crossing.Reached .outside c) ∧
      ∀ r, (∃ place, g.ruleAt? place = some r) ↔
        ∃ rule, crossing.rule? r = some rule ∧ crossing.Reached .outside rule.chain ∧
          ¬crossing.IsExtension rule.chain :=
  have hTargets : crossing.TargetsExist := by decide +kernel
  ⟨hTargets, shown_iff_reached ⟨_, rfl⟩ hTargets .outside⟩

end PacketFlow.Ruleset
