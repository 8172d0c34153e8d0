import PacketFlow.Proofs.Flow.Enclosure

/-!
What the rules of a chain look like on their level. The vertices of the rules stand in the order of
the chain and are passed one after the other. Each of them hands a packet to a chain of its own for
every target of its rule, and nothing else stands on the level but what comes of these chains.
-/
namespace PacketFlow

namespace Graph

/-- The positions of the vertices of a class, in order. -/
def positionsOf (g : Graph) (kind : VertexClass) : List Nat :=
  (List.range g.vertices.length).filter fun position => (g.vertex? position).any (·.kind == kind)

/-- The edges under which a packet is handed over at a position, in order. -/
def transfers (g : Graph) (position : Nat) (transfer : Transfer) : List Edge :=
  (g.outgoing position).filter fun e => e.kind == .transfer transfer

end Graph

/-- The class of the vertex that an entry asks for. -/
def Entry.kind : Entry → VertexClass
  | rule _ => .rule
  | chain .. => .chain
  | rules .. => .rules

namespace Ruleset

variable {rs : Ruleset} {origin : Origin} {path : List ChainId} {g level : Graph}

/-- The rule is shown at the position. For each target of the rule one edge leaves it, to a vertex
of the target that no other edge leads to. -/
structure ShowsRule (rs : Ruleset) (level : Graph) (rule : RuleId × Rule) (position : Nat) :
    Prop where
  vertex : ∃ label, rs.ruleLabel? rule.1 = some label ∧
    level.vertex? position = some (.rule label rule.1)
  transfers_none {transfer : Transfer} (hNone : rule.2.target? transfer = none) :
    level.transfers position transfer = []
  transfers_some {transfer : Transfer} {c : ChainId} (hTarget : rule.2.target? transfer = some c) :
    ∃ target label isExtension truncated,
      level.transfers position transfer = [⟨position, target, .transfer transfer⟩] ∧
      level.incoming target = [⟨position, target, .transfer transfer⟩] ∧
      rs.chainLabel? c = some label ∧
      level.vertex? target = some (.chain label c isExtension truncated)

/-- The level shows these rules in their order, the chains that they hand packets to and the rules
of those chains, and no more. -/
structure ShowsRules (rs : Ruleset) (rules : List (RuleId × Rule)) (level : Graph) : Prop where
  stops : List.Forall₂ (rs.ShowsRule level) rules (level.positionsOf .rule)
  next : level.edges.filter (·.kind == .next) =
    List.zipWith (fun position next => ⟨position, next, .next⟩) (level.positionsOf .rule)
      (level.positionsOf .rule).tail
  of_chain {position : Nat} {name : String} {c : ChainId} {isExtension truncated : Bool}
    (hVertex : level.vertex? position = some (.chain name c isExtension truncated)) :
    ∃ rule ∈ rules, ∃ source transfer, rs.ShowsRule level rule source ∧
      rule.2.target? transfer = some c ∧
      level.transfers source transfer = [⟨source, position, .transfer transfer⟩]
  of_rules {position : Nat} {name : String} {c : ChainId} {inner : Graph}
    (hVertex : level.vertex? position = some (.rules name c inner)) :
    ∃ source label isExtension truncated, rs.chainLabel? c = some label ∧
      name = s!"rules: {label}" ∧
      level.vertex? source = some (.chain label c isExtension truncated) ∧
      level.outgoing source = [⟨source, position, .rules⟩]

section Positions

theorem filter_range_eq_map_idxOf {α : Type} [DecidableEq α] {xs : List α} (hNodup : xs.Nodup)
    (wanted : α → Bool) :
    (List.range xs.length).filter (fun i => xs[i]?.any wanted) =
      (xs.filter wanted).map xs.idxOf := by
  have hRange : xs.map xs.idxOf = List.range xs.length := by
    refine List.ext_getElem (by simp) fun i _ _ => ?_
    simp [hNodup.idxOf_getElem]
  rw [← hRange, List.filter_map]
  congr 1
  refine List.filter_congr fun x hMem => ?_
  rw [Function.comp_apply, List.getElem?_idxOf hMem, Option.any_some]

theorem Stands.kind_eq {entry : Entry} {v : Vertex} (hStands : rs.Stands origin path entry v) :
    v.kind = entry.kind := by
  cases entry with
  | rule r => obtain ⟨label, -, rfl⟩ := hStands; rfl
  | chain approach c => obtain ⟨label, chain, -, -, rfl⟩ := hStands; rfl
  | rules approach c => obtain ⟨label, inner, -, -, rfl⟩ := hStands; rfl

/-- The vertices of a class stand where the entries of that class do. -/
theorem Consistent.positionsOf_eq (h : rs.Consistent) (hLevel : rs.level? origin path = some g)
    (kind : VertexClass) :
    g.positionsOf kind =
      ((rs.entries origin path).filter (·.kind == kind)).map (rs.entries origin path).idxOf := by
  have hStands := stands_of_level?_eq_some hLevel
  rw [← filter_range_eq_map_idxOf (h.entries_nodup origin path), Graph.positionsOf,
    ← hStands.length_eq]
  refine List.filter_congr fun position hMem => ?_
  have hLt : position < g.vertices.length := hStands.length_eq ▸ List.mem_range.1 hMem
  have hVertex : g.vertex? position = some g.vertices[position] := List.getElem?_eq_getElem hLt
  obtain ⟨entry, hEntry, hHere⟩ := forall₂_getElem? hStands hVertex
  rw [hVertex, hEntry, Option.any_some, Option.any_some, hHere.kind_eq]

theorem filter_rule_stopEntries (rule : RuleId × Rule) :
    (rs.stopEntries path rule).filter (·.kind == .rule) = [.rule rule.1] := by
  rw [stopEntries, List.filter_cons_of_pos (by rfl), List.cons_inj_right, List.filter_eq_nil_iff]
  intro entry hMem
  obtain ⟨target, -, hMem⟩ := List.mem_flatMap.1 hMem
  obtain ⟨c, rfl | rfl⟩ := eq_of_mem_visitEntries hMem
  · exact Bool.false_ne_true
  · exact Bool.false_ne_true

/-- The vertices of rules stand in the order of the rules. -/
theorem Consistent.positionsOf_rule (h : rs.Consistent) {c : ChainId}
    {rules : List (RuleId × Rule)} (hRules : rs.rulesOf? c = some rules)
    (hLevel : rs.level? origin (c :: path) = some level) :
    level.positionsOf .rule =
      rules.map fun rule => (rs.entries origin (c :: path)).idxOf (.rule rule.1) := by
  have hFilter : (rs.entries origin (c :: path)).filter (·.kind == .rule) =
      rules.map fun rule => .rule rule.1 := by
    rw [entries, hRules, Option.getD_some, List.filter_flatMap]
    simp only [filter_rule_stopEntries]
    exact List.map_eq_flatMap.symm
  rw [h.positionsOf_eq hLevel, hFilter, List.map_map]
  rfl

end Positions

section RuleLevel

variable {c : ChainId} {rules : List (RuleId × Rule)} {rule : RuleId × Rule}

theorem rule_mem_entries_of_mem (hRules : rs.rulesOf? c = some rules) (hMem : rule ∈ rules) :
    .rule rule.1 ∈ rs.entries origin (c :: path) := by
  rw [entries, hRules, Option.getD_some]
  exact List.mem_flatMap.2 ⟨rule, hMem, List.mem_cons_self ..⟩

variable (h : rs.Consistent) (hRules : rs.rulesOf? c = some rules)

include h hRules

theorem Consistent.calls_iff_target? (hMem : rule ∈ rules) {transfer : Transfer} {d : ChainId} :
    rs.Calls c ⟨rule.1, transfer, d⟩ ↔ rule.2.target? transfer = some d := by
  obtain ⟨r, rule⟩ := rule
  have hRule : (r, rule) ∈ (rs.rulesOf? c).getD [] := by rwa [hRules]
  obtain ⟨chain, hChain, hMember, hRead⟩ := h.mem_rulesOf?.1 hRule
  constructor
  · rintro ⟨-, found, -, -, hFound, hTarget⟩
    obtain rfl := Option.some.inj (hFound.symm.trans hRead)
    exact hTarget
  · intro hTarget
    exact ⟨chain, rule, hChain, hMember, hRead, hTarget⟩

variable (hGraph : rs.innerGraph? (c :: path) c = some level)

include hGraph

/-- The edges from a rule to other chains lead to its targets. -/
theorem Consistent.edge_from_rule_iff (origin : Origin) (hMem : rule ∈ rules) {transfer : Transfer}
    {e : Edge} :
    (e ∈ level.edges ∧ e.source = (rs.entries origin (c :: path)).idxOf (.rule rule.1)) ∧
        e.kind = .transfer transfer ↔
      ∃ d, rule.2.target? transfer = some d ∧ e = Link.edge (rs.entries origin (c :: path))
        ⟨.rule rule.1, .chain (some (rule.1, transfer)) d, .transfer transfer⟩ := by
  rw [h.edges_eq origin hGraph, List.mem_map]
  constructor
  · rintro ⟨⟨⟨⟨source, target, kind⟩, hLink, rfl⟩, hSource⟩, hKind⟩
    obtain rfl : .rule rule.1 = source :=
      (List.idxOf_inj (rule_mem_entries_of_mem hRules hMem)).1 hSource.symm
    obtain rfl : kind = .transfer transfer := hKind
    obtain ⟨r, d, hCall, hSame, rfl⟩ := h.transfer_mem_links.1 hLink
    cases hSame
    exact ⟨d, (h.calls_iff_target? hRules hMem).1 hCall, rfl⟩
  · rintro ⟨d, hTarget, rfl⟩
    have hCall := (h.calls_iff_target? hRules hMem).2 hTarget
    exact ⟨⟨⟨_, h.transfer_mem_links.2 ⟨rule.1, d, hCall, rfl, rfl⟩, rfl⟩, rfl⟩, rfl⟩

theorem Consistent.transfers_of_target (origin : Origin) (hSome : rs.HasRules c)
    (hMem : rule ∈ rules) {transfer : Transfer} {d : ChainId}
    (hTarget : rule.2.target? transfer = some d) :
    level.transfers ((rs.entries origin (c :: path)).idxOf (.rule rule.1)) transfer =
      [Link.edge (rs.entries origin (c :: path))
        ⟨.rule rule.1, .chain (some (rule.1, transfer)) d, .transfer transfer⟩] := by
  rw [Graph.transfers, Graph.outgoing, List.filter_filter]
  refine (isTree_of_innerGraph? hSome hGraph).filter_edges_eq fun e => ?_
  rw [Bool.and_eq_true, beq_iff_eq, beq_iff_eq, and_comm (a := e.kind = _), ← and_assoc,
    h.edge_from_rule_iff hRules hGraph origin hMem]
  simp only [hTarget, Option.some.injEq, exists_eq_left']

/-- Every rule is shown where its entry stands. -/
theorem Consistent.showsRule (origin : Origin) (hSome : rs.HasRules c) (hMem : rule ∈ rules) :
    rs.ShowsRule level rule ((rs.entries origin (c :: path)).idxOf (.rule rule.1)) := by
  have hLevel : rs.level? origin (c :: path) = some level := hGraph
  refine ⟨?_, fun {transfer} hNone => ?_, fun {transfer d} hTarget => ?_⟩
  · obtain ⟨v, hVertex, label, hLabel, rfl⟩ :=
      exists_vertex?_of_mem_entries hLevel (rule_mem_entries_of_mem hRules hMem)
    exact ⟨label, hLabel, hVertex⟩
  · rw [Graph.transfers, Graph.outgoing, List.filter_filter, List.filter_eq_nil_iff]
    intro e hMember hWanted
    rw [Bool.and_eq_true, beq_iff_eq, beq_iff_eq] at hWanted
    obtain ⟨d, hTarget, -⟩ := (h.edge_from_rule_iff hRules hGraph origin hMem).1
      ⟨⟨hMember, hWanted.2⟩, hWanted.1⟩
    rw [hNone] at hTarget
    cases hTarget
  · have hLeads : rs.Leads origin (c :: path) (some (rule.1, transfer)) d :=
      (h.calls_iff_target? hRules hMem).2 hTarget
    obtain ⟨v, hVertex, label, chain, hLabel, -, rfl⟩ :=
      exists_vertex?_of_mem_entries hLevel (h.chain_mem_entries.2 hLeads)
    have hHere := ((h.edge_from_rule_iff hRules hGraph origin hMem).2 ⟨d, hTarget, rfl⟩).1.1
    exact ⟨_, label, _, _, h.transfers_of_target hRules hGraph origin hSome hMem hTarget,
      (isTree_of_innerGraph? hSome hGraph).incoming_eq hHere, hLabel, hVertex⟩

/-- The edges to a next rule join each two rules that follow each other. -/
theorem Consistent.filter_next_edges (origin : Origin) :
    level.edges.filter (·.kind == .next) =
      List.zipWith (fun position next => ⟨position, next, .next⟩) (level.positionsOf .rule)
        (level.positionsOf .rule).tail := by
  have hLevel : rs.level? origin (c :: path) = some level := hGraph
  have hNext := congrArg (List.map (Link.edge (rs.entries origin (c :: path))))
    (filter_next_links rs (c :: path) c)
  rw [hRules, Option.getD_some] at hNext
  rw [h.edges_eq origin hGraph, List.filter_map, h.positionsOf_rule hRules hLevel, ← List.map_tail,
    List.zipWith_map]
  rw [List.map_zipWith, ← List.map_tail, List.zipWith_map] at hNext
  exact hNext

/-- The level of a chain shows its rules. -/
theorem Consistent.showsRules (origin : Origin) (hSome : rs.HasRules c) :
    rs.ShowsRules rules level := by
  have hLevel : rs.level? origin (c :: path) = some level := hGraph
  have hShows {rule : RuleId × Rule} (hMem : rule ∈ rules) :=
    h.showsRule hRules hGraph origin hSome hMem
  refine ⟨?_, h.filter_next_edges hRules hGraph origin, ?_, ?_⟩
  · rw [h.positionsOf_rule hRules hLevel, List.forall₂_map_right_iff, List.forall₂_same]
    exact fun rule hMem => hShows hMem
  · intro position name d isExtension truncated hVertex
    obtain ⟨approach, chain, hMem, rfl, -⟩ := h.exists_entry_of_chain hLevel hVertex
    obtain _ | ⟨r, transfer⟩ := approach
    · exact (h.chain_mem_entries.1 hMem).elim
    · obtain ⟨rule, hRule, hTarget⟩ := h.calls_iff.1 (h.chain_mem_entries.1 hMem)
      rw [hRules, Option.getD_some] at hRule
      rw [RuleBody.mem_targets] at hTarget
      exact ⟨(r, rule), hRule, _, transfer, hShows hRule, hTarget,
        h.transfers_of_target hRules hGraph origin hSome hRule hTarget⟩
  · intro position name d inner hVertex
    obtain ⟨approach, label, hMem, rfl, hLabel, hName, -⟩ := h.exists_entry_of_rules hLevel hVertex
    obtain ⟨hLeads, hExpands⟩ := h.rules_mem_entries.1 hMem
    have hChain := h.chain_mem_entries.2 hLeads
    obtain ⟨v, hHead, label', chain, hLabel', -, rfl⟩ := exists_vertex?_of_mem_entries hLevel hChain
    obtain rfl := Option.some.inj (hLabel'.symm.trans hLabel)
    exact ⟨_, label', _, _, hLabel, hName, hHead, h.outgoing_of_expands hGraph hChain hSome hExpands⟩

end RuleLevel

/-- Wherever the graph holds the rules of a chain, it shows them in their order, named by their
labels, each handing a packet to a vertex of its own for each of its targets. Nothing else stands
there but those vertices and the rules of their chains, which are named by the chains' labels. -/
theorem showsRules_of_at? (hBuilt : rs.Built) (hTargets : rs.TargetsExist) (origin : Origin) :
    ∃ g, rs.traversal? origin = some g ∧
      ∀ place name c inner, g.at? place = some (.rules name c inner) →
        ∃ label rules, rs.chainLabel? c = some label ∧ name = s!"rules: {label}" ∧
          rs.rulesOf? c = some rules ∧ rs.ShowsRules rules inner := by
  have h := hBuilt.consistent
  obtain ⟨g, hGraph⟩ := h.exists_traversal? hTargets origin
  have hOutermost : rs.level? origin [] = some g := hGraph
  refine ⟨g, hGraph, fun place name c inner hAt => ?_⟩
  obtain ⟨way, level, position, -, hLevel, hVertex⟩ := h.exists_way_of_at? hOutermost hAt
  obtain ⟨approach, label, hMem, -, hLabel, hName, hInner⟩ := h.exists_entry_of_rules hLevel hVertex
  obtain ⟨chain, hChain, hSome⟩ := (expands_iff.1 (h.rules_mem_entries.1 hMem).2).1
  obtain ⟨rules, hRules⟩ := h.exists_rulesOf? hChain
  exact ⟨label, rules, hLabel, hName, hRules,
    h.showsRules hRules hInner origin ⟨chain, hChain, hSome⟩⟩

theorem showsRules_of_at?_relay :
    relay.TargetsExist ∧ ∃ g, relay.traversal? .outside = some g ∧
      ∀ place name c inner, g.at? place = some (.rules name c inner) →
        ∃ label rules, relay.chainLabel? c = some label ∧ name = s!"rules: {label}" ∧
          relay.rulesOf? c = some rules ∧ relay.ShowsRules rules inner :=
  have hTargets : relay.TargetsExist := by decide +kernel
  ⟨hTargets, showsRules_of_at? ⟨_, rfl⟩ hTargets .outside⟩

end Ruleset

end PacketFlow
