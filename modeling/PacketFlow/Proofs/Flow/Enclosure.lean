import PacketFlow.Proofs.Flow.Link

/-!
Chains within chains. A chain is shown without its rules where these are being shown around it,
which is said here about the graph alone: the flag of a vertex tells whether one of the vertices that
enclose it holds the rules of its chain. The chains around a place are those of the way to the
place, whatever has been shown beside the way, and no chain's rules are shown within themselves.
-/
namespace PacketFlow

namespace Graph

/-- The rules of the chain are shown around what stands on the level at that place. -/
def Encloses (g : Graph) (around : List Nat) (c : ChainId) : Prop :=
  ∃ outer, outer <+: around ∧ g.rulesAt? outer = some c

/-- One edge leaves the position, and it leads into the rules of the chain. -/
def EntersRules (level : Graph) (position : Nat) (c : ChainId) : Prop :=
  ∃ target name inner, level.outgoing position = [⟨position, target, .rules⟩] ∧
    level.vertex? target = some (.rules name c inner)

end Graph

namespace Ruleset

variable {rs : Ruleset} {origin : Origin} {path : List ChainId} {g level : Graph}

namespace Consistent

variable (h : rs.Consistent)

include h

/-- The chains around the place of a way are the chains that the way enters. -/
theorem encloses_placeFrom (hGraph : rs.traversal? origin = some g) {way : Way}
    (hOpens : rs.Opens origin [] way) {c : ChainId} :
    g.Encloses (rs.placeFrom origin [] way) c ↔ c ∈ way.path [] := by
  have hLevel : rs.level? origin [] = some g := hGraph
  rw [Way.path, List.append_nil, List.mem_reverse]
  constructor
  · rintro ⟨outer, hPrefix, hRules⟩
    obtain ⟨first, rest, rfl, rfl⟩ := exists_placeFrom_eq_of_prefix hPrefix
    obtain rfl | ⟨front, ⟨approach, d⟩, rfl⟩ := first.eq_nil_or_concat
    · cases hRules
    · rw [List.concat_eq_append] at hRules hOpens ⊢
      rw [h.rulesAt?_placeFrom hLevel (opens_append.1 hOpens).1] at hRules
      cases hRules
      simp
  · intro hMem
    obtain ⟨⟨approach, d⟩, hStep, rfl⟩ := List.mem_map.1 hMem
    obtain ⟨before, after, rfl⟩ := List.append_of_mem hStep
    rw [List.append_cons] at hOpens ⊢
    refine ⟨rs.placeFrom origin [] (before ++ [(approach, d)]), ?_,
      h.rulesAt?_placeFrom hLevel (opens_append.1 hOpens).1⟩
    rw [placeFrom_append (before ++ [(approach, d)]) after]
    exact List.prefix_append _ _

/-- The chains whose rules are shown inside one another are distinct. -/
theorem ne_of_prefix (hGraph : rs.traversal? origin = some g) {outer inner : List Nat}
    {c d : ChainId} (hPrefix : outer <+: inner) (hOther : outer ≠ inner)
    (hOuter : g.rulesAt? outer = some c) (hInner : g.rulesAt? inner = some d) : c ≠ d := by
  have hLevel : rs.level? origin [] = some g := hGraph
  obtain ⟨hSome, level, hAt⟩ := Graph.exists_levelAt?_of_rulesAt? hInner
  obtain ⟨way, hOpens, -, rfl⟩ := h.exists_way_of_levelAt? hLevel hAt
  obtain rfl | ⟨front, ⟨approach, d'⟩, rfl⟩ := way.eq_nil_or_concat
  · exact absurd rfl hSome
  rw [List.concat_eq_append] at hPrefix hOther hInner hOpens
  rw [h.rulesAt?_placeFrom hLevel hOpens] at hInner
  cases hInner
  obtain ⟨hFront, ⟨-, hExpands⟩, -⟩ := opens_append.1 hOpens
  rw [placeFrom_append, placeFrom, placeFrom] at hPrefix hOther
  have hAround : g.Encloses (rs.placeFrom origin [] front) c :=
    ⟨outer, (List.prefix_concat_iff.1 hPrefix).resolve_left hOther, hOuter⟩
  rintro rfl
  exact (expands_iff.1 hExpands).2.2 ((h.encloses_placeFrom hGraph hFront).1 hAround)

section Outgoing

variable {c d : ChainId} {approach : Approach}
  (hGraph : rs.innerGraph? (c :: path) c = some level)
  (hMem : .chain approach d ∈ rs.entries origin (c :: path))

include hGraph hMem

/-- The edges from a chain on the level of another lead into its rules, where it expands. -/
theorem edge_from_chain_iff {e : Edge} :
    e ∈ level.edges ∧ e.source = (rs.entries origin (c :: path)).idxOf (.chain approach d) ↔
      rs.Expands (c :: path) d ∧ e = Link.edge (rs.entries origin (c :: path))
        ⟨.chain approach d, .rules approach d, .rules⟩ := by
  rw [h.edges_eq origin hGraph, List.mem_map]
  constructor
  · rintro ⟨⟨⟨source, target, kind⟩, hLink, rfl⟩, hSource⟩
    obtain rfl : .chain approach d = source := (List.idxOf_inj hMem).1 hSource.symm
    cases kind with
    | next =>
        obtain ⟨r, next, hOther, -⟩ := exists_rule_of_next_mem_links hLink
        cases hOther
    | rules =>
        obtain ⟨r, transfer, d', ⟨-, hExpands⟩, hSame, rfl⟩ := h.rules_mem_links.1 hLink
        cases hSame
        exact ⟨hExpands, rfl⟩
    | transfer transfer =>
        obtain ⟨r, d', -, hOther, -⟩ := h.transfer_mem_links.1 hLink
        cases hOther
  · rintro ⟨hExpands, rfl⟩
    obtain _ | ⟨r, transfer⟩ := approach
    · exact (h.chain_mem_entries.1 hMem).elim
    · exact ⟨⟨_, h.rules_mem_links.2 ⟨r, transfer, d, ⟨h.chain_mem_entries.1 hMem, hExpands⟩,
        rfl, rfl⟩, rfl⟩, rfl⟩

theorem outgoing_of_expands (hRules : rs.HasRules c) (hExpands : rs.Expands (c :: path) d) :
    level.outgoing ((rs.entries origin (c :: path)).idxOf (.chain approach d)) =
      [Link.edge (rs.entries origin (c :: path))
        ⟨.chain approach d, .rules approach d, .rules⟩] := by
  refine (isTree_of_innerGraph? hRules hGraph).filter_edges_eq fun e => ?_
  rw [beq_iff_eq, h.edge_from_chain_iff hGraph hMem]
  exact and_iff_right hExpands

theorem entersRules_of_expands (hRules : rs.HasRules c) (hExpands : rs.Expands (c :: path) d) :
    level.EntersRules ((rs.entries origin (c :: path)).idxOf (.chain approach d)) d := by
  have hLevel : rs.level? origin (c :: path) = some level := hGraph
  obtain ⟨v, hVertex, label, inner, -, -, rfl⟩ := exists_vertex?_of_mem_entries hLevel
    (h.rules_mem_entries.2 ⟨h.chain_mem_entries.1 hMem, hExpands⟩)
  exact ⟨_, _, inner, h.outgoing_of_expands hGraph hMem hRules hExpands, hVertex⟩

theorem outgoing_eq_nil_iff (hRules : rs.HasRules c) :
    level.outgoing ((rs.entries origin (c :: path)).idxOf (.chain approach d)) = [] ↔
      ¬rs.Expands (c :: path) d := by
  constructor
  · intro hNone hExpands
    rw [h.outgoing_of_expands hGraph hMem hRules hExpands] at hNone
    cases hNone
  · intro hClosed
    rw [Graph.outgoing, List.filter_eq_nil_iff]
    intro e hEdge hSource
    exact hClosed ((h.edge_from_chain_iff hGraph hMem).1 ⟨hEdge, beq_iff_eq.1 hSource⟩).1

end Outgoing

end Consistent

/-- Inside the graph a chain is truncated exactly if one of the vertices around it holds its rules.
It is left by an edge exactly if it is a chain of a table, not truncated and has rules, and then by
one edge alone, into its rules on the same level. On the outermost level no chain is truncated or an
extension, and rules inside one another belong to different chains. -/
theorem truncated_iff_encloses (hBuilt : rs.Built) (hTargets : rs.TargetsExist) (origin : Origin) :
    ∃ g, rs.traversal? origin = some g ∧
      (∀ around level position name c isExtension truncated, around ≠ [] →
        g.levelAt? around = some level →
        level.vertex? position = some (.chain name c isExtension truncated) →
          (isExtension = true ↔ rs.IsExtension c) ∧
          (truncated = true ↔ g.Encloses around c) ∧
          (level.outgoing position ≠ [] ↔
            ¬rs.IsExtension c ∧ truncated = false ∧ rs.HasRules c) ∧
          (level.outgoing position ≠ [] → level.EntersRules position c)) ∧
      (∀ position name c isExtension truncated,
        g.vertex? position = some (.chain name c isExtension truncated) →
          isExtension = false ∧ truncated = false) ∧
      ∀ outer inner c d, outer <+: inner → outer ≠ inner → g.rulesAt? outer = some c →
        g.rulesAt? inner = some d → c ≠ d := by
  have h := hBuilt.consistent
  obtain ⟨g, hGraph⟩ := h.exists_traversal? hTargets origin
  have hLevel : rs.level? origin [] = some g := hGraph
  refine ⟨g, hGraph, ?_, ?_, fun outer inner c d hPrefix hOther hOuter hInner =>
    h.ne_of_prefix hGraph hPrefix hOther hOuter hInner⟩
  · intro around level position name c isExtension truncated hInside hAt hVertex
    obtain ⟨way, hOpens, hFound, rfl⟩ := h.exists_way_of_levelAt? hLevel hAt
    obtain ⟨b, rest, hPath, hEntered⟩ :=
      hOpens.exists_path_eq_cons fun hNil => hInside (by rw [hNil]; rfl)
    rw [hPath] at hFound
    rw [h.encloses_placeFrom hGraph hOpens, hPath]
    obtain ⟨approach, chain, hMem, rfl, -, hChain, rfl, rfl⟩ := h.exists_entry_of_chain hFound hVertex
    have hRules := (expands_iff.1 hEntered).1
    have hTruncated : (b :: rest).contains c = true ↔ c ∈ b :: rest := by simp
    have hLeft := h.outgoing_eq_nil_iff hFound hMem hRules
    refine ⟨by simp [IsExtension, hChain], hTruncated, ?_, fun hSome => ?_⟩
    · rw [ne_eq, hLeft, not_not, expands_iff, ← hTruncated, Bool.not_eq_true]
      tauto
    · exact h.entersRules_of_expands hFound hMem hRules (not_not.1 fun hClosed =>
        hSome (hLeft.2 hClosed))
  · intro position name c isExtension truncated hVertex
    obtain ⟨_ | call, chain, hMem, -, -, hChain, rfl, rfl⟩ := h.exists_entry_of_chain hLevel hVertex
    · obtain ⟨found, hFound, hTable⟩ := h.exists_of_mem_builtinChains (h.chain_mem_entries.1 hMem)
      obtain rfl := Option.some.inj (hFound.symm.trans hChain)
      exact ⟨hTable, rfl⟩
    · exact (h.chain_mem_entries.1 hMem).elim

theorem truncated_iff_encloses_relay :
    relay.TargetsExist ∧ ∃ g, relay.traversal? .outside = some g ∧
      (∀ around level position name c isExtension truncated, around ≠ [] →
        g.levelAt? around = some level →
        level.vertex? position = some (.chain name c isExtension truncated) →
          (isExtension = true ↔ relay.IsExtension c) ∧
          (truncated = true ↔ g.Encloses around c) ∧
          (level.outgoing position ≠ [] ↔
            ¬relay.IsExtension c ∧ truncated = false ∧ relay.HasRules c) ∧
          (level.outgoing position ≠ [] → level.EntersRules position c)) ∧
      (∀ position name c isExtension truncated,
        g.vertex? position = some (.chain name c isExtension truncated) →
          isExtension = false ∧ truncated = false) ∧
      ∀ outer inner c d, outer <+: inner → outer ≠ inner → g.rulesAt? outer = some c →
        g.rulesAt? inner = some d → c ≠ d :=
  have hTargets : relay.TargetsExist := by decide +kernel
  ⟨hTargets, truncated_iff_encloses ⟨_, rfl⟩ hTargets .outside⟩

end Ruleset

end PacketFlow
