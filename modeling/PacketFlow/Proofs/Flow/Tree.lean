import Mathlib.Data.List.Perm.Basic
import Mathlib.Logic.Relation
import PacketFlow.Proofs.Flow.Edges
import PacketFlow.Proofs.Flow.Way

/-!
Every level is a tree. An edge is added for every vertex of a level but the first, in the order in
which the vertices are come to, so the targets of the edges are the positions behind the first, each
once. Where an edge starts from a vertex that is reached already, its target is reached as well.
-/
namespace PacketFlow

namespace Level

variable {V : Type}

/-- An edge of the level leads from one position to another. -/
def Joins (g : Level V) (source target : Nat) : Prop :=
  ∃ e ∈ g.edges, e.source = source ∧ e.target = target

/-- The position is reached from the first one along the edges. -/
def Reaches (g : Level V) (position : Nat) : Prop :=
  Relation.ReflTransGen g.Joins 0 position

/-- The edges that lead to a position, in order. -/
def incoming (g : Level V) (position : Nat) : List Edge :=
  g.edges.filter fun e => e.target == position

/-- The level is a tree that grows from its first vertex. -/
structure IsTree (g : Level V) : Prop where
  within : g.EdgesWithin
  incoming_root : g.incoming 0 = []
  incoming_other {position : Nat} (hPosition : 0 < position)
    (hLt : position < g.vertices.length) : ∃ e, g.incoming position = [e]
  reaches {position : Nat} (hLt : position < g.vertices.length) : g.Reaches position
  length_edges : g.edges.length + 1 = g.vertices.length

variable {g : Level V}

theorem reaches_zero : g.Reaches 0 :=
  .refl

theorem Reaches.target {e : Edge} (hSource : g.Reaches e.source) (hMem : e ∈ g.edges) :
    g.Reaches e.target :=
  .tail hSource ⟨e, hMem, rfl, rfl⟩

/-- A level is a tree if its first position and the targets of its edges are all positions, each
once, and the edges start from positions that are reached. -/
theorem isTree_of_targets (hWithin : g.EdgesWithin)
    (hTargets : (0 :: g.edges.map Edge.target).Perm (List.range g.vertices.length))
    (hReaches : ∀ e ∈ g.edges, g.Reaches e.target) : g.IsTree := by
  have hLength : g.edges.length + 1 = g.vertices.length := by
    simpa using hTargets.length_eq
  have hNodup : (0 :: g.edges.map Edge.target).Nodup := hTargets.nodup_iff.2 List.nodup_range
  obtain ⟨hRoot, hDistinct⟩ := List.nodup_cons.1 hNodup
  have hIncoming (position : Nat) :
      (g.incoming position).length = (g.edges.map Edge.target).count position := by
    rw [incoming, ← List.countP_eq_length_filter, List.count, List.countP_map]
    rfl
  have hTarget {position : Nat} (hPosition : 0 < position) (hLt : position < g.vertices.length) :
      position ∈ g.edges.map Edge.target := by
    have hMem := hTargets.mem_iff.2 (List.mem_range.2 hLt)
    exact (List.mem_cons.1 hMem).resolve_left (Nat.ne_of_gt hPosition)
  refine ⟨hWithin, ?_, fun hPosition hLt => ?_, fun {position} hLt => ?_, hLength⟩
  · rw [← List.length_eq_zero_iff, hIncoming, List.count_eq_zero]
    exact hRoot
  · rw [← List.length_eq_one_iff, hIncoming]
    exact List.count_eq_one_of_mem hDistinct (hTarget hPosition hLt)
  · by_cases hPosition : 0 < position
    · obtain ⟨e, hMem, rfl⟩ := List.mem_map.1 (hTarget hPosition hLt)
      exact hReaches e hMem
    · rw [Nat.eq_zero_of_not_pos hPosition]
      exact reaches_zero

namespace IsTree

variable (hTree : g.IsTree) {e : Edge}

include hTree

/-- An edge is the only one that leads to its target. -/
theorem incoming_eq (hMem : e ∈ g.edges) : g.incoming e.target = [e] := by
  have hIn : e ∈ g.incoming e.target := List.mem_filter.2 ⟨hMem, beq_self_eq_true _⟩
  have hOther : 0 < e.target := by
    refine Nat.pos_of_ne_zero fun hZero => ?_
    rw [hZero, hTree.incoming_root] at hIn
    exact List.not_mem_nil hIn
  obtain ⟨other, hOnly⟩ := hTree.incoming_other hOther (hTree.within e hMem).2
  rw [hOnly] at hIn ⊢
  rw [List.mem_singleton.1 hIn]

theorem edges_nodup : g.edges.Nodup := by
  rw [List.nodup_iff_count_le_one]
  intro e
  by_cases hMem : e ∈ g.edges
  · have hSame : (g.edges.filter (· == e)).Sublist (g.incoming e.target) := by
      refine List.monotone_filter_right g.edges fun other hOther => ?_
      rw [beq_iff_eq] at hOther ⊢
      rw [hOther]
    rw [List.count, List.countP_eq_length_filter]
    simpa [hTree.incoming_eq hMem] using hSame.length_le
  · rw [List.count_eq_zero_of_not_mem hMem]
    exact Nat.zero_le 1

/-- If one edge alone is wanted, it is what is left of the edges. -/
theorem filter_edges_eq {wanted : Edge → Bool}
    (hOnly : ∀ other, other ∈ g.edges ∧ wanted other = true ↔ other = e) :
    g.edges.filter wanted = [e] := by
  refine List.perm_singleton.1 ((List.perm_ext_iff_of_nodup (hTree.edges_nodup.filter _)
    (List.nodup_singleton e)).2 fun other => ?_)
  rw [List.mem_filter, List.mem_singleton, hOnly]

end IsTree

end Level

namespace Visit

/-- The edge from a chain into its rules leads to the rules. -/
theorem map_target_into (visit : Visit) (head body : Nat) :
    (visit.body.toList.map fun _ => (⟨head, body, .rules⟩ : Edge)).map Edge.target =
      List.range' body visit.body.toList.length := by
  cases visit.body <;> rfl

/-- The edges of a visit lead to the vertices behind its head. -/
theorem map_target_edges (visit : Visit) (position : Nat) :
    position :: (visit.edges position).map Edge.target =
      List.range' position visit.vertices.length := by
  rw [edges, map_target_into, length_vertices, List.range'_succ]

section LevelEdges

variable {g : Graph} {visit next : Visit} {rest : List Visit} {head body : Nat}

theorem levelEdges_of_body_eq_none (hBody : visit.body = none) :
    levelEdges head body (visit :: next :: rest) =
      ⟨head, head + 1, .next⟩ :: levelEdges (head + 1) body (next :: rest) := by
  conv_lhs => rw [levelEdges]
  simp [hBody]

theorem levelEdges_of_body_eq_some {v : Vertex} (hBody : visit.body = some v) :
    levelEdges head body (visit :: next :: rest) =
      ⟨head, body, .rules⟩ :: ⟨body, head + 1, .next⟩ ::
        levelEdges (head + 1) (body + 1) (next :: rest) := by
  conv_lhs => rw [levelEdges]
  simp [hBody]

theorem levelEdges_singleton :
    levelEdges head body [visit] = visit.body.toList.map fun _ => ⟨head, body, .rules⟩ := by
  simp [levelEdges]

/-- The edges between visits lead to the chains behind the first and to the rules of all. -/
theorem map_target_levelEdges :
    (head :: (levelEdges head body (visit :: rest)).map Edge.target).Perm
      (List.range' head (rest.length + 1) ++
        List.range' body ((visit :: rest).filterMap Visit.body).length) := by
  induction rest generalizing visit head body with
  | nil =>
      rw [levelEdges_singleton, map_target_into, length_filterMap_body]
      exact .refl _
  | cons next rest ih =>
      rw [length_filterMap_body, List.length_cons, List.range'_succ, List.cons_append]
      refine .cons head ?_
      cases hBody : visit.body with
      | none =>
          rw [levelEdges_of_body_eq_none hBody, List.map_cons, Option.toList_none, List.length_nil,
            Nat.zero_add]
          exact ih
      | some v =>
          rw [levelEdges_of_body_eq_some hBody, List.map_cons, List.map_cons, Option.toList_some,
            List.length_singleton, Nat.add_comm 1, List.range'_succ]
          exact (ih.cons body).trans List.perm_middle.symm

/-- The target of every edge between visits is reached if the first chain is. -/
theorem reaches_of_mem_levelEdges (hEdges : levelEdges head body (visit :: rest) ⊆ g.edges)
    (hHead : g.Reaches head) {e : Edge} (hMem : e ∈ levelEdges head body (visit :: rest)) :
    g.Reaches e.target := by
  induction rest generalizing visit head body with
  | nil =>
      have hSource : e.source = head := by
        rw [levelEdges_singleton] at hMem
        obtain ⟨v, -, rfl⟩ := List.mem_map.1 hMem
        rfl
      exact .target (hSource ▸ hHead) (hEdges hMem)
  | cons next rest ih =>
      cases hBody : visit.body with
      | none =>
          rw [levelEdges_of_body_eq_none hBody] at hEdges hMem
          obtain ⟨hOnward, hLater⟩ := List.cons_subset.1 hEdges
          have hNext : g.Reaches (head + 1) := Level.Reaches.target hHead hOnward
          rcases List.mem_cons.1 hMem with rfl | hMem
          · exact hNext
          · exact ih hLater hNext hMem
      | some v =>
          rw [levelEdges_of_body_eq_some hBody] at hEdges hMem
          obtain ⟨hInto, hOutward⟩ := List.cons_subset.1 hEdges
          obtain ⟨hOnward, hLater⟩ := List.cons_subset.1 hOutward
          have hInner : g.Reaches body := Level.Reaches.target hHead hInto
          have hNext : g.Reaches (head + 1) := Level.Reaches.target hInner hOnward
          rcases List.mem_cons.1 hMem with rfl | hMem
          · exact hInner
          rcases List.mem_cons.1 hMem with rfl | hMem
          · exact hNext
          · exact ih hLater hNext hMem

end LevelEdges

/-- The edges of the level of visits lead to all its vertices but the first. -/
theorem perm_targets_level (visit : Visit) (rest : List Visit) :
    (0 :: (level (visit :: rest)).edges.map Edge.target).Perm
      (List.range (level (visit :: rest)).vertices.length) := by
  have hLength : (level (visit :: rest)).vertices.length =
      rest.length + 1 + ((visit :: rest).filterMap Visit.body).length := by
    rw [level, List.length_append, List.length_map, List.length_cons]
  rw [hLength, List.range_eq_range', ← List.range'_append_1, Nat.zero_add]
  exact map_target_levelEdges

/-- The level of visits is a tree if there are any. -/
theorem isTree_level {visits : List Visit} (hSome : visits ≠ []) : (level visits).IsTree := by
  obtain ⟨visit, rest, rfl⟩ := List.exists_cons_of_ne_nil hSome
  exact Level.isTree_of_targets (edgesWithin_level _) (perm_targets_level visit rest) fun e hMem =>
    reaches_of_mem_levelEdges (List.Subset.refl _) Level.reaches_zero hMem

end Visit

namespace Stop

/-- The edges of a rule lead to the vertices of its visits. -/
theorem map_target_transferEdges (visits : List (Transfer × Visit)) (rule position : Nat) :
    (transferEdges rule position visits).map Edge.target =
      List.range' position (visits.flatMap fun (_, visit) => visit.vertices).length := by
  induction visits generalizing position with
  | nil => rfl
  | cons first rest ih =>
      obtain ⟨transfer, visit⟩ := first
      rw [transferEdges, List.map_append, List.map_cons, visit.map_target_edges, ih,
        List.range'_append_1, List.flatMap_cons, List.length_append]

/-- The edges of a stop lead to the vertices behind its rule. -/
theorem map_target_edges (stop : Stop) (position : Nat) :
    position :: (stop.edges position).map Edge.target =
      List.range' position stop.vertices.length := by
  rw [edges, map_target_transferEdges, vertices, List.length_cons, List.range'_succ]

theorem levelEdges_cons (stop : Stop) (rest : List Stop) (rule position : Nat) :
    levelEdges (some rule) position (stop :: rest) =
      ⟨rule, position, .next⟩ :: (stop.edges position ++
        levelEdges (some position) (position + stop.vertices.length) rest) := by
  simp [levelEdges]

/-- The edges of stops that follow a rule lead to all their vertices. -/
theorem map_target_levelEdges (stops : List Stop) (rule position : Nat) :
    (levelEdges (some rule) position stops).map Edge.target =
      List.range' position (stops.flatMap vertices).length := by
  induction stops generalizing rule position with
  | nil => rfl
  | cons stop rest ih =>
      rw [levelEdges_cons, List.map_cons, List.map_append, ih, ← List.cons_append,
        map_target_edges, List.range'_append_1, List.flatMap_cons, List.length_append]

variable {g : Graph} {rule position : Nat} {e : Edge}

theorem reaches_of_mem_transferEdges {visits : List (Transfer × Visit)}
    (hEdges : transferEdges rule position visits ⊆ g.edges) (hRule : g.Reaches rule)
    (hMem : e ∈ transferEdges rule position visits) : g.Reaches e.target := by
  induction visits generalizing position with
  | nil => cases hMem
  | cons first rest ih =>
      obtain ⟨transfer, visit⟩ := first
      rw [transferEdges, List.cons_append] at hEdges hMem
      obtain ⟨hFirst, hOther⟩ := List.cons_subset.1 hEdges
      obtain ⟨hVisit, hLater⟩ := List.append_subset.1 hOther
      have hHead : g.Reaches position := Level.Reaches.target hRule hFirst
      rw [List.mem_cons, List.mem_append] at hMem
      rcases hMem with rfl | hMem | hMem
      · exact hHead
      · have hSource : e.source = position := by
          obtain ⟨v, -, rfl⟩ := List.mem_map.1 hMem
          rfl
        exact .target (hSource ▸ hHead) (hVisit hMem)
      · exact ih hLater hMem

theorem reaches_of_mem_levelEdges {stops : List Stop}
    (hEdges : levelEdges (some rule) position stops ⊆ g.edges) (hRule : g.Reaches rule)
    (hMem : e ∈ levelEdges (some rule) position stops) : g.Reaches e.target := by
  induction stops generalizing rule position with
  | nil => cases hMem
  | cons stop rest ih =>
      rw [levelEdges_cons] at hEdges hMem
      obtain ⟨hNext, hOther⟩ := List.cons_subset.1 hEdges
      obtain ⟨hStop, hLater⟩ := List.append_subset.1 hOther
      have hHead : g.Reaches position := Level.Reaches.target hRule hNext
      rw [List.mem_cons, List.mem_append] at hMem
      rcases hMem with rfl | hMem | hMem
      · exact hHead
      · exact reaches_of_mem_transferEdges hStop hHead hMem
      · exact ih hLater hHead hMem

/-- The level of a chain's rules is a tree if there are any. -/
theorem isTree_level {stops : List Stop} (hSome : stops ≠ []) : (level stops).IsTree := by
  obtain ⟨stop, rest, rfl⟩ := List.exists_cons_of_ne_nil hSome
  have hEdges : (level (stop :: rest)).edges =
      stop.edges 0 ++ levelEdges (some 0) (0 + stop.vertices.length) rest := by
    simp [level, levelEdges]
  refine Level.isTree_of_targets (edgesWithin_level _) (.of_eq ?_) fun e hMem => ?_
  · rw [hEdges, List.map_append, ← List.cons_append, map_target_edges, map_target_levelEdges,
      List.range'_append_1, List.range_eq_range', level, List.flatMap_cons, List.length_append]
  · have hSubset := List.append_subset.1 (hEdges ▸ List.Subset.refl (level (stop :: rest)).edges)
    rcases List.mem_append.1 (hEdges ▸ hMem) with hMem | hMem
    · exact reaches_of_mem_transferEdges hSubset.1 Level.reaches_zero hMem
    · exact reaches_of_mem_levelEdges hSubset.2 Level.reaches_zero hMem

end Stop

namespace Ruleset

variable {rs : Ruleset} {origin : Origin} {g inner : Graph}

/-- A level that is held by a vertex is a tree: only chains that have rules hold one. -/
theorem isTree_of_innerGraph? {path : List ChainId} {c : ChainId} (hRules : rs.HasRules c)
    (hGraph : rs.innerGraph? path c = some g) : g.IsTree := by
  obtain ⟨rules, stops, hRead, hStops, rfl⟩ := innerGraph?_eq_some hGraph
  obtain ⟨chain, hChain, hSome⟩ := hRules
  obtain ⟨found, hFound, hFirst, -⟩ := rulesOf?_eq_some hRead
  obtain rfl := Option.some.inj (hFound.symm.trans hChain)
  refine Stop.isTree_level fun hNone => hSome ?_
  subst hNone
  cases hStops
  exact hFirst.symm

/-- The outermost level is a tree if a packet comes to any built-in chain. -/
theorem isTree_of_traversal? (hGraph : rs.traversal? origin = some g)
    (hSome : rs.builtinChains origin ≠ []) : g.IsTree := by
  obtain ⟨visits, hVisits, hGraph⟩ := Option.bind_eq_some_iff.1 hGraph
  cases hGraph
  have hSame := (mapM_eq_some_iff.1 hVisits).length_eq
  refine Visit.isTree_level fun hNone => hSome ?_
  rwa [hNone, List.length_nil, List.length_eq_zero_iff] at hSame

/-- A level inside a vertex is that of a chain which has rules. -/
theorem Consistent.exists_innerGraph?_of_levelAt? (h : rs.Consistent)
    (hGraph : rs.traversal? origin = some g) {place : List Nat} (hPlace : place ≠ [])
    (hAt : g.levelAt? place = some inner) :
    ∃ c path, rs.HasRules c ∧ rs.innerGraph? (c :: path) c = some inner := by
  have hOuter : rs.level? origin [] = some g := hGraph
  obtain ⟨way, hOpens, hLevel, rfl⟩ := h.exists_way_of_levelAt? hOuter hAt
  obtain ⟨c, rest, hPath, hExpands⟩ :=
    hOpens.exists_path_eq_cons fun hNil => hPlace (by rw [hNil]; rfl)
  rw [hPath] at hLevel
  exact ⟨c, rest, (expands_iff.1 hExpands).1, hLevel⟩

/-- Every level of the graph is a tree that grows from its first vertex, however the chains of the
ruleset call each other. Only the outermost level can be empty, which it is if a packet comes to no
built-in chain. -/
theorem isTree_of_levelAt? (hBuilt : rs.Built) (hTargets : rs.TargetsExist) (origin : Origin) :
    ∃ g, rs.traversal? origin = some g ∧
      (g.IsTree ∨ (g = Graph.empty ∧ rs.builtinChains origin = [])) ∧
      ∀ place inner, place ≠ [] → g.levelAt? place = some inner → inner.IsTree := by
  have h := hBuilt.consistent
  obtain ⟨g, hGraph⟩ := h.exists_traversal? hTargets origin
  refine ⟨g, hGraph, ?_, fun place inner hPlace hAt => ?_⟩
  · by_cases hNone : rs.builtinChains origin = []
    · right
      rw [traversal?, hNone] at hGraph
      cases hGraph
      exact ⟨rfl, hNone⟩
    · exact Or.inl (isTree_of_traversal? hGraph hNone)
  · obtain ⟨c, path, hRules, hInner⟩ := h.exists_innerGraph?_of_levelAt? hGraph hPlace hAt
    exact isTree_of_innerGraph? hRules hInner

/-- Two input chains that a packet comes to one after the other. The first calls itself, the second
hands packets on to an extension and to a chain that has no rules. -/
def relay : Ruleset :=
  build [.openTable "mangle", .declareChain ⟨0⟩ "INPUT" "ACCEPT", .openTable "filter",
    .declareChain ⟨1⟩ "INPUT" "DROP", .declareChain ⟨1⟩ "idle" "-", .addExtension "LOG",
    .appendRule ⟨0⟩ { RuleBody.empty with jump := some ⟨0⟩ }, .appendRule ⟨0⟩ RuleBody.empty,
    .appendRule ⟨1⟩ { RuleBody.empty with jump := some ⟨3⟩, goto := some ⟨2⟩ }]

theorem isTree_of_levelAt?_relay :
    relay.TargetsExist ∧ ∃ g, relay.traversal? .outside = some g ∧
      (g.IsTree ∨ (g = Graph.empty ∧ relay.builtinChains .outside = [])) ∧
      ∀ place inner, place ≠ [] → g.levelAt? place = some inner → inner.IsTree :=
  have hTargets : relay.TargetsExist := by decide +kernel
  ⟨hTargets, isTree_of_levelAt? ⟨_, rfl⟩ hTargets .outside⟩

end Ruleset

end PacketFlow
