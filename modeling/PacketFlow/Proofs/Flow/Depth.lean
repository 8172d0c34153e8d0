import Mathlib.Data.List.Perm.Subperm
import PacketFlow.Proofs.Flow.CallPath

/-!
How deep the levels of a graph lie. Chains may call each other in any way, but while the rules of a
chain are shown they are not shown again within themselves. So the showing never goes on inwards for
ever, and no more levels lie inside one another than there are chains with rules to show.
-/
namespace PacketFlow

mutual

/-- How many vertices that hold rules lie inside one another at a vertex, itself counted. -/
def Vertex.depth : Vertex → Nat
  | .chain .. => 0
  | .rule .. => 0
  | .rules _ _ inner => Graph.depth inner + 1

/-- How many vertices that hold rules lie inside one another in a graph, at most. -/
def Graph.depth : Graph → Nat
  | ⟨vertices, _⟩ => Vertex.listDepth vertices

/-- The greatest depth of the vertices in a list. -/
def Vertex.listDepth : List Vertex → Nat
  | [] => 0
  | v :: vs => max v.depth (Vertex.listDepth vs)

end

theorem Vertex.exists_depth_eq {vs : List Vertex} (hDeep : 0 < listDepth vs) :
    ∃ v ∈ vs, v.depth = listDepth vs := by
  induction vs with
  | nil => simp [listDepth] at hDeep
  | cons v vs ih =>
      rw [listDepth] at hDeep ⊢
      rcases Nat.le_total (listDepth vs) v.depth with hLe | hLe
      · exact ⟨v, List.mem_cons_self .., (Nat.max_eq_left hLe).symm⟩
      · rw [Nat.max_eq_right hLe] at hDeep ⊢
        obtain ⟨w, hMem, hDepth⟩ := ih hDeep
        exact ⟨w, List.mem_cons_of_mem _ hMem, hDepth⟩

namespace Graph

variable {g inner : Graph}

theorem rulesAt?_cons {position : Nat} {name : String} {c : ChainId} {place : List Nat}
    (hVertex : g.vertex? position = some (.rules name c inner)) (hPlace : place ≠ []) :
    g.rulesAt? (position :: place) = inner.rulesAt? place := by
  obtain ⟨next, rest, rfl⟩ := List.exists_cons_of_ne_nil hPlace
  have hInside : g.at? (position :: next :: rest) = inner.at? (next :: rest) := by
    rw [at?, hVertex]
    rfl
  rw [rulesAt?, rulesAt?, hInside]

theorem exists_inner_of_depth {below : Nat} (hDepth : g.depth = below + 1) :
    ∃ position name c inner, g.vertex? position = some (.rules name c inner) ∧
      depth inner = below := by
  obtain ⟨vertices, edges⟩ := g
  rw [depth] at hDepth
  have hDeep : 0 < Vertex.listDepth vertices := hDepth.symm ▸ Nat.succ_pos below
  obtain ⟨v, hMem, hDeepest⟩ := Vertex.exists_depth_eq hDeep
  obtain ⟨position, hVertex⟩ := List.mem_iff_getElem?.1 hMem
  rw [hDepth] at hDeepest
  cases v with
  | chain => simp [Vertex.depth] at hDeepest
  | rule => simp [Vertex.depth] at hDeepest
  | rules name c inner =>
      rw [Vertex.depth] at hDeepest
      exact ⟨position, name, c, inner, hVertex, Nat.succ.inj hDeepest⟩

/-- Some place reaches down to the depth of the graph. -/
theorem exists_rulesAt?_of_depth {below : Nat} (hDepth : g.depth = below + 1) :
    ∃ place c, g.rulesAt? place = some c ∧ place.length = below + 1 := by
  induction below generalizing g with
  | zero =>
      obtain ⟨position, name, c, inner, hVertex, -⟩ := exists_inner_of_depth hDepth
      exact ⟨[position], c, rulesAt?_eq_some_iff.2 ⟨name, inner, hVertex⟩, rfl⟩
  | succ below ih =>
      obtain ⟨position, name, c, inner, hVertex, hInner⟩ := exists_inner_of_depth hDepth
      obtain ⟨place, d, hRules, hLength⟩ := ih hInner
      have hPlace : place ≠ [] := List.ne_nil_of_length_pos (hLength ▸ Nat.succ_pos below)
      exact ⟨position :: place, d, by rwa [rulesAt?_cons hVertex hPlace],
        by rw [List.length_cons, hLength]⟩

/-- A graph is no deeper than all its places at which rules are shown. -/
theorem depth_le {bound : Nat}
    (hPlaces : ∀ place c, g.rulesAt? place = some c → place.length ≤ bound) : g.depth ≤ bound := by
  cases hDepth : g.depth with
  | zero => exact Nat.zero_le bound
  | succ below =>
      obtain ⟨place, c, hRules, hLength⟩ := exists_rulesAt?_of_depth hDepth
      exact hLength ▸ hPlaces place c hRules

end Graph

namespace Ruleset

variable {rs : Ruleset} {origin : Origin}

/-- While a packet comes to a chain with the chains on a path being shown around it, it comes to the
chains that the rules of that chain call, with the chain on the path as well. -/
inductive Nests (rs : Ruleset) : List ChainId × ChainId → List ChainId × ChainId → Prop
  | call {path : List ChainId} {c : ChainId} {call : Call} (hExpands : rs.Expands path c)
      (hCall : rs.Calls c call) : rs.Nests (c :: path, call.target) (path, c)

/-- Coming to chains within chains ends, from every chain and every path. -/
theorem wellFounded_nests (rs : Ruleset) : WellFounded rs.Nests := by
  refine Subrelation.wf ?_ (measure fun visit => rs.offPath visit.1).wf
  intro inner outer hNests
  cases hNests with
  | call hExpands hCall =>
      obtain ⟨chain, hChain, -, hPath, -⟩ := hExpands
      exact offPath_cons_lt hChain hPath

theorem countP_eq_length_filter_range {α : Type} (xs : List α) (wanted : α → Bool) :
    xs.countP wanted = ((List.range xs.length).filter fun i => xs[i]?.any wanted).length := by
  rw [← List.countP_eq_length_filter]
  induction xs with
  | nil => rfl
  | cons x xs ih =>
      simp [List.range_succ_eq_map, List.countP_cons, List.countP_map, Function.comp_def, ih]

/-- Distinct chains of one sort are no more than all chains of that sort. -/
theorem length_le_countP {cs : List ChainId} {wanted : Chain → Bool} (hNodup : cs.Nodup)
    (hAll : ∀ c ∈ cs, (rs.chain? c).any wanted) : cs.length ≤ rs.chains.countP wanted := by
  have hIndices : (cs.map ChainId.index).Nodup := by
    refine hNodup.map ?_
    rintro ⟨i⟩ ⟨j⟩ rfl
    rfl
  have hWithin : cs.map ChainId.index ⊆
      (List.range rs.chains.toList.length).filter fun i => rs.chains.toList[i]?.any wanted := by
    rw [List.subset_def, List.forall_mem_map]
    intro c hMem
    have hWanted := hAll c hMem
    obtain ⟨chain, hChain, -⟩ := (Option.any_eq_true ..).1 hWanted
    rw [List.mem_filter, List.mem_range, Array.getElem?_toList]
    exact ⟨lt_of_chain?_eq_some hChain, hWanted⟩
  calc
    cs.length = (cs.map ChainId.index).length := (List.length_map ..).symm
    _ ≤ _ := (hIndices.subperm hWithin).length_le
    _ = rs.chains.toList.countP wanted := (countP_eq_length_filter_range ..).symm
    _ = rs.chains.countP wanted := Array.countP_toList

/-- A place lies no deeper than there are chains of tables that have rules. -/
theorem CallPath.length_place_le (h : rs.Consistent) (p : rs.CallPath origin) :
    p.place.length ≤
      rs.chains.countP fun chain => !chain.isExtension && !chain.rules.isEmpty := by
  have hLength : p.place.length = (p.start :: p.calls.map Call.target).length := by
    rw [p.length_place, List.length_cons, List.length_map]
  have hTable : ∀ c ∈ p.start :: p.calls.map Call.target, ¬rs.IsExtension c := by
    rw [List.forall_mem_cons, List.forall_mem_map]
    exact ⟨h.not_isExtension_of_mem_builtinChains p.start_mem, p.not_isExtension⟩
  rw [hLength]
  refine length_le_countP p.nodup fun c hMem => ?_
  obtain ⟨chain, hChain, hRules⟩ := p.hasRules c hMem
  have hOwned := hTable c hMem
  simp_all [IsExtension]

/-- However the chains of the ruleset call each other, a packet does not come to chains within chains
without end, and its ways have a graph. In that graph no more vertices that hold rules lie inside one
another than there are chains of tables that have rules. -/
theorem depth_le_countP (hBuilt : rs.Built) (hTargets : rs.TargetsExist) (origin : Origin) :
    WellFounded rs.Nests ∧ ∃ g, rs.traversal? origin = some g ∧
      g.depth ≤ rs.chains.countP fun chain => !chain.isExtension && !chain.rules.isEmpty := by
  have h := hBuilt.consistent
  obtain ⟨g, hGraph⟩ := h.exists_traversal? hTargets origin
  refine ⟨rs.wellFounded_nests, g, hGraph, Graph.depth_le fun place c hRules => ?_⟩
  obtain ⟨p, rfl⟩ := CallPath.exists_place_eq h hGraph hRules
  exact p.length_place_le h

theorem depth_le_countP_crossing :
    crossing.TargetsExist ∧ WellFounded crossing.Nests ∧
      ∃ g, crossing.traversal? .outside = some g ∧
        g.depth ≤ crossing.chains.countP fun chain => !chain.isExtension && !chain.rules.isEmpty :=
  have hTargets : crossing.TargetsExist := by decide +kernel
  ⟨hTargets, depth_le_countP ⟨_, rfl⟩ hTargets .outside⟩

end Ruleset

end PacketFlow
