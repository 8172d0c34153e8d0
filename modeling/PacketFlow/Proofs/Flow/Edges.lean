import PacketFlow.Flow.Traversal

/-!
Where the edges of a level end. Positions are counted on while a level is put together, and no edge
is added before the vertices at both its ends have their positions, so that no edge of a finished
level ends beside its vertices.
-/
namespace PacketFlow

/-- Both ends of an edge are below a position. -/
def Edge.Below (e : Edge) (bound : Nat) : Prop :=
  e.source < bound ∧ e.target < bound

theorem Edge.Below.mono {e : Edge} {bound bound' : Nat} (hBelow : e.Below bound)
    (hLe : bound ≤ bound') : e.Below bound' :=
  ⟨Nat.lt_of_lt_of_le hBelow.1 hLe, Nat.lt_of_lt_of_le hBelow.2 hLe⟩

/-- All edges of a level join vertices of the level. -/
def Level.EdgesWithin {V : Type} (g : Level V) : Prop :=
  ∀ e ∈ g.edges, e.Below g.vertices.length

namespace Visit

theorem length_vertices (v : Visit) : v.vertices.length = v.body.toList.length + 1 := by
  rw [vertices, List.length_cons]

theorem length_filterMap_body (visit : Visit) (rest : List Visit) :
    ((visit :: rest).filterMap body).length =
      visit.body.toList.length + (rest.filterMap body).length := by
  cases hBody : visit.body with
  | none => simp [List.filterMap_cons_none hBody]
  | some v => simp [List.filterMap_cons_some hBody, Nat.add_comm]

theorem below_of_mem_edges {v : Visit} {position : Nat} {e : Edge} (hMem : e ∈ v.edges position) :
    e.Below (position + v.vertices.length) := by
  rw [edges, List.mem_map] at hMem
  obtain ⟨body, hBody, rfl⟩ := hMem
  have hSome : 0 < v.body.toList.length := List.length_pos_of_mem hBody
  rw [length_vertices]
  constructor
  · change position < _
    omega
  · change position + 1 < _
    omega

/-- The edges between visits stay among the chains, which stand in front of `body`, and the rules of
the visits that have any. -/
theorem below_of_mem_levelEdges {visits : List Visit} {head body : Nat} {e : Edge}
    (hMem : e ∈ levelEdges head body visits) (hHeads : head + visits.length ≤ body) :
    e.Below (body + (visits.filterMap Visit.body).length) := by
  induction visits generalizing head body with
  | nil => cases hMem
  | cons visit rest ih =>
      have hCount := length_filterMap_body visit rest
      rw [List.length_cons] at hHeads
      rw [levelEdges, List.mem_append, List.mem_append] at hMem
      rcases hMem with (hInto | hOnward) | hRest
      · obtain ⟨v, hBody, rfl⟩ := List.mem_map.1 hInto
        have hSome : 0 < visit.body.toList.length := List.length_pos_of_mem hBody
        constructor
        · change head < _
          omega
        · change body < _
          omega
      · cases rest with
        | nil => cases hOnward
        | cons next rest =>
            obtain rfl := List.mem_singleton.1 hOnward
            rw [List.length_cons] at hHeads
            constructor
            · cases hBody : visit.body with
              | none =>
                  change head < _
                  omega
              | some v =>
                  change body < _
                  rw [hCount, hBody, Option.toList_some, List.length_singleton]
                  omega
            · change head + 1 < _
              omega
      · refine (ih hRest ?_).mono ?_
        · omega
        · omega

theorem edgesWithin_level (visits : List Visit) : (level visits).EdgesWithin := by
  intro e hMem
  have hBelow := below_of_mem_levelEdges hMem (by omega)
  rwa [level, List.length_append, List.length_map]

end Visit

namespace Stop

/-- The edges of a rule stay among the rule and the visits to its targets. -/
theorem below_of_mem_transferEdges {visits : List (Transfer × Visit)} {rule position : Nat}
    {e : Edge} (hMem : e ∈ transferEdges rule position visits) (hRule : rule < position) :
    e.Below (position + (visits.flatMap fun (_, visit) => visit.vertices).length) := by
  induction visits generalizing position with
  | nil => cases hMem
  | cons first rest ih =>
      obtain ⟨transfer, visit⟩ := first
      have hLength := visit.length_vertices
      rw [transferEdges, List.cons_append, List.mem_cons, List.mem_append] at hMem
      simp only [List.flatMap_cons, List.length_append, ← Nat.add_assoc]
      rcases hMem with rfl | hVisit | hRest
      · constructor
        · change rule < _
          omega
        · change position < _
          omega
      · exact (Visit.below_of_mem_edges hVisit).mono (Nat.le_add_right ..)
      · exact ih hRest (by omega)

theorem below_of_mem_edges {stop : Stop} {position : Nat} {e : Edge}
    (hMem : e ∈ stop.edges position) : e.Below (position + stop.vertices.length) := by
  refine (below_of_mem_transferEdges hMem (Nat.lt_succ_self position)).mono ?_
  simp only [vertices, List.length_cons]
  omega

/-- The edges of stops stay among their vertices and the rule before the first of them. -/
theorem below_of_mem_levelEdges {stops : List Stop} {previous : Option Nat} {position : Nat}
    {e : Edge} (hMem : e ∈ levelEdges previous position stops)
    (hPrevious : ∀ rule ∈ previous, rule < position) :
    e.Below (position + (stops.flatMap vertices).length) := by
  induction stops generalizing previous position with
  | nil => cases hMem
  | cons stop rest ih =>
      have hLength : 0 < stop.vertices.length := Nat.succ_pos _
      rw [levelEdges, List.mem_append, List.mem_append] at hMem
      rw [List.flatMap_cons, List.length_append, ← Nat.add_assoc]
      rcases hMem with (hNext | hStop) | hRest
      · obtain ⟨rule, hRule, rfl⟩ := List.mem_map.1 hNext
        have hBefore := hPrevious rule (Option.mem_toList.1 hRule)
        constructor
        · change rule < _
          omega
        · change position < _
          omega
      · exact (below_of_mem_edges hStop).mono (Nat.le_add_right ..)
      · refine ih hRest fun rule hRule => ?_
        obtain rfl := Option.some.inj hRule
        omega

theorem edgesWithin_level (stops : List Stop) : (level stops).EdgesWithin := by
  intro e hMem
  have hBelow := below_of_mem_levelEdges hMem (by intro rule hRule; cases hRule)
  rwa [Nat.zero_add] at hBelow

end Stop

end PacketFlow
