import Mathlib.Data.List.Nodup
import PacketFlow.Proofs.Flow.Place

/-!
All vertices of a graph in a list. Each vertex stands there once, under its place, in front of the
vertices inside it. So the list has as many entries as the graph has vertices.
-/
namespace PacketFlow

mutual

/-- A vertex and all vertices inside it, by the places that they have from there. -/
def Vertex.inventory : Vertex → List (List Nat × Vertex)
  | .chain name c isExtension truncated => [([], .chain name c isExtension truncated)]
  | .rule name r => [([], .rule name r)]
  | .rules name c inner => ([], .rules name c inner) :: Graph.inventory inner

/-- The vertices of all levels of a graph, by their places. -/
def Graph.inventory : Graph → List (List Nat × Vertex)
  | ⟨vertices, _⟩ => Vertex.inventoryFrom 0 vertices

/-- The vertices of a list, the first of them at `position`, and all vertices inside them. -/
def Vertex.inventoryFrom : (position : Nat) → List Vertex → List (List Nat × Vertex)
  | _, [] => []
  | position, v :: rest =>
    v.inventory.map (fun entry => (position :: entry.1, entry.2)) ++
      Vertex.inventoryFrom (position + 1) rest

end

variable {place : List Nat} {v w : Vertex}

theorem Vertex.mem_inventoryFrom_iff {vs : List Vertex} {start : Nat} :
    (place, w) ∈ Vertex.inventoryFrom start vs ↔ ∃ i v rest, vs[i]? = some v ∧
      place = (start + i) :: rest ∧ (rest, w) ∈ v.inventory := by
  induction vs generalizing start with
  | nil => simp [inventoryFrom]
  | cons first others ih =>
      rw [inventoryFrom, List.mem_append, List.mem_map, ih]
      constructor
      · rintro (⟨⟨rest, found⟩, hMem, hEntry⟩ | ⟨i, v, rest, hAt, hPlace, hMem⟩)
        · obtain ⟨rfl, rfl⟩ := Prod.mk.inj hEntry
          exact ⟨0, first, rest, rfl, rfl, hMem⟩
        · exact ⟨i + 1, v, rest, hAt, by rw [hPlace, Nat.add_assoc, Nat.add_comm 1], hMem⟩
      · rintro ⟨i, v, rest, hAt, rfl, hMem⟩
        cases i with
        | zero =>
            obtain rfl := Option.some.inj hAt
            exact .inl ⟨(rest, w), hMem, rfl⟩
        | succ i => exact .inr ⟨i, v, rest, hAt, by rw [Nat.add_assoc, Nat.add_comm 1], hMem⟩

theorem Graph.mem_inventory_iff_of_vertices {g : Graph} :
    (place, w) ∈ g.inventory ↔
      ∃ i v rest, g.vertex? i = some v ∧ place = i :: rest ∧ (rest, w) ∈ v.inventory := by
  obtain ⟨vertices, edges⟩ := g
  simp [inventory, Vertex.mem_inventoryFrom_iff, vertex?]

theorem Graph.at?_cons_eq_some_iff {g : Graph} {position : Nat} {rest : List Nat} :
    g.at? (position :: rest) = some w ↔ ∃ v, g.vertex? position = some v ∧
      (rest = [] ∧ w = v ∨ ∃ inner, v.inner? = some inner ∧ inner.at? rest = some w) := by
  cases rest with
  | nil => simp [at?, eq_comm (a := w)]
  | cons next rest => simp [at?, Option.bind_eq_some_iff]

/-- The inventory of a vertex has the vertex itself and what is at the places inside it. -/
def Vertex.Listed (v : Vertex) : Prop :=
  ∀ place w, (place, w) ∈ v.inventory ↔
    place = [] ∧ w = v ∨ ∃ inner, v.inner? = some inner ∧ inner.at? place = some w

theorem Graph.mem_inventory_iff_of_listed {g : Graph} (hListed : ∀ v ∈ g.vertices, v.Listed) :
    (place, w) ∈ g.inventory ↔ g.at? place = some w := by
  rw [mem_inventory_iff_of_vertices]
  constructor
  · rintro ⟨i, v, rest, hAt, rfl, hMem⟩
    rw [at?_cons_eq_some_iff]
    exact ⟨v, hAt, (hListed v (List.mem_of_getElem? hAt) rest w).1 hMem⟩
  · intro hAt
    cases place with
    | nil => cases hAt
    | cons position rest =>
        obtain ⟨v, hVertex, hFound⟩ := at?_cons_eq_some_iff.1 hAt
        exact ⟨position, v, rest, hVertex, rfl,
          (hListed v (List.mem_of_getElem? hVertex) rest w).2 hFound⟩

theorem Vertex.listed (v : Vertex) : v.Listed := by
  induction v using Vertex.induction with
  | chain name c isExtension truncated =>
      intro place w
      simp [inventory, inner?]
  | rule name r =>
      intro place w
      simp [inventory, inner?]
  | rules name c inner hInner =>
      intro place w
      rw [inventory, List.mem_cons, Prod.mk.injEq, Graph.mem_inventory_iff_of_listed hInner]
      simp [inner?]

/-- The vertices in the inventory of a graph are the vertices at its places. -/
theorem Graph.mem_inventory_iff {g : Graph} : (place, w) ∈ g.inventory ↔ g.at? place = some w :=
  mem_inventory_iff_of_listed fun v _ => v.listed

theorem Graph.size_eq_length_inventory_of {g : Graph}
    (hSize : ∀ v ∈ g.vertices, v.inventory.length = v.size) : g.inventory.length = g.size := by
  have hList (vs : List Vertex) (hSize : ∀ v ∈ vs, v.inventory.length = v.size) (start : Nat) :
      (Vertex.inventoryFrom start vs).length = Vertex.listSize vs := by
    induction vs generalizing start with
    | nil => rfl
    | cons v others ih =>
        rw [List.forall_mem_cons] at hSize
        rw [Vertex.inventoryFrom, List.length_append, List.length_map, hSize.1, ih hSize.2,
          Vertex.listSize]
  obtain ⟨vertices, edges⟩ := g
  exact hList vertices hSize 0

theorem Vertex.length_inventory (v : Vertex) : v.inventory.length = v.size := by
  induction v using Vertex.induction with
  | chain => rfl
  | rule => rfl
  | rules name c inner hInner =>
      rw [inventory, List.length_cons, Graph.size_eq_length_inventory_of hInner, size, Nat.add_comm]

/-- A graph has as many vertices as its inventory has entries. -/
theorem Graph.length_inventory (g : Graph) : g.inventory.length = g.size :=
  size_eq_length_inventory_of fun v _ => v.length_inventory

theorem Graph.places_nodup_of {g : Graph}
    (hNodup : ∀ v ∈ g.vertices, (v.inventory.map Prod.fst).Nodup) :
    (g.inventory.map Prod.fst).Nodup := by
  have hList (vs : List Vertex) (hNodup : ∀ v ∈ vs, (v.inventory.map Prod.fst).Nodup) (start : Nat) :
      ((Vertex.inventoryFrom start vs).map Prod.fst).Nodup := by
    induction vs generalizing start with
    | nil => exact List.nodup_nil
    | cons v others ih =>
        rw [List.forall_mem_cons] at hNodup
        rw [Vertex.inventoryFrom, List.map_append, List.nodup_append]
        refine ⟨?_, ih hNodup.2 (start + 1), ?_⟩
        · have hPlaces : (v.inventory.map fun entry => (start :: entry.1, entry.2)).map Prod.fst =
              (v.inventory.map Prod.fst).map (start :: ·) := by
            rw [List.map_map, List.map_map]
            rfl
          rw [hPlaces]
          exact hNodup.1.map List.cons_injective
        · -- The places of later vertices begin with later positions.
          intro first hFirst second hSecond hSame
          simp only [List.map_map, List.mem_map] at hFirst hSecond
          obtain ⟨entry, -, rfl⟩ := hFirst
          obtain ⟨⟨place, w⟩, hMem, rfl⟩ := hSecond
          obtain ⟨i, _, rest, -, hPlace, -⟩ := Vertex.mem_inventoryFrom_iff.1 hMem
          have hStart : start = start + 1 + i := (List.cons.inj (hSame.trans hPlace)).1
          omega
  obtain ⟨vertices, edges⟩ := g
  exact hList vertices hNodup 0

theorem Vertex.places_nodup (v : Vertex) : (v.inventory.map Prod.fst).Nodup := by
  induction v using Vertex.induction with
  | chain => exact List.nodup_singleton _
  | rule => exact List.nodup_singleton _
  | rules name c inner hInner =>
      rw [inventory, List.map_cons, List.nodup_cons]
      refine ⟨fun hMem => ?_, Graph.places_nodup_of hInner⟩
      obtain ⟨⟨place, w⟩, hEntry, hPlace⟩ := List.mem_map.1 hMem
      obtain rfl : place = [] := hPlace
      have hAt := Graph.mem_inventory_iff.1 hEntry
      cases hAt

/-- No place stands twice in the inventory of a graph. -/
theorem Graph.places_nodup (g : Graph) : (g.inventory.map Prod.fst).Nodup :=
  places_nodup_of fun v _ => v.places_nodup

end PacketFlow
