import PacketFlow.Flow.Document
import PacketFlow.Proofs.Flow.Place
import PacketFlow.Proofs.Json.Writing

/-!
A graph is told from its document. Everything that a vertex or an edge holds stands in the document
under a name of its own, and the class of a vertex says what it holds, so documents are the same only
for the same origin, the same labels and the same graph, level by level.
-/
namespace PacketFlow

theorem Origin.name_injective : Function.Injective Origin.name := by
  intro origin origin' hSame
  cases origin <;> cases origin' <;> simp [name] at hSame ⊢

theorem Transfer.name_injective : Function.Injective Transfer.name := by
  intro transfer transfer' hSame
  cases transfer <;> cases transfer' <;> simp [name] at hSame ⊢

theorem EdgeKind.name_injective : Function.Injective EdgeKind.name := by
  have hNext (transfer : Transfer) : "next" ≠ transfer.name := by cases transfer <;> decide
  have hRules (transfer : Transfer) : "rules" ≠ transfer.name := by cases transfer <;> decide
  intro kind kind' hSame
  cases kind with
  | next =>
      cases kind' with
      | next => rfl
      | rules => exact absurd hSame (by decide)
      | transfer transfer => exact absurd hSame (hNext transfer)
  | rules =>
      cases kind' with
      | next => exact absurd hSame (by decide)
      | rules => rfl
      | transfer transfer => exact absurd hSame (hRules transfer)
  | transfer transfer =>
      cases kind' with
      | next => exact absurd hSame.symm (hNext transfer)
      | rules => exact absurd hSame.symm (hRules transfer)
      | transfer transfer' => rw [Transfer.name_injective hSame]

theorem Edge.json_injective : Function.Injective Edge.json := by
  intro e e' hSame
  obtain ⟨source, target, kind⟩ := e
  obtain ⟨source', target', kind'⟩ := e'
  simp only [json, Json.object.injEq, List.cons.injEq, Prod.mk.injEq, Json.number.injEq,
    Json.text.injEq, true_and, and_true] at hSame
  obtain ⟨rfl, rfl, hKind⟩ := hSame
  rw [EdgeKind.name_injective hKind]

theorem Vertex.jsonList_eq_map (vs : List Vertex) : Vertex.jsonList vs = vs.map Vertex.json := by
  induction vs with
  | nil => simp [jsonList]
  | cons v vs ih => rw [jsonList, List.map_cons, ih]

/-- Lists whose elements are told by what is made of them are told by what is made of them all. -/
theorem map_inj_of_mem {α β : Type} {f : α → β} {xs ys : List α}
    (hTold : ∀ x ∈ xs, ∀ y, f x = f y → x = y) (hSame : xs.map f = ys.map f) : xs = ys := by
  induction xs generalizing ys with
  | nil => exact (List.map_eq_nil_iff.1 hSame.symm).symm
  | cons x xs ih =>
      obtain ⟨hHead, hTail⟩ := List.forall_mem_cons.1 hTold
      obtain ⟨y, ys, rfl, hFirst, hRest⟩ := List.map_eq_cons_iff.1 hSame.symm
      rw [hHead y hFirst.symm, ih hTail hRest.symm]

/-- A level is told from its object if its vertices are told from theirs. -/
theorem Graph.eq_of_json_eq {g g' : Graph} (hTold : ∀ v ∈ g.vertices, ∀ w, v.json = w.json → v = w)
    (hSame : g.json = g'.json) : g = g' := by
  obtain ⟨vertices, edges⟩ := g
  obtain ⟨vertices', edges'⟩ := g'
  simp only [json, Vertex.jsonList_eq_map, Json.object.injEq, List.cons.injEq, Prod.mk.injEq,
    Json.list.injEq, true_and, and_true] at hSame
  obtain ⟨hVertices, hEdges⟩ := hSame
  obtain rfl := map_inj_of_mem hTold hVertices
  obtain rfl := Edge.json_injective.list_map hEdges
  rfl

/-- The class of a vertex is read off its object. -/
theorem Vertex.kind_eq_of_json_eq {v w : Vertex} (hSame : v.json = w.json) : v.kind = w.kind := by
  cases v <;> cases w <;> simp [json, kind, VertexClass.name] at hSame ⊢

theorem Vertex.json_injective : Function.Injective Vertex.json := by
  have hChain {c c' : ChainId} (hIndex : c.index = c'.index) : c = c' := congrArg ChainId.mk hIndex
  have hRule {r r' : RuleId} (hIndex : r.index = r'.index) : r = r' := congrArg RuleId.mk hIndex
  intro v
  induction v using Vertex.induction with
  | chain name c isExtension truncated =>
      intro w hSame
      have hKind := kind_eq_of_json_eq hSame
      cases w with
      | chain name' c' isExtension' truncated' =>
          simp only [json, Json.object.injEq, List.cons.injEq, Prod.mk.injEq, Json.text.injEq,
            Json.number.injEq, Json.truth.injEq, true_and, and_true] at hSame
          obtain ⟨rfl, hIndex, rfl, rfl⟩ := hSame
          rw [hChain hIndex]
      | _ => cases hKind
  | rule name r =>
      intro w hSame
      have hKind := kind_eq_of_json_eq hSame
      cases w with
      | rule name' r' =>
          simp only [json, Json.object.injEq, List.cons.injEq, Prod.mk.injEq, Json.text.injEq,
            Json.number.injEq, true_and, and_true] at hSame
          obtain ⟨rfl, hIndex⟩ := hSame
          rw [hRule hIndex]
      | _ => cases hKind
  | rules name c inner ih =>
      intro w hSame
      have hKind := kind_eq_of_json_eq hSame
      cases w with
      | rules name' c' inner' =>
          simp only [json, Json.object.injEq, List.cons.injEq, Prod.mk.injEq, Json.text.injEq,
            Json.number.injEq, true_and, and_true] at hSame
          obtain ⟨rfl, hIndex, hInner⟩ := hSame
          rw [hChain hIndex, Graph.eq_of_json_eq (fun v hMem w hVertex => ih v hMem hVertex) hInner]
      | _ => cases hKind

theorem Graph.json_injective : Function.Injective Graph.json :=
  fun _ _ hSame => eq_of_json_eq (fun _ _ _ hVertex => Vertex.json_injective hVertex) hSame

/-- A document tells all of what it is made of: the origin, the labels of the built-in chains, and
the graph with all that its vertices and edges hold on every level. -/
theorem Graph.pretty_document_eq_iff {origin origin' : Origin} {labels labels' : List String}
    {g g' : Graph} : (g.document origin labels).pretty = (g'.document origin' labels').pretty ↔
      origin = origin' ∧ labels = labels' ∧ g = g' := by
  constructor
  · intro hSame
    have hDocument := Json.pretty_injective hSame
    simp only [document, Json.object.injEq, List.cons.injEq, Prod.mk.injEq, Json.text.injEq,
      Json.list.injEq, true_and, and_true] at hDocument
    obtain ⟨hOrigin, hLabels, hGraph⟩ := hDocument
    have hText : Function.Injective Json.text := fun _ _ hText => Json.text.inj hText
    exact ⟨Origin.name_injective hOrigin, hText.list_map hLabels, json_injective hGraph⟩
  · rintro ⟨rfl, rfl, rfl⟩
    rfl

end PacketFlow
