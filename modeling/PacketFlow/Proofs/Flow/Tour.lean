import PacketFlow.Flow.Rendering
import PacketFlow.Proofs.Flow.RuleLevel

/-!
The tour of the built-in chains. On the outermost level the chains stand in front and their rules
behind them, but a packet that follows the edges comes to each chain and then to its rules, chain
after chain. Every vertex of the level but the last is left by one edge alone, so there is no other
way to go, and the tour passes every vertex once.
-/
namespace PacketFlow

namespace Graph

/-- From a position on, one edge alone leaves each position that is come to, until no edge does. The
edges are those that are passed. -/
inductive Trail (g : Graph) : (position : Nat) → List Edge → Prop
  | stop {position : Nat} (hNone : g.outgoing position = []) : g.Trail position []
  | step {e : Edge} {rest : List Edge} (hOnly : g.outgoing e.source = [e])
      (hRest : g.Trail e.target rest) : g.Trail e.source (e :: rest)

/-- The edges lead on from a position, each from where the one before it ends. -/
def LeadOn : (position : Nat) → List Edge → Prop
  | _, [] => True
  | position, e :: rest => e.source = position ∧ LeadOn e.target rest

variable {g : Graph} {position : Nat} {steps before : List Edge}

theorem LeadOn.source_mem (hSteps : LeadOn position steps) {e : Edge} (hMem : e ∈ steps) :
    e.source ∈ position :: steps.map Edge.target := by
  induction steps generalizing position with
  | nil => cases hMem
  | cons step steps ih =>
      obtain ⟨rfl, hRest⟩ := hSteps
      rcases List.mem_cons.1 hMem with rfl | hMem
      · exact List.mem_cons_self ..
      · exact List.mem_cons_of_mem _ (ih hRest hMem)

/-- Edges that lead on from position to position, coming to none twice, are a trail if there are no
other edges than these and some that leave other positions. -/
theorem LeadOn.trail (hSteps : LeadOn position steps)
    (hNodup : (position :: steps.map Edge.target).Nodup) (hEdges : g.edges = before ++ steps)
    (hBefore : ∀ e ∈ before, e.source ∉ position :: steps.map Edge.target) :
    g.Trail position steps := by
  induction steps generalizing position before with
  | nil =>
      refine .stop ?_
      rw [outgoing, hEdges, List.append_nil, List.filter_eq_nil_iff]
      intro e hMem hSource
      exact hBefore e hMem (List.mem_singleton.2 (beq_iff_eq.1 hSource))
  | cons e rest ih =>
      obtain ⟨rfl, hRest⟩ := hSteps
      obtain ⟨hNew, hLater⟩ := List.nodup_cons.1 hNodup
      refine .step ?_ (ih hRest hLater (by rw [hEdges, List.append_cons]) ?_)
      · have hNoneBefore : before.filter (fun other => other.source == e.source) = [] := by
          rw [List.filter_eq_nil_iff]
          intro other hMem hSource
          exact hBefore other hMem (beq_iff_eq.1 hSource ▸ List.mem_cons_self ..)
        have hNoneLater : rest.filter (fun other => other.source == e.source) = [] := by
          rw [List.filter_eq_nil_iff]
          intro other hMem hSource
          exact hNew (beq_iff_eq.1 hSource ▸ hRest.source_mem hMem)
        rw [outgoing, hEdges, List.filter_append, hNoneBefore,
          List.filter_cons_of_pos (by simp), hNoneLater, List.nil_append]
      · rw [List.forall_mem_append, List.forall_mem_singleton]
        exact ⟨fun other hMem hLeaves => hBefore other hMem (List.mem_cons_of_mem _ hLeaves), hNew⟩

end Graph

/-- The edges between visits lead on from the first of them. -/
theorem Visit.leadOn_levelEdges (visit : Visit) (rest : List Visit) (head body : Nat) :
    Graph.LeadOn head (levelEdges head body (visit :: rest)) := by
  induction rest generalizing visit head body with
  | nil =>
      rw [levelEdges_singleton]
      cases visit.body with
      | none => trivial
      | some v => exact ⟨rfl, trivial⟩
  | cons next rest ih =>
      cases hBody : visit.body with
      | none =>
          rw [levelEdges_of_body_eq_none hBody]
          exact ⟨rfl, ih next (head + 1) body⟩
      | some v =>
          rw [levelEdges_of_body_eq_some hBody]
          exact ⟨rfl, rfl, ih next (head + 1) (body + 1)⟩

namespace Ruleset

variable {rs : Ruleset} {origin : Origin} {g : Graph}

/-- What a packet passes on the outermost level: each built-in chain, and then its rules if it has
any. -/
def tour (rs : Ruleset) (origin : Origin) : List Entry :=
  (rs.builtinChains origin).flatMap fun c =>
    .chain none c :: if rs.HasRules c then [.rules none c] else []

/-- The kind of the edge by which a packet on its tour comes to what the entry stands for. -/
def arrival (entry : Entry) : EdgeKind :=
  if entry.kind == .rules then .rules else .next

/-- The edges that a packet passes from the first vertex on take it on its tour, past every vertex of
the level once. It enters rules by an edge into them, and comes to all else as to what is next. -/
structure Tours (rs : Ruleset) (origin : Origin) (g : Graph) (steps : List Edge) : Prop where
  trail : g.Trail 0 steps
  once : (0 :: steps.map Edge.target).Perm (List.range g.vertices.length)
  passes : List.Forall₂ (fun entry position => ∃ v, g.vertex? position = some v ∧
    rs.Stands origin [] entry v) (rs.tour origin) (0 :: steps.map Edge.target)
  kinds : ∀ e ∈ steps, e.kind = if (g.vertex? e.target).any (·.kind == .rules) then .rules else .next

/-- Built-in chains expand on the outermost level exactly if they have rules. -/
theorem Consistent.tour_eq (h : rs.Consistent) (origin : Origin) :
    rs.tour origin = (rs.builtinChains origin).flatMap (rs.visitEntries [] none) := by
  rw [tour]
  refine List.flatMap_congr fun c hMem => ?_
  have hSame : rs.Expands [] c ↔ rs.HasRules c := by
    simp [expands_iff, h.not_isExtension_of_mem_builtinChains hMem]
  simp only [visitEntries, hSame]

/-- The edges between visits lead to the entries of the tour behind the first chain. -/
theorem arrives_levelEdges {entries : List Entry} {c : ChainId} {visit : Visit} {cs : List ChainId}
    {visits : List Visit} {head body : Nat} (hVisit : rs.visit? [] c = some visit)
    (hVisits : List.Forall₂ (fun c visit => rs.visit? [] c = some visit) cs visits)
    (hHeads : StandFrom entries head ((c :: cs).map (.chain none)))
    (hBodies : StandFrom entries body
      (((c :: cs).filter fun c => rs.Expands [] c).map (.rules none))) :
    List.Forall₂ (fun entry e => entries[e.target]? = some entry ∧ e.kind = arrival entry)
      ((c :: cs).flatMap (rs.visitEntries [] none)).tail
      (Visit.levelEdges head body (visit :: visits)) := by
  induction hVisits generalizing c visit head body with
  | nil =>
      obtain ⟨label, chain, -, -, -, hBody⟩ := visit?_eq_some hVisit
      rw [Visit.levelEdges_singleton]
      rcases hBody with ⟨hExpands, inner, -, hBody⟩ | ⟨hClosed, hBody⟩
      · rw [List.filter_cons_of_pos (by simpa using hExpands)] at hBodies
        rw [hBody, List.flatMap_singleton, visitEntries, if_pos hExpands]
        exact .cons ⟨hBodies.head, rfl⟩ .nil
      · rw [hBody, List.flatMap_singleton, visitEntries, if_neg hClosed]
        exact .nil
  | @cons next later cs visits hNext hLater ih =>
      obtain ⟨label, chain, -, -, -, hBody⟩ := visit?_eq_some hVisit
      rw [List.flatMap_cons]
      rcases hBody with ⟨hExpands, inner, -, hBody⟩ | ⟨hClosed, hBody⟩
      · rw [List.filter_cons_of_pos (by simpa using hExpands)] at hBodies
        rw [Visit.levelEdges_of_body_eq_some hBody, visitEntries, if_pos hExpands]
        exact .cons ⟨hBodies.head, rfl⟩
          (.cons ⟨hHeads.tail.head, rfl⟩ (ih hNext hHeads.tail hBodies.tail))
      · rw [List.filter_cons_of_neg (by simpa using hClosed)] at hBodies
        rw [Visit.levelEdges_of_body_eq_none hBody, visitEntries, if_neg hClosed]
        exact .cons ⟨hHeads.tail.head, rfl⟩ (ih hNext hHeads.tail hBodies)

/-- A packet goes on its tour if there is any chain to come to. -/
theorem Consistent.tours (h : rs.Consistent) (hGraph : rs.traversal? origin = some g)
    (hSome : rs.builtinChains origin ≠ []) : rs.Tours origin g g.edges := by
  have hLevel : rs.level? origin [] = some g := hGraph
  have hStands := (stands_of_level?_eq_some hLevel).flip
  obtain ⟨visits, hVisits, hGraph⟩ := Option.bind_eq_some_iff.1 hGraph
  cases hGraph
  replace hVisits := mapM_eq_some_iff.1 hVisits
  obtain ⟨c, cs, hBuiltin⟩ := List.exists_cons_of_ne_nil hSome
  have hLength := hVisits.length_eq
  rw [hBuiltin] at hVisits hLength
  cases hVisits with
  | @cons _ visit _ visits hVisit hLater =>
      have hWhole : StandFrom (rs.entries origin []) 0 ((c :: cs).map (.chain none) ++
          ((c :: cs).filter fun c => rs.Expands [] c).map (.rules none)) :=
        ⟨[], by rw [entries, hBuiltin, List.append_nil, List.drop_zero]⟩
      have hBodies := hWhole.right
      rw [List.length_map, hLength, Nat.zero_add] at hBodies
      have hArrives := arrives_levelEdges hVisit hLater hWhole.left hBodies
      have hTargets := Visit.perm_targets_level visit visits
      have hShown {entry : Entry} {position : Nat}
          (hAt : (rs.entries origin [])[position]? = some entry) :
          ∃ v, (Visit.level (visit :: visits)).vertex? position = some v ∧
            rs.Stands origin [] entry v :=
        forall₂_getElem? hStands hAt
      refine ⟨?_, hTargets, ?_, fun e hMem => ?_⟩
      · have hEdges : (Visit.level (visit :: visits)).edges =
            [] ++ Visit.levelEdges 0 (visit :: visits).length (visit :: visits) := rfl
        exact (Visit.leadOn_levelEdges visit visits 0 _).trail
          (hTargets.nodup_iff.2 List.nodup_range) hEdges (List.forall_mem_nil _)
      · rw [h.tour_eq, hBuiltin]
        refine .cons (hShown hWhole.left.head) (List.forall₂_map_right_iff.2 ?_)
        exact hArrives.imp fun entry e hEntry => hShown hEntry.1
      · obtain ⟨i, hAt⟩ := List.mem_iff_getElem?.1 hMem
        obtain ⟨entry, -, hEntry, hKind⟩ := forall₂_getElem? hArrives hAt
        obtain ⟨v, hVertex, hHere⟩ := hShown hEntry
        rw [hKind, hVertex, Option.any_some, hHere.kind_eq, arrival]

/-- The built-in chains stand in front, in the order in which a packet comes to them. -/
theorem Consistent.positionsOf_chain (h : rs.Consistent) (hGraph : rs.traversal? origin = some g) :
    g.positionsOf .chain = List.range (rs.builtinChains origin).length := by
  have hChains : (rs.entries origin []).filter (·.kind == .chain) =
      (rs.builtinChains origin).map (.chain none) := by
    simp [entries, List.filter_map, Function.comp_def, Entry.kind]
  have hLevel : rs.level? origin [] = some g := hGraph
  rw [h.positionsOf_eq hLevel, hChains]
  refine List.ext_getElem (by simp) fun i hLess hLess' => ?_
  rw [List.length_range] at hLess'
  have hAt : (rs.entries origin [])[i]? = some (.chain none (rs.builtinChains origin)[i]) := by
    rw [entries, List.getElem?_append_left (by simpa using hLess')]
    simp
  obtain ⟨hLt, hEntry⟩ := List.getElem?_eq_some_iff.1 hAt
  rw [List.getElem_map, List.getElem_map, List.getElem_range, ← hEntry,
    (h.entries_nodup origin []).idxOf_getElem]

/-- The vertices in front are named by the labels of the built-in chains. -/
theorem builtinLabels?_of_traversal? (hGraph : rs.traversal? origin = some g) :
    rs.builtinLabels? origin =
      some ((g.vertices.take (rs.builtinChains origin).length).map Vertex.name) := by
  obtain ⟨visits, hVisits, hGraph⟩ := Option.bind_eq_some_iff.1 hGraph
  cases hGraph
  replace hVisits := mapM_eq_some_iff.1 hVisits
  rw [Visit.level, hVisits.length_eq, List.take_left' (by simp), List.map_map, builtinLabels?,
    mapM_eq_some_iff, List.forall₂_map_right_iff]
  refine hVisits.imp fun c visit hVisit => ?_
  obtain ⟨label, chain, hLabel, -, hHead, -⟩ := visit?_eq_some hVisit
  rw [hLabel, Function.comp_apply, hHead]
  rfl

/-- Whoever follows the edges of the outermost level from its first vertex passes every vertex once:
each built-in chain and, if it has any, its rules, in the order in which a packet comes to the chains.
The chains have the first positions, and their names are the labels in the document. -/
theorem exists_tours (hBuilt : rs.Built) (hTargets : rs.TargetsExist) (origin : Origin) :
    ∃ g labels, rs.traversal? origin = some g ∧ rs.builtinLabels? origin = some labels ∧
      rs.render? origin .json = some (g.document origin labels).pretty ∧
      (rs.builtinChains origin = [] → g = Graph.empty) ∧
      (rs.builtinChains origin ≠ [] → ∃ steps, rs.Tours origin g steps) ∧
      g.positionsOf .chain = List.range (rs.builtinChains origin).length ∧
      (g.vertices.take (rs.builtinChains origin).length).map Vertex.name = labels := by
  have h := hBuilt.consistent
  obtain ⟨g, hGraph⟩ := h.exists_traversal? hTargets origin
  have hLabels := builtinLabels?_of_traversal? hGraph
  refine ⟨g, _, hGraph, hLabels, by simp [render?, hGraph, hLabels], fun hNone => ?_, fun hSome => ?_,
    h.positionsOf_chain hGraph, rfl⟩
  · rw [traversal?, hNone] at hGraph
    cases hGraph
    rfl
  · exact ⟨_, h.tours hGraph hSome⟩

/-- Three input chains. The first and the last have rules, the one between them has none. -/
def procession : Ruleset :=
  build [.openTable "mangle", .declareChain ⟨0⟩ "INPUT" "ACCEPT", .openTable "nat",
    .declareChain ⟨1⟩ "INPUT" "ACCEPT", .openTable "filter", .declareChain ⟨2⟩ "INPUT" "DROP",
    .appendRule ⟨0⟩ { RuleBody.empty with jump := some ⟨1⟩ },
    .appendRule ⟨2⟩ { RuleBody.empty with goto := some ⟨0⟩ }]

theorem exists_tours_procession :
    procession.TargetsExist ∧ ∃ g labels, procession.traversal? .outside = some g ∧
      procession.builtinLabels? .outside = some labels ∧
      procession.render? .outside .json = some (g.document .outside labels).pretty ∧
      (procession.builtinChains .outside = [] → g = Graph.empty) ∧
      (procession.builtinChains .outside ≠ [] → ∃ steps, procession.Tours .outside g steps) ∧
      g.positionsOf .chain = List.range (procession.builtinChains .outside).length ∧
      (g.vertices.take (procession.builtinChains .outside).length).map Vertex.name = labels :=
  have hTargets : procession.TargetsExist := by decide +kernel
  ⟨hTargets, exists_tours ⟨_, rfl⟩ hTargets .outside⟩

end Ruleset

end PacketFlow
