import PacketFlow.Proofs.Dot.Reading
import PacketFlow.Proofs.Flow.Attributes
import PacketFlow.Proofs.Flow.Drawing
import PacketFlow.Proofs.Flow.Place
import PacketFlow.Proofs.Ruleset.Lookup

/-!
A graph is told from its picture. Level by level the picture tells the names of the vertices, what
they stand for and what is shown of them, and the edges between them. Nothing else of a graph is in
its picture, so two graphs have one picture if and only if they agree on all of that.
-/
namespace PacketFlow

open Dot

section Agreement

variable (rs rs' : Ruleset)

/-- A vertex whose rules exist, on all levels inside it, and whose edges there end at vertices. -/
inductive Vertex.WellFormed : Vertex → Prop
  | chain (name : String) (c : ChainId) (isExtension truncated : Bool) :
      Vertex.WellFormed (.chain name c isExtension truncated)
  | rule (name : String) {r : RuleId} {rule : Rule} (hRule : rs.rule? r = some rule) :
      Vertex.WellFormed (.rule name r)
  | rules (name : String) (c : ChainId) {inner : Graph}
      (hVertices : ∀ v ∈ inner.vertices, Vertex.WellFormed v) (hWithin : inner.EdgesWithin) :
      Vertex.WellFormed (.rules name c inner)

/-- A graph whose rules exist, on all levels, and whose edges end at vertices of their level. -/
structure Graph.WellFormed (g : Graph) : Prop where
  vertices : ∀ v ∈ g.vertices, v.WellFormed rs
  within : g.EdgesWithin

/-- Two vertices of one class and name that agree in what is shown of them: for a chain its two marks,
for a rule its comment, if it has one, and its interfaces, which read `any` where none is asked for,
and for the rules of a chain the graph that they form. -/
inductive Vertex.Agrees : Vertex → Vertex → Prop
  | chain (name : String) (c c' : ChainId) (isExtension truncated : Bool) :
      Vertex.Agrees (.chain name c isExtension truncated) (.chain name c' isExtension truncated)
  | rule (name : String) {r r' : RuleId} {rule rule' : Rule} (hRule : rs.rule? r = some rule)
      (hRule' : rs'.rule? r' = some rule')
      (hIn : shownMatch rule.inInterface = shownMatch rule'.inInterface)
      (hOut : shownMatch rule.outInterface = shownMatch rule'.outInterface)
      (hComment : rule.comment = rule'.comment) :
      Vertex.Agrees (.rule name r) (.rule name r')
  | rules (name : String) (c c' : ChainId) {inner inner' : Graph}
      (hVertices : List.Forall₂ Vertex.Agrees inner.vertices inner'.vertices)
      (hEdges : inner.edges = inner'.edges) :
      Vertex.Agrees (.rules name c inner) (.rules name c' inner')

/-- Two graphs with the same vertices in order, as far as they are shown, and the same edges. -/
structure Graph.Agrees (g g' : Graph) : Prop where
  vertices : List.Forall₂ (Vertex.Agrees rs rs') g.vertices g'.vertices
  edges : g.edges = g'.edges

end Agreement

variable {rs rs' : Ruleset}

section Drawn

/-! What is drawn, statement by statement. -/

variable {place : List Nat} {statement : Statement}

theorem Vertex.draw?_rule_eq_some_iff {name : String} {r : RuleId} :
    (Vertex.rule name r).draw? rs place = some statement ↔ ∃ rule, rs.rule? r = some rule ∧
      statement = .node (nodeName place) (ruleAttributes name rule.toRuleBody) := by
  simp [draw?, Option.bind_eq_some_iff, eq_comm (a := statement)]

theorem Vertex.draw?_rules_eq_some_iff {name : String} {c : ChainId} {inner : Graph} :
    (Vertex.rules name c inner).draw? rs place = some statement ↔
      ∃ body, Graph.draw? rs place inner = some body ∧
        statement = .cluster (clusterName place)
          ([.setting ⟨"label", .ofText name⟩, .setting ⟨"style", .word "dashed"⟩,
            .node (nodeName place) [⟨"shape", .word "point"⟩, ⟨"style", .word "invis"⟩]] ++ body) := by
  simp [draw?, Option.bind_eq_some_iff, eq_comm (a := statement)]

theorem Vertex.drawFrom?_nil_eq_some_iff {position : Nat} {drawn : List Statement} :
    Vertex.drawFrom? rs place position [] = some drawn ↔ drawn = [] := by
  rw [drawFrom?, Option.some.injEq, eq_comm]

theorem Vertex.drawFrom?_cons_eq_some_iff {position : Nat} {v : Vertex} {rest : List Vertex}
    {drawn : List Statement} : Vertex.drawFrom? rs place position (v :: rest) = some drawn ↔
      ∃ first others, v.draw? rs (place ++ [position]) = some first ∧
        Vertex.drawFrom? rs place (position + 1) rest = some others ∧ drawn = first :: others := by
  simp [drawFrom?, Option.bind_eq_some_iff, eq_comm (a := drawn)]

theorem Graph.draw?_eq_some_iff {g : Graph} {drawn : List Statement} :
    g.draw? rs place = some drawn ↔
      ∃ vertices edges, Vertex.drawFrom? rs place 0 g.vertices = some vertices ∧
        List.Forall₂ (fun e statement => drawEdge? place g.vertices e = some statement)
          g.edges edges ∧ drawn = vertices ++ edges := by
  obtain ⟨vs, es⟩ := g
  simp [Graph.draw?, Option.bind_eq_some_iff, mapM_eq_some_iff, eq_comm (a := drawn)]

theorem drawEdge?_eq_some_iff {vertices : List Vertex} {e : Edge} :
    drawEdge? place vertices e = some statement ↔
      ∃ source target, vertices[e.source]? = some source ∧ vertices[e.target]? = some target ∧
        statement = .edge (nodeName (place ++ [e.source])) (nodeName (place ++ [e.target]))
          (borderAttribute "ltail" (place ++ [e.source]) source ++
            borderAttribute "lhead" (place ++ [e.target]) target ++ e.kind.attributes) := by
  simp [drawEdge?, Option.bind_eq_some_iff, eq_comm (a := statement)]

theorem Graph.diagram?_eq_some_iff {g : Graph} {origin : Origin} {d : Diagram} :
    g.diagram? rs origin = some d ↔ ∃ body, g.draw? rs [] = some body ∧
      d = ⟨"flow", [.setting ⟨"compound", .word "true"⟩,
        .setting ⟨"label", .quoted s!"packet origin: {origin.name}"⟩,
        .node "node" [⟨"fontname", .quoted "monospace"⟩]] ++ body⟩ := by
  simp [diagram?, Option.bind_eq_some_iff, eq_comm (a := d)]

end Drawn

section Legible

/-! What is drawn is written as the language has it. -/

theorem allLegible_append {first second : List Statement} (hFirst : Statement.AllLegible first)
    (hSecond : Statement.AllLegible second) : Statement.AllLegible (first ++ second) := by
  induction first with
  | nil => exact hSecond
  | cons s rest ih => exact ⟨hFirst.1, ih hFirst.2⟩

variable {place : List Nat} {drawn : List Statement}

/-- A vertex is drawn as the language has it, and not as an edge. -/
def Vertex.DrawnLegibly (rs : Ruleset) (v : Vertex) : Prop :=
  ∀ place statement, v.draw? rs place = some statement → statement.Legible ∧ statement.form ≠ .edge

theorem legible_of_drawFrom? {vs : List Vertex} (hVertices : ∀ v ∈ vs, v.DrawnLegibly rs)
    {position : Nat} (hDrawn : Vertex.drawFrom? rs place position vs = some drawn) :
    Statement.AllLegible drawn ∧ ∀ s ∈ drawn, s.form ≠ .edge := by
  induction vs generalizing position drawn with
  | nil =>
      rw [Vertex.drawFrom?_nil_eq_some_iff.1 hDrawn]
      exact ⟨trivial, List.forall_mem_nil _⟩
  | cons v rest ih =>
      obtain ⟨first, others, hFirst, hOthers, rfl⟩ := Vertex.drawFrom?_cons_eq_some_iff.1 hDrawn
      rw [List.forall_mem_cons] at hVertices
      obtain ⟨hLegible, hForm⟩ := hVertices.1 _ _ hFirst
      obtain ⟨hRest, hForms⟩ := ih hVertices.2 hOthers
      exact ⟨⟨hLegible, hRest⟩, List.forall_mem_cons.2 ⟨hForm, hForms⟩⟩

theorem legible_of_drawEdge? {vs : List Vertex} {e : Edge} {statement : Statement}
    (hDrawn : drawEdge? place vs e = some statement) :
    statement.Legible ∧ statement.form = .edge := by
  obtain ⟨source, target, -, -, rfl⟩ := drawEdge?_eq_some_iff.1 hDrawn
  refine ⟨⟨isWord_nodeName _, isWord_nodeName _, ?_⟩, rfl⟩
  simp only [List.forall_mem_append]
  exact ⟨⟨legible_borderAttribute (by decide) _ _, legible_borderAttribute (by decide) _ _⟩,
    e.kind.legible_attributes⟩

theorem legible_of_drawEdges {vs : List Vertex} {es : List Edge}
    (hDrawn : List.Forall₂ (fun e statement => drawEdge? place vs e = some statement) es drawn) :
    Statement.AllLegible drawn ∧ ∀ s ∈ drawn, s.form = .edge := by
  induction hDrawn with
  | nil => exact ⟨trivial, List.forall_mem_nil _⟩
  | cons hHead _ ih =>
      obtain ⟨hLegible, hForm⟩ := legible_of_drawEdge? hHead
      exact ⟨⟨hLegible, ih.1⟩, List.forall_mem_cons.2 ⟨hForm, ih.2⟩⟩

theorem Graph.legible_of_draw? {g : Graph} (hVertices : ∀ v ∈ g.vertices, v.DrawnLegibly rs)
    (hDrawn : g.draw? rs place = some drawn) : Statement.AllLegible drawn := by
  obtain ⟨vertices, edges, hFirst, hEdges, rfl⟩ := Graph.draw?_eq_some_iff.1 hDrawn
  exact allLegible_append (legible_of_drawFrom? hVertices hFirst).1 (legible_of_drawEdges hEdges).1

theorem Vertex.drawnLegibly (rs : Ruleset) (v : Vertex) : v.DrawnLegibly rs := by
  induction v using Vertex.induction with
  | chain name c isExtension truncated =>
      intro place statement hDrawn
      rw [draw?, Option.some.injEq] at hDrawn
      subst hDrawn
      refine ⟨⟨isWord_nodeName place, legible_chainAttributes name isExtension truncated⟩, ?_⟩
      intro hForm
      cases hForm
  | rule name r =>
      intro place statement hDrawn
      obtain ⟨rule, -, rfl⟩ := Vertex.draw?_rule_eq_some_iff.1 hDrawn
      refine ⟨⟨isWord_nodeName place, legible_ruleAttributes name rule.toRuleBody⟩, ?_⟩
      intro hForm
      cases hForm
  | rules name c inner hInner =>
      intro place statement hDrawn
      obtain ⟨body, hBody, rfl⟩ := Vertex.draw?_rules_eq_some_iff.1 hDrawn
      refine ⟨⟨isWord_clusterName place, legible_label name, legible_word (by decide),
        ⟨isWord_nodeName place, ?_⟩, Graph.legible_of_draw? hInner hBody⟩, ?_⟩
      · simp only [List.forall_mem_cons]
        exact ⟨legible_word (by decide), legible_word (by decide),
          List.forall_mem_nil _⟩
      · intro hForm
        cases hForm

theorem Graph.legible_of_diagram? {g : Graph} {origin : Origin} {d : Diagram}
    (hDiagram : g.diagram? rs origin = some d) : d.Legible := by
  obtain ⟨body, hBody, rfl⟩ := Graph.diagram?_eq_some_iff.1 hDiagram
  have hLegible := Graph.legible_of_draw? (fun v _ => v.drawnLegibly rs) hBody
  refine ⟨(by decide : IsWord "flow"), legible_word (by decide), legible_attribute (by decide) ?_,
    ⟨by decide, List.forall_mem_singleton.2 (legible_attribute (by decide) ?_)⟩, hLegible⟩
  · cases origin <;> exact sealed_of_all (by decide)
  · exact sealed_of_all (by decide)

end Legible

section Told

/-! What is told by what is drawn. -/

variable {place : List Nat} {drawn : List Statement}

/-- A vertex agrees with all vertices that are drawn like it in its place. -/
def Vertex.Told (rs rs' : Ruleset) (v : Vertex) : Prop :=
  ∀ v' place statement, v.draw? rs place = some statement → v'.draw? rs' place = some statement →
    v.Agrees rs rs' v'

theorem agrees_of_drawFrom? {vs vs' : List Vertex} (hTold : ∀ v ∈ vs, v.Told rs rs')
    {position : Nat} (hDrawn : Vertex.drawFrom? rs place position vs = some drawn)
    (hDrawn' : Vertex.drawFrom? rs' place position vs' = some drawn) :
    List.Forall₂ (Vertex.Agrees rs rs') vs vs' := by
  induction vs generalizing position drawn vs' with
  | nil =>
      obtain rfl := Vertex.drawFrom?_nil_eq_some_iff.1 hDrawn
      cases vs' with
      | nil => exact .nil
      | cons v' rest' =>
          obtain ⟨_, _, -, -, hNil⟩ := Vertex.drawFrom?_cons_eq_some_iff.1 hDrawn'
          cases hNil
  | cons v rest ih =>
      obtain ⟨first, others, hFirst, hOthers, rfl⟩ := Vertex.drawFrom?_cons_eq_some_iff.1 hDrawn
      cases vs' with
      | nil => cases Vertex.drawFrom?_nil_eq_some_iff.1 hDrawn'
      | cons v' rest' =>
          obtain ⟨first', others', hFirst', hOthers', hSame⟩ :=
            Vertex.drawFrom?_cons_eq_some_iff.1 hDrawn'
          obtain ⟨rfl, rfl⟩ := List.cons.inj hSame
          rw [List.forall_mem_cons] at hTold
          exact .cons (hTold.1 v' _ _ hFirst hFirst') (ih hTold.2 hOthers hOthers')

theorem Vertex.Agrees.kind_eq {v v' : Vertex} (hAgrees : v.Agrees rs rs' v') : v.kind = v'.kind := by
  cases hAgrees <;> rfl

theorem Vertex.Agrees.name_eq {v v' : Vertex} (hAgrees : v.Agrees rs rs' v') : v.name = v'.name := by
  cases hAgrees <;> rfl

theorem agrees_of_getElem? {vs vs' : List Vertex}
    (hSame : List.Forall₂ (Vertex.Agrees rs rs') vs vs') {i : Nat} {v v' : Vertex}
    (hAt : vs[i]? = some v) (hAt' : vs'[i]? = some v') : v.Agrees rs rs' v' := by
  obtain ⟨found, hFound, hAgrees⟩ := forall₂_getElem? hSame hAt'
  rwa [Option.some.inj (hAt.symm.trans hFound)]

/-- Between vertices of the same classes, edges that are drawn alike are the same. -/
theorem eq_of_drawEdge? {vs vs' : List Vertex} (hSame : List.Forall₂ (Vertex.Agrees rs rs') vs vs')
    {e e' : Edge} {statement : Statement} (hDrawn : drawEdge? place vs e = some statement)
    (hDrawn' : drawEdge? place vs' e' = some statement) : e = e' := by
  obtain ⟨source, target, hSource, hTarget, rfl⟩ := drawEdge?_eq_some_iff.1 hDrawn
  obtain ⟨source', target', hSource', hTarget', hStatement⟩ := drawEdge?_eq_some_iff.1 hDrawn'
  rw [Statement.edge.injEq] at hStatement
  obtain ⟨hFrom, hTo, hAttributes⟩ := hStatement
  have hSourceSame : e.source = e'.source := nodeName_append_inj hFrom
  have hTargetSame : e.target = e'.target := nodeName_append_inj hTo
  rw [← hSourceSame] at hSource' hAttributes
  rw [← hTargetSame] at hTarget' hAttributes
  -- The ends are of the same classes, so the edges end at the same borders and differ in their kind.
  rw [borderAttribute, borderAttribute, borderAttribute, borderAttribute,
    (agrees_of_getElem? hSame hSource hSource').kind_eq,
    (agrees_of_getElem? hSame hTarget hTarget').kind_eq, List.append_cancel_left_eq] at hAttributes
  have hKind := EdgeKind.attributes_injective hAttributes
  cases e
  cases e'
  rw [Edge.mk.injEq]
  exact ⟨hSourceSame, hTargetSame, hKind⟩

theorem edges_eq_of_drawEdges {vs vs' : List Vertex}
    (hSame : List.Forall₂ (Vertex.Agrees rs rs') vs vs') {es es' : List Edge}
    (hDrawn : List.Forall₂ (fun e statement => drawEdge? place vs e = some statement) es drawn)
    (hDrawn' : List.Forall₂ (fun e statement => drawEdge? place vs' e = some statement) es' drawn) :
    es = es' := by
  induction hDrawn generalizing es' with
  | nil =>
      cases hDrawn'
      rfl
  | cons hHead _ ih =>
      cases hDrawn' with
      | cons hHead' hTail' => rw [eq_of_drawEdge? hSame hHead hHead', ih hTail']

/-- The vertices of a level are told from its edges by their form. -/
theorem append_inj_of_forms {vertices vertices' edges edges' : List Statement}
    (hVertices : ∀ s ∈ vertices, s.form ≠ .edge) (hVertices' : ∀ s ∈ vertices', s.form ≠ .edge)
    (hEdges : ∀ s ∈ edges, s.form = .edge) (hEdges' : ∀ s ∈ edges', s.form = .edge)
    (hSame : vertices ++ edges = vertices' ++ edges') : vertices = vertices' ∧ edges = edges' := by
  have hKept {vertices edges : List Statement} (hVertices : ∀ s ∈ vertices, s.form ≠ .edge)
      (hEdges : ∀ s ∈ edges, s.form = .edge) :
      (vertices ++ edges).filter (·.form ≠ .edge) = vertices := by
    rw [List.filter_append, List.filter_eq_self.2 (by simpa using hVertices),
      List.filter_eq_nil_iff.2 (by simpa using hEdges), List.append_nil]
  have hSameVertices : vertices = vertices' := by
    rw [← hKept hVertices hEdges, hSame, hKept hVertices' hEdges']
  subst hSameVertices
  exact ⟨rfl, List.append_cancel_left hSame⟩

theorem Graph.agrees_of_draw? {g g' : Graph} (hTold : ∀ v ∈ g.vertices, v.Told rs rs')
    (hDrawn : g.draw? rs place = some drawn) (hDrawn' : g'.draw? rs' place = some drawn) :
    g.Agrees rs rs' g' := by
  obtain ⟨vertices, edges, hVertices, hEdges, rfl⟩ := Graph.draw?_eq_some_iff.1 hDrawn
  obtain ⟨vertices', edges', hVertices', hEdges', hSame⟩ := Graph.draw?_eq_some_iff.1 hDrawn'
  obtain ⟨rfl, rfl⟩ := append_inj_of_forms
    (legible_of_drawFrom? (fun v _ => v.drawnLegibly rs) hVertices).2
    (legible_of_drawFrom? (fun v _ => v.drawnLegibly rs') hVertices').2
    (legible_of_drawEdges hEdges).2 (legible_of_drawEdges hEdges').2 hSame
  have hAgrees := agrees_of_drawFrom? hTold hVertices hVertices'
  exact ⟨hAgrees, edges_eq_of_drawEdges hAgrees hEdges hEdges'⟩

theorem Vertex.told (rs rs' : Ruleset) (v : Vertex) : v.Told rs rs' := by
  induction v using Vertex.induction with
  | chain name c isExtension truncated =>
      intro v' place statement hDrawn hDrawn'
      rw [draw?, Option.some.injEq] at hDrawn
      subst hDrawn
      cases v' with
      | chain name' c' isExtension' truncated' =>
          rw [draw?, Option.some.injEq, Statement.node.injEq] at hDrawn'
          obtain ⟨rfl, rfl, rfl⟩ := chainAttributes_inj hDrawn'.2
          exact .chain ..
      | rule name' r' =>
          obtain ⟨rule', -, hSame⟩ := Vertex.draw?_rule_eq_some_iff.1 hDrawn'
          exact absurd (Statement.node.inj hSame).2 chainAttributes_ne_ruleAttributes
      | rules name' c' inner' =>
          obtain ⟨body', -, hSame⟩ := Vertex.draw?_rules_eq_some_iff.1 hDrawn'
          cases hSame
  | rule name r =>
      intro v' place statement hDrawn hDrawn'
      obtain ⟨rule, hRule, rfl⟩ := Vertex.draw?_rule_eq_some_iff.1 hDrawn
      cases v' with
      | chain name' c' isExtension' truncated' =>
          rw [draw?, Option.some.injEq, Statement.node.injEq] at hDrawn'
          exact absurd hDrawn'.2 chainAttributes_ne_ruleAttributes
      | rule name' r' =>
          obtain ⟨rule', hRule', hSame⟩ := Vertex.draw?_rule_eq_some_iff.1 hDrawn'
          obtain ⟨rfl, hIn, hOut, hComment⟩ := ruleAttributes_inj (Statement.node.inj hSame).2
          exact .rule name hRule hRule' hIn hOut hComment
      | rules name' c' inner' =>
          obtain ⟨body', -, hSame⟩ := Vertex.draw?_rules_eq_some_iff.1 hDrawn'
          cases hSame
  | rules name c inner hInner =>
      intro v' place statement hDrawn hDrawn'
      obtain ⟨body, hBody, rfl⟩ := Vertex.draw?_rules_eq_some_iff.1 hDrawn
      cases v' with
      | chain name' c' isExtension' truncated' =>
          rw [draw?, Option.some.injEq] at hDrawn'
          cases hDrawn'
      | rule name' r' =>
          obtain ⟨rule', -, hSame⟩ := Vertex.draw?_rule_eq_some_iff.1 hDrawn'
          cases hSame
      | rules name' c' inner' =>
          obtain ⟨body', hBody', hSame⟩ := Vertex.draw?_rules_eq_some_iff.1 hDrawn'
          simp only [Statement.cluster.injEq, true_and, List.cons_append, List.nil_append,
            List.cons.injEq, Statement.setting.injEq, Attribute.mk.injEq,
            Value.ofText_inj] at hSame
          obtain ⟨rfl, rfl⟩ := hSame
          obtain ⟨hVertices, hEdges⟩ := Graph.agrees_of_draw? hInner hBody hBody'
          exact .rules name c c' hVertices hEdges

theorem originLabel_injective :
    Function.Injective fun origin : Origin => s!"packet origin: {origin.name}" := by
  intro origin origin' hSame
  cases origin <;> cases origin' <;> first | rfl | simp [Origin.name, toString] at hSame

theorem Graph.agrees_of_diagram? {g g' : Graph} {origin origin' : Origin} {d : Diagram}
    (hDiagram : g.diagram? rs origin = some d) (hDiagram' : g'.diagram? rs' origin' = some d) :
    origin = origin' ∧ g.Agrees rs rs' g' := by
  obtain ⟨body, hBody, rfl⟩ := Graph.diagram?_eq_some_iff.1 hDiagram
  obtain ⟨body', hBody', hSame⟩ := Graph.diagram?_eq_some_iff.1 hDiagram'
  simp only [Diagram.mk.injEq, true_and, List.cons_append, List.nil_append, List.cons.injEq,
    Statement.setting.injEq, Attribute.mk.injEq, Value.quoted.injEq] at hSame
  obtain ⟨hOrigin, rfl⟩ := hSame
  exact ⟨originLabel_injective hOrigin, Graph.agrees_of_draw? (fun v _ => v.told rs rs') hBody hBody'⟩

end Told

section Shown

/-! Well-formed vertices that agree are drawn, and drawn alike. -/

theorem Vertex.agrees_self (rs : Ruleset) (v : Vertex) (hWellFormed : v.WellFormed rs) :
    v.Agrees rs rs v := by
  induction v using Vertex.induction with
  | chain name c isExtension truncated => exact .chain ..
  | rule name r =>
      cases hWellFormed with
      | rule _ hRule => exact .rule name hRule hRule rfl rfl rfl
  | rules name c inner hInner =>
      cases hWellFormed with
      | rules _ _ hVertices hWithin =>
          refine .rules name c c (List.forall₂_same.2 fun v hMem => ?_) rfl
          exact hInner v hMem (hVertices v hMem)

theorem Graph.agrees_self {g : Graph} (hWellFormed : g.WellFormed rs) : g.Agrees rs rs g :=
  ⟨List.forall₂_same.2 fun v hMem => v.agrees_self rs (hWellFormed.vertices v hMem), rfl⟩

/-- A vertex looks like all vertices that it agrees with. -/
def Vertex.Shown (rs rs' : Ruleset) (v : Vertex) : Prop :=
  ∀ v', v.WellFormed rs → v.Agrees rs rs' v' → v.Matches rs rs' v'

theorem Graph.matches_of_agrees {g g' : Graph} (hShown : ∀ v ∈ g.vertices, v.Shown rs rs')
    (hWellFormed : g.WellFormed rs) (hAgrees : g.Agrees rs rs' g') : g.Matches rs rs' g' where
  vertices := by
    have hAll := List.forall₂_iff_get.1 hAgrees.vertices
    refine List.forall₂_iff_get.2 ⟨hAll.1, fun i hLess hLess' => ?_⟩
    have hMem := List.get_mem g.vertices ⟨i, hLess⟩
    exact hShown _ hMem _ (hWellFormed.vertices _ hMem) (hAll.2 i hLess hLess')
  edges := hAgrees.edges
  within := hWellFormed.within

theorem Vertex.shown (rs rs' : Ruleset) (v : Vertex) : v.Shown rs rs' := by
  induction v using Vertex.induction with
  | chain name c isExtension truncated =>
      intro v' _ hAgrees
      cases hAgrees with
      | chain _ _ c' => exact Vertex.matches_chain name c c' isExtension truncated
  | rule name r =>
      intro v' _ hAgrees
      cases hAgrees with
      | rule _ hRule hRule' hIn hOut hComment =>
          exact Vertex.matches_rule name hRule hRule' hIn hOut hComment
  | rules name c inner hInner =>
      intro v' hWellFormed hAgrees
      cases hWellFormed with
      | rules _ _ hVertices hWithin =>
          cases hAgrees with
          | rules _ _ c' hSame hEdges =>
              have hMatches := Graph.matches_of_agrees hInner ⟨hVertices, hWithin⟩ ⟨hSame, hEdges⟩
              exact hMatches.matches_rules name c c'

theorem Graph.exists_picture?_of_agrees {g g' : Graph} (hWellFormed : g.WellFormed rs)
    (hAgrees : g.Agrees rs rs' g') (origin : Origin) :
    ∃ text, g.picture? rs origin = some text ∧ g'.picture? rs' origin = some text :=
  (Graph.matches_of_agrees (fun v _ => v.shown rs rs') hWellFormed hAgrees).exists_picture? origin

end Shown

/-- Graphs whose rules exist and whose edges end at vertices have pictures. Two of them have one picture
if and only if they are for packets of one origin and agree on every level in all that is shown, so
nothing that is shown is lost, whatever the names, the interfaces and the comments are. -/
theorem Graph.picture?_eq_iff {g g' : Graph} (hWellFormed : g.WellFormed rs)
    (hWellFormed' : g'.WellFormed rs') (origin origin' : Origin) :
    ∃ text text', g.picture? rs origin = some text ∧ g'.picture? rs' origin' = some text' ∧
      (text = text' ↔ origin = origin' ∧ g.Agrees rs rs' g') := by
  obtain ⟨text, hText, -⟩ :=
    Graph.exists_picture?_of_agrees hWellFormed (Graph.agrees_self hWellFormed) origin
  obtain ⟨text', hText', -⟩ :=
    Graph.exists_picture?_of_agrees hWellFormed' (Graph.agrees_self hWellFormed') origin'
  refine ⟨text, text', hText, hText', ?_, ?_⟩
  · rintro rfl
    obtain ⟨d, hDiagram, hWrite⟩ := Option.map_eq_some_iff.1 hText
    obtain ⟨d', hDiagram', hWrite'⟩ := Option.map_eq_some_iff.1 hText'
    have hSame : d = d' := Diagram.eq_of_write_eq (Graph.legible_of_diagram? hDiagram)
      (Graph.legible_of_diagram? hDiagram') (hWrite.trans hWrite'.symm)
    subst hSame
    exact Graph.agrees_of_diagram? hDiagram hDiagram'
  · rintro ⟨rfl, hAgrees⟩
    obtain ⟨shown, hShown, hShown'⟩ :=
      Graph.exists_picture?_of_agrees hWellFormed hAgrees origin
    obtain rfl := Option.some.inj (hText.symm.trans hShown)
    exact Option.some.inj (hShown'.symm.trans hText')

/-- Two rules with quotes, backslashes and line breaks in their comments. One comes in by an interface
with a bar in its name. -/
def barRules : Ruleset :=
  ⟨#[], #[],
    #[⟨{ RuleBody.empty with inInterface := some "eth0", comment := some "say \"hi\"\\\n" }, ⟨0⟩, 1⟩,
      ⟨{ RuleBody.empty with inInterface := some "eth0|x", comment := some "say \"hi\"\\\n" }, ⟨0⟩, 2⟩], []⟩

/-- A graph around one rule, under names with braces, quotes and backslashes. -/
def framed (name : String) (r : RuleId) : Graph :=
  ⟨[.rules "\x7d\"];" ⟨0⟩ ⟨[.rule name r], []⟩, .chain "\\" ⟨1⟩ true true],
    [⟨0, 1, .transfer .goto⟩]⟩

theorem wellFormed_framed (name : String) {r : RuleId} {rule : Rule}
    (hRule : barRules.rule? r = some rule) : (framed name r).WellFormed barRules where
  vertices := by
    intro v hMem
    simp only [framed, List.mem_cons, List.not_mem_nil, or_false] at hMem
    rcases hMem with rfl | rfl
    · refine .rules _ _ (List.forall_mem_singleton.2 (.rule name hRule)) ?_
      exact List.forall_mem_nil _
    · exact .chain ..
  within := List.forall_mem_singleton.2 ⟨Nat.zero_lt_succ _, Nat.lt_succ_self _⟩

/-- A bar in the name of a rule is not taken for one in its interface. -/
theorem Graph.picture?_eq_iff_bars :
    (framed "x|y" ⟨0⟩).WellFormed barRules ∧ (framed "y" ⟨1⟩).WellFormed barRules ∧
      ∃ text text', (framed "x|y" ⟨0⟩).picture? barRules .outside = some text ∧
        (framed "y" ⟨1⟩).picture? barRules .outside = some text' ∧ text ≠ text' := by
  have hName := wellFormed_framed "x|y" (r := ⟨0⟩) rfl
  have hInterface := wellFormed_framed "y" (r := ⟨1⟩) rfl
  obtain ⟨text, text', hText, hText', hSame⟩ :=
    Graph.picture?_eq_iff hName hInterface .outside .outside
  refine ⟨hName, hInterface, text, text', hText, hText', fun hEqual => ?_⟩
  obtain ⟨-, hVertices, -⟩ := hSame.1 hEqual
  cases hVertices with
  | cons hHead _ =>
      cases hHead with
      | rules _ _ _ hInner =>
          cases hInner with
          | cons hRule _ => exact absurd hRule.name_eq (by decide)

end PacketFlow
