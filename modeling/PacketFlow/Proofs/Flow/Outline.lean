import PacketFlow.Proofs.Dot.Block
import PacketFlow.Proofs.Flow.Inventory
import PacketFlow.Proofs.Flow.Legibility

/-!
How the text of a picture is laid out. The text is read back as a directed graph, and no label in it is
taken for a statement. There is one node for each vertex on every level, and one cluster for each
vertex that holds rules. In the braces of a cluster stand its own frame, the vertices of the graph that
it holds, and the edges of that graph, which are tied to these vertices and to no others.
-/
namespace PacketFlow

open Dot

section Shape

/-- The names of the clusters that lead from one level inwards. -/
def clusterPath (around : List Nat) : List Nat → List String
  | [] => []
  | position :: rest =>
    clusterName (around ++ [position]) :: clusterPath (around ++ [position]) rest

/-- The statements that stand in the whole graph, for the empty place, or in the cluster of a place. -/
def blockAt? (d : Diagram) (place : List Nat) : Option (List Statement) :=
  blockIn? d.body (clusterPath [] place)

/-- The statement is about the vertex. Edges are tied to it by the name of the place, and it is a
cluster, of the name of the place, exactly if the vertex holds rules. -/
structure Vertex.StandsAs (v : Vertex) (place : List Nat) (s : Statement) : Prop where
  tie : s.tie? = some (nodeName place)
  cluster : s.clusterName? = if v.kind = .rules then some (clusterName place) else none

/-- The cluster at whose border an edge of a level ends, if it ends at a vertex that holds rules. -/
def Graph.border (level : Graph) (place : List Nat) (position : Nat) : List Value :=
  if (level.vertex? position).map Vertex.kind = some .rules then
    [.word (clusterName (place ++ [position]))]
  else []

/-- The statement is about the edge. It is tied to the two ends, and has the attribute for the border of
a cluster, once, at those ends that are clusters. -/
structure Edge.StandsAs (e : Edge) (level : Graph) (place : List Nat) (s : Statement) : Prop where
  ends : s.ends? = some (nodeName (place ++ [e.source]), nodeName (place ++ [e.target]))
  tail : s.values "ltail" = level.border place e.source
  head : s.values "lhead" = level.border place e.target

/-- The statements are no edges and no clusters, and no node but the one that the cluster of the place is
tied to. -/
structure IsFrame (place : List Nat) (frame : List Statement) : Prop where
  ties : frame.filterMap Statement.tie? = if place = [] then [] else [nodeName place]
  ends : ∀ s ∈ frame, s.ends? = none
  cluster : ∀ s ∈ frame, s.clusterName? = none

/-- The statements are those for the vertices of the level, in order, and those for its edges. Each edge
is tied to names that the statements for the vertices have. -/
structure Graph.StandsAs (level : Graph) (place : List Nat) (vertices edges : List Statement) :
    Prop where
  each_vertex : List.Forall₂ (fun entry s => entry.1.StandsAs (place ++ [entry.2]) s)
    level.vertices.zipIdx vertices
  each_edge : List.Forall₂ (fun e s => e.StandsAs level place s) level.edges edges
  tied : ∀ s ∈ edges, ∀ source target, s.ends? = some (source, target) →
    source ∈ vertices.filterMap Statement.tie? ∧ target ∈ vertices.filterMap Statement.tie?

/-- The text is that of a directed graph with the vertices and edges of the graph in it, level by
level. -/
structure Graph.OutlinedBy (g : Graph) (text : String) (d : Diagram) : Prop where
  read : Diagram.read? text = some d
  balanced : Balanced (tokensOf text.toList)
  nodes : Statement.allNodeNames d.body = g.inventory.map fun entry => nodeName entry.1
  nodes_nodup : (Statement.allNodeNames d.body).Nodup
  nodes_length : (Statement.allNodeNames d.body).length = g.size
  clusters : Statement.allClusterNames d.body =
    (g.inventory.filter (·.2.kind = .rules)).map fun entry => clusterName entry.1
  clusters_nodup : (Statement.allClusterNames d.body).Nodup
  block {place : List Nat} {level : Graph} (hLevel : g.levelAt? place = some level) :
    ∃ frame vertices edges, blockAt? d place = some (frame ++ (vertices ++ edges)) ∧
      IsFrame place frame ∧ level.StandsAs place vertices edges
  only {block : List Statement} (hBlock : IsBlockOf block d.body) :
    ∃ place level, g.levelAt? place = some level ∧ blockAt? d place = some block
  braces {place : List Nat} {block : List Statement} (hInside : place ≠ [])
    (hBlock : blockAt? d place = some block) :
    (Statement.cluster (clusterName place) block).tokens <:+: tokensOf text.toList ∧
      Balanced (Statement.allTokens block)

end Shape

variable {rs : Ruleset} {place : List Nat} {drawn : List Statement}

section Statements

/-! What single statements are about. -/

/-- No keyword begins as the name of a node does. -/
theorem nodeName_not_mem_keywords (place : List Nat) : nodeName place ∉ keywords := by
  have hFirst : (nodeName place).toList.head? = some 'v' := by
    induction place using List.reverseRecOn with
    | nil => decide
    | append_singleton place position ih => simp [nodeName_append, ih]
  have hKeywords : ∀ word ∈ keywords, word.toList.head? ≠ some 'v' := by decide
  exact fun hMem => hKeywords _ hMem hFirst

theorem nodeName?_node (place : List Nat) (attributes : List Attribute) :
    (Statement.node (nodeName place) attributes).nodeName? = some (nodeName place) := by
  rw [Statement.nodeName?, if_neg (nodeName_not_mem_keywords place)]

theorem standsAs_of_draw? {v : Vertex} {s : Statement} (hDrawn : v.draw? rs place = some s) :
    v.StandsAs place s := by
  cases v with
  | chain name c isExtension truncated =>
      rw [Vertex.draw?, Option.some.injEq] at hDrawn
      subst hDrawn
      exact ⟨nodeName?_node place (chainAttributes name isExtension truncated), rfl⟩
  | rule name r =>
      obtain ⟨rule, -, rfl⟩ := Vertex.draw?_rule_eq_some_iff.1 hDrawn
      exact ⟨nodeName?_node place (ruleAttributes name rule.toRuleBody), rfl⟩
  | rules name c inner =>
      obtain ⟨body, -, rfl⟩ := Vertex.draw?_rules_eq_some_iff.1 hDrawn
      refine ⟨?_, rfl⟩
      simp [Statement.tie?, List.findSome?_cons, Statement.nodeName?, nodeName_not_mem_keywords]

/-- An edge has the attribute for a border where the vertex at that end holds rules. -/
theorem filter_borderAttribute {level : Graph} {position : Nat} {v : Vertex} (side name : String)
    (place : List Nat) (hVertex : level.vertices[position]? = some v) :
    ((borderAttribute side (place ++ [position]) v).filter (·.name == name)).map (·.value) =
      if side = name then level.border place position else [] := by
  rw [borderAttribute, Graph.border, Graph.vertex?, hVertex, Option.map_some]
  by_cases hKind : v.kind = .rules <;> by_cases hSide : side = name <;> simp [hKind, hSide]

/-- The attributes that tell the kind of an edge are none for borders. -/
theorem filter_attributes_kind (kind : EdgeKind) {name : String}
    (hName : name ∈ ["ltail", "lhead"]) : kind.attributes.filter (·.name == name) = [] := by
  have hOther : ∀ a ∈ kind.attributes, ∀ name ∈ ["ltail", "lhead"], (a.name == name) = false := by
    cases kind with
    | next => decide
    | rules => decide
    | transfer transfer => cases transfer <;> simp [EdgeKind.attributes]
  rw [List.filter_eq_nil_iff]
  intro a hMem
  simp [hOther a hMem name hName]

theorem standsAs_of_drawEdge? {level : Graph} {e : Edge} {s : Statement}
    (hDrawn : drawEdge? place level.vertices e = some s) : e.StandsAs level place s := by
  obtain ⟨source, target, hSource, hTarget, rfl⟩ := drawEdge?_eq_some_iff.1 hDrawn
  have hValues {name : String} (hName : name ∈ ["ltail", "lhead"]) :
      (Statement.edge (nodeName (place ++ [e.source])) (nodeName (place ++ [e.target]))
        (borderAttribute "ltail" (place ++ [e.source]) source ++
          borderAttribute "lhead" (place ++ [e.target]) target ++ e.kind.attributes)).values name =
        (if "ltail" = name then level.border place e.source else []) ++
          if "lhead" = name then level.border place e.target else [] := by
    rw [Statement.values, List.filter_append, List.filter_append, List.map_append, List.map_append,
      filter_borderAttribute _ _ _ hSource, filter_borderAttribute _ _ _ hTarget,
      filter_attributes_kind e.kind hName, List.map_nil, List.append_nil]
  refine ⟨rfl, ?_, ?_⟩
  · rw [hValues (by decide)]
    simp
  · rw [hValues (by decide)]
    simp

end Statements

section Levels

/-! What is drawn of one level. -/

theorem forall₂_of_drawFrom? {vs : List Vertex} {start : Nat}
    (hDrawn : Vertex.drawFrom? rs place start vs = some drawn) :
    List.Forall₂ (fun entry s => entry.1.draw? rs (place ++ [entry.2]) = some s)
      (vs.zipIdx start) drawn := by
  induction vs generalizing start drawn with
  | nil =>
      obtain rfl := Vertex.drawFrom?_nil_eq_some_iff.1 hDrawn
      exact .nil
  | cons v others ih =>
      obtain ⟨first, rest, hFirst, hRest, rfl⟩ := Vertex.drawFrom?_cons_eq_some_iff.1 hDrawn
      exact .cons hFirst (ih hRest)

theorem exists_drawn_of_vertex? {g : Graph} {vertices : List Statement}
    (hDrawn : Vertex.drawFrom? rs place 0 g.vertices = some vertices) {position : Nat} {v : Vertex}
    (hVertex : g.vertex? position = some v) :
    ∃ s ∈ vertices, v.draw? rs (place ++ [position]) = some s := by
  have hAt : g.vertices.zipIdx[position]? = some (v, position) := by
    rw [List.getElem?_zipIdx, show g.vertices[position]? = some v from hVertex, Option.map_some,
      Nat.zero_add]
  obtain ⟨s, hMem, hStatement⟩ := forall₂_getElem? (forall₂_of_drawFrom? hDrawn).flip hAt
  exact ⟨s, List.mem_of_getElem? hMem, hStatement⟩

theorem exists_vertex?_of_mem_drawn {g : Graph} {vertices : List Statement}
    (hDrawn : Vertex.drawFrom? rs place 0 g.vertices = some vertices) {s : Statement}
    (hMem : s ∈ vertices) :
    ∃ position v, g.vertex? position = some v ∧ v.draw? rs (place ++ [position]) = some s := by
  obtain ⟨i, hAt⟩ := List.mem_iff_getElem?.1 hMem
  obtain ⟨⟨v, position⟩, hEntry, hStatement⟩ := forall₂_getElem? (forall₂_of_drawFrom? hDrawn) hAt
  have hVertex := (List.mem_zipIdx_iff_getElem? (x := (v, position))).1 (List.mem_of_getElem? hEntry)
  exact ⟨position, v, hVertex, hStatement⟩

/-- The name of a vertex of a level is one that edges are tied to. -/
theorem nodeName_mem_ties {g : Graph} {vertices : List Statement}
    (hDrawn : Vertex.drawFrom? rs place 0 g.vertices = some vertices) {position : Nat} {v : Vertex}
    (hVertex : g.vertex? position = some v) :
    nodeName (place ++ [position]) ∈ vertices.filterMap Statement.tie? := by
  obtain ⟨s, hMem, hStatement⟩ := exists_drawn_of_vertex? hDrawn hVertex
  exact List.mem_filterMap.2 ⟨s, hMem, (standsAs_of_draw? hStatement).tie⟩

theorem Graph.standsAs_of_draw? {level : Graph} (hDrawn : level.draw? rs place = some drawn) :
    ∃ vertices edges, drawn = vertices ++ edges ∧ level.StandsAs place vertices edges := by
  obtain ⟨vertices, edges, hVertices, hEdges, rfl⟩ := Graph.draw?_eq_some_iff.1 hDrawn
  refine ⟨vertices, edges, rfl, ?_, ?_, ?_⟩
  · exact (forall₂_of_drawFrom? hVertices).imp fun _ _ => PacketFlow.standsAs_of_draw?
  · exact hEdges.imp fun _ _ => standsAs_of_drawEdge?
  · intro s hMem source target hEnds
    obtain ⟨i, hAt⟩ := List.mem_iff_getElem?.1 hMem
    obtain ⟨e, -, hEdge⟩ := forall₂_getElem? hEdges hAt
    obtain ⟨from', to', hSource, hTarget, -⟩ := drawEdge?_eq_some_iff.1 hEdge
    obtain ⟨rfl, rfl⟩ := Prod.mk.inj
      (Option.some.inj (hEnds.symm.trans (standsAs_of_drawEdge? hEdge).ends))
    exact ⟨nodeName_mem_ties hVertices hSource, nodeName_mem_ties hVertices hTarget⟩

end Levels

section Names

/-! The names of all nodes and clusters. -/

theorem names_of_form_eq_edge {s : Statement} (hForm : s.form = .edge) :
    s.nodeNames = [] ∧ s.clusterNames = [] ∧ s.clusterName? = none := by
  cases s with
  | edge => exact ⟨rfl, rfl, rfl⟩
  | _ => cases hForm

/-- The nodes and clusters that are drawn for a vertex are named for the places in its inventory. -/
def Vertex.DrawnNames (rs : Ruleset) (v : Vertex) : Prop :=
  ∀ place s, v.draw? rs place = some s →
    s.nodeNames = (v.inventory.map fun entry => nodeName (place ++ entry.1)) ∧
      s.clusterNames = ((v.inventory.filter (·.2.kind = .rules)).map
        fun entry => clusterName (place ++ entry.1))

theorem names_of_drawFrom? {vs : List Vertex} (hNames : ∀ v ∈ vs, v.DrawnNames rs) {start : Nat}
    (hDrawn : Vertex.drawFrom? rs place start vs = some drawn) :
    Statement.allNodeNames drawn =
        ((Vertex.inventoryFrom start vs).map fun entry => nodeName (place ++ entry.1)) ∧
      Statement.allClusterNames drawn =
        (((Vertex.inventoryFrom start vs).filter (·.2.kind = .rules)).map
          fun entry => clusterName (place ++ entry.1)) := by
  induction vs generalizing start drawn with
  | nil =>
      obtain rfl := Vertex.drawFrom?_nil_eq_some_iff.1 hDrawn
      exact ⟨rfl, rfl⟩
  | cons v others ih =>
      obtain ⟨first, rest, hFirst, hRest, rfl⟩ := Vertex.drawFrom?_cons_eq_some_iff.1 hDrawn
      rw [List.forall_mem_cons] at hNames
      obtain ⟨hNodes, hClusters⟩ := hNames.1 _ _ hFirst
      obtain ⟨hRestNodes, hRestClusters⟩ := ih hNames.2 hRest
      rw [Statement.allNodeNames, Statement.allClusterNames, hNodes, hClusters, hRestNodes,
        hRestClusters, Vertex.inventoryFrom]
      simp [List.filter_map, Function.comp_def]

theorem Graph.names_of_draw? {g : Graph} (hNames : ∀ v ∈ g.vertices, v.DrawnNames rs)
    (hDrawn : g.draw? rs place = some drawn) :
    Statement.allNodeNames drawn = (g.inventory.map fun entry => nodeName (place ++ entry.1)) ∧
      Statement.allClusterNames drawn = ((g.inventory.filter (·.2.kind = .rules)).map
        fun entry => clusterName (place ++ entry.1)) := by
  obtain ⟨vertices, edges, hVertices, hEdges, rfl⟩ := Graph.draw?_eq_some_iff.1 hDrawn
  have hForms := (legible_of_drawEdges hEdges).2
  have hNoNodes : Statement.allNodeNames edges = [] := by
    rw [Statement.allNodeNames_eq_flatMap, List.flatMap_eq_nil_iff]
    exact fun s hMem => (names_of_form_eq_edge (hForms s hMem)).1
  have hNoClusters : Statement.allClusterNames edges = [] := by
    rw [Statement.allClusterNames_eq_flatMap, List.flatMap_eq_nil_iff]
    exact fun s hMem => (names_of_form_eq_edge (hForms s hMem)).2.1
  rw [Statement.allNodeNames_append, hNoNodes, List.append_nil, Statement.allClusterNames_append,
    hNoClusters, List.append_nil]
  obtain ⟨vs, es⟩ := g
  exact names_of_drawFrom? hNames hVertices

theorem Vertex.drawnNames (rs : Ruleset) (v : Vertex) : v.DrawnNames rs := by
  induction v using Vertex.induction with
  | chain name c isExtension truncated =>
      intro place s hDrawn
      rw [draw?, Option.some.injEq] at hDrawn
      subst hDrawn
      simp [Statement.nodeNames, nodeName?_node, inventory, Statement.clusterNames, kind]
  | rule name r =>
      intro place s hDrawn
      obtain ⟨rule, -, rfl⟩ := Vertex.draw?_rule_eq_some_iff.1 hDrawn
      simp [Statement.nodeNames, nodeName?_node, inventory, Statement.clusterNames, kind]
  | rules name c inner hInner =>
      intro place s hDrawn
      obtain ⟨body, hBody, rfl⟩ := Vertex.draw?_rules_eq_some_iff.1 hDrawn
      obtain ⟨hNodes, hClusters⟩ := Graph.names_of_draw? hInner hBody
      simp [Statement.nodeNames, Statement.allNodeNames, nodeName?_node, Statement.clusterNames,
        Statement.allClusterNames, hNodes, hClusters, inventory, kind]

end Names

section Descent

/-! The way from the whole graph to the cluster of a place. -/

theorem isFrame_heading (label : Attribute) :
    IsFrame [] [.setting ⟨"compound", .word "true"⟩, .setting label,
      .node "node" [⟨"fontname", .quoted "monospace"⟩]] where
  ties := by simp [Statement.tie?, Statement.nodeName?, keywords]
  ends := by simp [Statement.ends?]
  cluster := by simp [Statement.clusterName?]

theorem isFrame_cluster (place : List Nat) (position : Nat) (label style : Attribute)
    (attributes : List Attribute) :
    IsFrame (place ++ [position]) [.setting label, .setting style,
      .node (nodeName (place ++ [position])) attributes] where
  ties := by
    simp [List.filterMap_cons, Statement.tie?, Statement.nodeName?, nodeName_not_mem_keywords]
  ends := by simp [Statement.ends?]
  cluster := by simp [Statement.clusterName?]

theorem exists_frame_of_draw? {position : Nat} {name : String} {c : ChainId} {inner : Graph}
    {s : Statement} (hDrawn : (Vertex.rules name c inner).draw? rs (place ++ [position]) = some s) :
    ∃ frame body, s = .cluster (clusterName (place ++ [position])) (frame ++ body) ∧
      IsFrame (place ++ [position]) frame ∧ inner.draw? rs (place ++ [position]) = some body := by
  obtain ⟨body, hBody, rfl⟩ := Vertex.draw?_rules_eq_some_iff.1 hDrawn
  exact ⟨_, body, rfl, isFrame_cluster place position .., hBody⟩

/-- The clusters on a level are those of its vertices. -/
theorem exists_vertex?_of_cluster {g : Graph} {frame : List Statement} (hFrame : IsFrame place frame)
    (hDrawn : g.draw? rs place = some drawn) {name : String} {block : List Statement}
    (hMem : .cluster name block ∈ frame ++ drawn) :
    ∃ position v, g.vertex? position = some v ∧ name = clusterName (place ++ [position]) ∧
      v.draw? rs (place ++ [position]) = some (.cluster name block) := by
  obtain ⟨vertices, edges, hVertices, hEdges, rfl⟩ := Graph.draw?_eq_some_iff.1 hDrawn
  have hName : (Statement.cluster name block).clusterName? = some name := rfl
  rw [List.mem_append, List.mem_append] at hMem
  rcases hMem with hMem | hMem | hMem
  · rw [hFrame.cluster _ hMem] at hName
    cases hName
  · obtain ⟨position, v, hVertex, hFound⟩ := exists_vertex?_of_mem_drawn hVertices hMem
    rw [(standsAs_of_draw? hFound).cluster] at hName
    have hSame := Option.some.inj (Option.ite_none_right_eq_some.1 hName).2
    exact ⟨position, v, hVertex, hSame.symm, hFound⟩
  · rw [(names_of_form_eq_edge ((legible_of_drawEdges hEdges).2 _ hMem)).2.2] at hName
    cases hName

/-- A cluster is found by its name on the level that it stands on. -/
theorem bodyOf?_of_cluster {g : Graph} {frame : List Statement} (hFrame : IsFrame place frame)
    (hDrawn : g.draw? rs place = some drawn) {name : String} {block : List Statement}
    (hMem : .cluster name block ∈ frame ++ drawn) : bodyOf? (frame ++ drawn) name = some block := by
  refine bodyOf?_eq_some_of_mem hMem fun other hOther => ?_
  obtain ⟨i, v, hVertex, rfl, hStatement⟩ := exists_vertex?_of_cluster hFrame hDrawn hMem
  obtain ⟨j, w, hFound, hName, hAlso⟩ := exists_vertex?_of_cluster hFrame hDrawn hOther
  obtain rfl : i = j := by simpa using clusterName_injective hName
  obtain rfl := Option.some.inj (hVertex.symm.trans hFound)
  exact (Statement.cluster.inj (Option.some.inj (hAlso.symm.trans hStatement))).2

theorem exists_cluster_of_vertex? {g : Graph} (frame : List Statement)
    (hDrawn : g.draw? rs place = some drawn) {position : Nat} {name : String} {c : ChainId}
    {inner : Graph} (hVertex : g.vertex? position = some (.rules name c inner)) :
    ∃ frame' body, .cluster (clusterName (place ++ [position])) (frame' ++ body) ∈ frame ++ drawn ∧
      IsFrame (place ++ [position]) frame' ∧ inner.draw? rs (place ++ [position]) = some body := by
  obtain ⟨vertices, edges, hVertices, -, rfl⟩ := Graph.draw?_eq_some_iff.1 hDrawn
  obtain ⟨s, hMem, hStatement⟩ := exists_drawn_of_vertex? hVertices hVertex
  obtain ⟨frame', body, rfl, hFrame', hBody⟩ := exists_frame_of_draw? hStatement
  exact ⟨frame', body, List.mem_append_right _ (List.mem_append_left _ hMem), hFrame', hBody⟩

/-- At the place of a level stands what is drawn of the level. -/
theorem exists_blockIn? {g level : Graph} {rest : List Nat} {frame : List Statement}
    (hFrame : IsFrame place frame) (hDrawn : g.draw? rs place = some drawn)
    (hLevel : g.levelAt? rest = some level) :
    ∃ frame' body, blockIn? (frame ++ drawn) (clusterPath place rest) = some (frame' ++ body) ∧
      IsFrame (place ++ rest) frame' ∧ level.draw? rs (place ++ rest) = some body := by
  induction rest generalizing g place frame drawn with
  | nil =>
      obtain rfl := Option.some.inj hLevel
      rw [List.append_nil]
      exact ⟨frame, drawn, rfl, hFrame, hDrawn⟩
  | cons position rest ih =>
      obtain ⟨name, c, inner, hVertex, hInner⟩ := Graph.levelAt?_cons.1 hLevel
      obtain ⟨outer, body, hMem, hOuter, hDrawnInner⟩ := exists_cluster_of_vertex? frame hDrawn hVertex
      obtain ⟨frame', found, hFound, hFrame', hLevelDrawn⟩ := ih hOuter hDrawnInner hInner
      rw [List.append_assoc, List.singleton_append] at hFrame' hLevelDrawn
      refine ⟨frame', found, ?_, hFrame', hLevelDrawn⟩
      rw [clusterPath, blockIn?, bodyOf?_of_cluster hFrame hDrawn hMem, Option.bind_some, hFound]

/-- Every block is that of a level. -/
theorem exists_levelAt?_of_isBlockOf {outer block : List Statement} (hBlock : IsBlockOf block outer)
    {g : Graph} {frame : List Statement} (hFrame : IsFrame place frame)
    (hDrawn : g.draw? rs place = some drawn) (hOuter : outer = frame ++ drawn) :
    ∃ rest level, g.levelAt? rest = some level ∧
      blockIn? outer (clusterPath place rest) = some block := by
  induction hBlock generalizing g place frame drawn with
  | whole => exact ⟨[], g, rfl, rfl⟩
  | @inside name outer inner hMem hInside ih =>
      subst hOuter
      obtain ⟨position, v, hVertex, hName, hStatement⟩ := exists_vertex?_of_cluster hFrame hDrawn hMem
      cases v with
      | chain =>
          rw [Vertex.draw?, Option.some.injEq] at hStatement
          cases hStatement
      | rule =>
          obtain ⟨rule, -, hNode⟩ := Vertex.draw?_rule_eq_some_iff.1 hStatement
          cases hNode
      | rules label c held =>
          obtain ⟨frame', body, hCluster, hFrame', hBody⟩ := exists_frame_of_draw? hStatement
          obtain ⟨rest, level, hLevel, hFound⟩ := ih hFrame' hBody (Statement.cluster.inj hCluster).2
          refine ⟨position :: rest, level, ?_, ?_⟩
          · exact Graph.levelAt?_cons.2 ⟨label, c, held, hVertex, hLevel⟩
          · rw [clusterPath, ← hName, blockIn?, bodyOf?_of_cluster hFrame hDrawn hMem,
              Option.bind_some, hFound]

theorem clusterPath_append_singleton (around place : List Nat) (position : Nat) :
    clusterPath around (place ++ [position]) =
      clusterPath around place ++ [clusterName (around ++ (place ++ [position]))] := by
  induction place generalizing around with
  | nil => rfl
  | cons first place ih =>
      rw [List.cons_append, clusterPath, ih, clusterPath, List.cons_append]
      simp

end Descent

section Whole

/-! The text of the whole graph. -/

/-- Names that tell places are different for entries of an inventory. -/
theorem Graph.names_nodup {g : Graph} {name : List Nat → String} (hName : Function.Injective name)
    {entries : List (List Nat × Vertex)} (hEntries : entries.Sublist g.inventory) :
    (entries.map fun entry => name entry.1).Nodup := by
  have hPlaces : (entries.map Prod.fst).Nodup := g.places_nodup.sublist (hEntries.map Prod.fst)
  have hNames : entries.map (fun entry => name entry.1) = (entries.map Prod.fst).map name := by
    rw [List.map_map]
    rfl
  rw [hNames]
  exact hPlaces.map hName

/-- The braces of a cluster are in the text where the cluster is. -/
theorem infix_tokens_of_blockAt? {d : Diagram} {place : List Nat} {block : List Statement}
    (hInside : place ≠ []) (hBlock : blockAt? d place = some block) :
    (Statement.cluster (clusterName place) block).tokens <:+: d.tokens := by
  obtain rfl | ⟨outer, position, rfl⟩ := place.eq_nil_or_concat
  · exact absurd rfl hInside
  · rw [blockAt?, List.concat_eq_append, clusterPath_append_singleton, List.nil_append] at hBlock
    rw [List.concat_eq_append]
    refine (infix_tokens_of_blockIn? hBlock).trans ?_
    exact ⟨[.word "digraph", .word d.name, .mark '\x7b'], [.mark '\x7d'], by simp [Diagram.tokens]⟩

theorem Graph.exists_heading_of_diagram? {g : Graph} {origin : Origin} {d : Diagram}
    (hDiagram : g.diagram? rs origin = some d) :
    ∃ heading body, d.body = heading ++ body ∧ IsFrame [] heading ∧
      Statement.allNodeNames heading = [] ∧ Statement.allClusterNames heading = [] ∧
        g.draw? rs [] = some body := by
  obtain ⟨body, hBody, rfl⟩ := Graph.diagram?_eq_some_iff.1 hDiagram
  refine ⟨_, body, rfl, isFrame_heading _, ?_, rfl, hBody⟩
  simp [Statement.allNodeNames, Statement.nodeNames, Statement.nodeName?, keywords]

theorem Graph.outlinedBy_of_diagram? {g : Graph} {origin : Origin} {d : Diagram}
    (hDiagram : g.diagram? rs origin = some d) : g.OutlinedBy d.write d := by
  have hLegible := Graph.legible_of_diagram? hDiagram
  obtain ⟨heading, body, hSplit, hFrame, hNoNodes, hNoClusters, hBody⟩ :=
    Graph.exists_heading_of_diagram? hDiagram
  obtain ⟨hBodyNodes, hBodyClusters⟩ := Graph.names_of_draw? (fun v _ => v.drawnNames rs) hBody
  have hNodes : Statement.allNodeNames d.body = g.inventory.map fun entry => nodeName entry.1 := by
    rw [hSplit, Statement.allNodeNames_append, hNoNodes, List.nil_append, hBodyNodes]
    rfl
  have hClusters : Statement.allClusterNames d.body =
      (g.inventory.filter (·.2.kind = .rules)).map fun entry => clusterName entry.1 := by
    rw [hSplit, Statement.allClusterNames_append, hNoClusters, List.nil_append, hBodyClusters]
    rfl
  refine ⟨hLegible.read?_write, ?_, hNodes, ?_, ?_, hClusters, ?_, ?_, ?_, ?_⟩
  · rw [hLegible.tokensOf_write]
    exact d.balanced_tokens
  · rw [hNodes]
    exact Graph.names_nodup nodeName_injective (List.Sublist.refl _)
  · rw [hNodes, List.length_map, g.length_inventory]
  · rw [hClusters]
    exact Graph.names_nodup clusterName_injective List.filter_sublist
  · intro place level hLevel
    obtain ⟨frame, block, hFound, hInner, hDrawn⟩ := exists_blockIn? hFrame hBody hLevel
    obtain ⟨vertices, edges, rfl, hStands⟩ := Graph.standsAs_of_draw? hDrawn
    rw [List.nil_append] at hInner hStands
    exact ⟨frame, vertices, edges, by rw [blockAt?, hSplit, hFound], hInner, hStands⟩
  · exact fun hBlock => exists_levelAt?_of_isBlockOf hBlock hFrame hBody hSplit
  · intro place block hInside hBlock
    rw [hLegible.tokensOf_write]
    exact ⟨infix_tokens_of_blockAt? hInside hBlock,
      openBraces?_allTokens (fun s _ => s.openBraces?_tokens) 0⟩

end Whole

/-- A graph whose rules exist and whose edges end at vertices has a picture, and its text is laid out
as the graph is: whatever the labels are, there is a node for each vertex and a cluster for each vertex
that holds rules, under names of their own, and a cluster's braces enclose the statements of the graph
inside the vertex. -/
theorem Graph.exists_outline {g : Graph} (hWellFormed : g.WellFormed rs) (origin : Origin) :
    ∃ text d, g.picture? rs origin = some text ∧ g.OutlinedBy text d := by
  obtain ⟨text, hText, -⟩ :=
    Graph.exists_picture?_of_agrees hWellFormed (Graph.agrees_self hWellFormed) origin
  obtain ⟨d, hDiagram, rfl⟩ := Option.map_eq_some_iff.1 hText
  exact ⟨d.write, d, hText, outlinedBy_of_diagram? hDiagram⟩

/-- A label that reads like the end of a statement, an edge, and the start of a cluster. -/
def statementLike : String :=
  "\"];\nv_1 -> v_0;\nsubgraph cluster_v_1 \x7b"

/-- What reads like statements in a label adds no node, edge or cluster. -/
theorem Graph.exists_outline_statementLike :
    (framed statementLike ⟨0⟩).WellFormed barRules ∧ ∃ text d,
      (framed statementLike ⟨0⟩).picture? barRules .outside = some text ∧
        Diagram.read? text = some d ∧
          Statement.allNodeNames d.body = ["v_0", "v_0_0", "v_1"] ∧
            Statement.allClusterNames d.body = ["cluster_v_0"] := by
  have hWellFormed := wellFormed_framed statementLike (r := ⟨0⟩) rfl
  obtain ⟨text, d, hText, hOutline⟩ := Graph.exists_outline hWellFormed .outside
  exact ⟨hWellFormed, text, d, hText, hOutline.read, hOutline.nodes.trans (by decide),
    hOutline.clusters.trans (by decide)⟩

end PacketFlow
