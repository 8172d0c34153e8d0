import PacketFlow.Dot.Statement
import PacketFlow.Flow.Graph
import PacketFlow.Flow.Origin

/-!
The picture of a graph. A chain is a box, an extension target an octagon, and a chain whose rules
are left out is dashed. A rule is a record with its interfaces on both sides. The rules of a chain
are a cluster, with an invisible point inside to which the edges of the cluster are tied.
-/
namespace PacketFlow

open Dot (Attribute Statement Value)

/-- The name of the node for the vertex at a place: its position on each level, from the outermost
level to its own. -/
def nodeName (place : List Nat) : String :=
  place.foldl (fun name position => s!"{name}_{position}") "v"

/-- The name of the cluster for the vertex at a place. -/
def clusterName (place : List Nat) : String :=
  "cluster_" ++ nodeName place

/-- The attributes of a chain's node. -/
def chainAttributes (name : String) (isExtension truncated : Bool) : List Attribute :=
  [⟨"shape", .word (if isExtension then "octagon" else "box")⟩] ++
    (if truncated then [⟨"style", .word "dashed"⟩] else []) ++
    [⟨"label", .ofText name⟩]

/-- The label of a rule's record: the interface the packet comes in by, the rule's name, and the
interface it leaves by. A bar in the name divides it into fields. -/
def ruleRecord (name : String) (rule : RuleBody) : String :=
  "⇒" ++ Dot.escapeField false (shownMatch rule.inInterface) ++
    "|" ++ Dot.escapeField true name ++
    "|" ++ Dot.escapeField false (shownMatch rule.outInterface) ++ "⇒"

/-- The attributes of a rule's node. -/
def ruleAttributes (name : String) (rule : RuleBody) : List Attribute :=
  [⟨"shape", .word "record"⟩, ⟨"style", .word "filled"⟩, ⟨"fillcolor", .word "beige"⟩,
    ⟨"label", .quoted (ruleRecord name rule)⟩] ++
    rule.comment.toList.map fun comment => ⟨"tooltip", .ofText comment⟩

/-- The attributes by which edges of different kinds are told apart. -/
def EdgeKind.attributes : EdgeKind → List Attribute
  | next => []
  | rules => [⟨"arrowhead", .word "empty"⟩]
  | transfer .jump => [⟨"label", .ofText "jump"⟩, ⟨"color", .word "blue"⟩]
  | transfer .goto =>
    [⟨"label", .ofText "goto"⟩, ⟨"color", .word "darkgreen"⟩, ⟨"style", .word "dashed"⟩]

/-- The attribute that ends an edge at the border of a cluster, if the vertex there is one. -/
def borderAttribute (name : String) (place : List Nat) (v : Vertex) : List Attribute :=
  if v.kind = .rules then [⟨name, .word (clusterName place)⟩] else []

/-- The edge between two vertices of the level at `place`. -/
def drawEdge? (place : List Nat) (vertices : List Vertex) (e : Edge) : Option Statement := do
  let source ← vertices[e.source]?
  let target ← vertices[e.target]?
  let start := place ++ [e.source]
  let finish := place ++ [e.target]
  return .edge (nodeName start) (nodeName finish) <|
    borderAttribute "ltail" start source ++ borderAttribute "lhead" finish target ++
      e.kind.attributes

mutual

/-- The statement for the vertex at `place`. There is none for a rule that does not exist. -/
def Vertex.draw? (rs : Ruleset) (place : List Nat) : Vertex → Option Statement
  | .chain name _ isExtension truncated =>
    some (.node (nodeName place) (chainAttributes name isExtension truncated))
  | .rule name id => do
    let rule ← rs.rule? id
    return .node (nodeName place) (ruleAttributes name rule.toRuleBody)
  | .rules name _ inner => do
    let body ← Graph.draw? rs place inner
    return .cluster (clusterName place) <|
      [.setting ⟨"label", .ofText name⟩, .setting ⟨"style", .word "dashed"⟩,
        .node (nodeName place) [⟨"shape", .word "point"⟩, ⟨"style", .word "invis"⟩]] ++ body

/-- The statements for the level at `place`: its vertices, then its edges. -/
def Graph.draw? (rs : Ruleset) (place : List Nat) : Graph → Option (List Statement)
  | ⟨vertices, edges⟩ => do
    let drawnVertices ← Vertex.drawFrom? rs place 0 vertices
    let drawnEdges ← edges.mapM (drawEdge? place vertices)
    return drawnVertices ++ drawnEdges

/-- The statements for vertices side by side on the level at `place`, the first of them at
`position`. -/
def Vertex.drawFrom? (rs : Ruleset) (place : List Nat) :
    (position : Nat) → List Vertex → Option (List Statement)
  | _, [] => some []
  | position, v :: rest => do
    let first ← v.draw? rs (place ++ [position])
    let others ← Vertex.drawFrom? rs place (position + 1) rest
    return first :: others

end

/-- The picture of a graph for packets of an origin. -/
def Graph.diagram? (rs : Ruleset) (origin : Origin) (g : Graph) : Option Dot.Diagram := do
  let body ← Graph.draw? rs [] g
  return ⟨"flow",
    [.setting ⟨"compound", .word "true"⟩,
      .setting ⟨"label", .quoted s!"packet origin: {origin.name}"⟩,
      .node "node" [⟨"fontname", .quoted "monospace"⟩]] ++ body⟩

/-- The text of the picture. -/
def Graph.picture? (rs : Ruleset) (origin : Origin) (g : Graph) : Option String :=
  (g.diagram? rs origin).map Dot.Diagram.write

end PacketFlow
