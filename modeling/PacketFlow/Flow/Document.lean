import PacketFlow.Flow.Traversal
import PacketFlow.Json.Basic

/-!
A graph as a JSON document: the origin of the packet, the labels of the built-in chains it comes to,
and the graph with all its levels.
-/
namespace PacketFlow

def Edge.json (e : Edge) : Json :=
  .object [("from", .number e.source), ("to", .number e.target), ("kind", .text e.kind.name)]

mutual

/-- A vertex as an object: its name, what sort of thing it is, and what it stands for. -/
def Vertex.json : Vertex → Json
  | .chain name id isExtension truncated =>
    .object [("name", .text name), ("class", .text VertexClass.chain.name),
      ("chain", .number id.index), ("special", .truth isExtension),
      ("truncated", .truth truncated)]
  | .rule name id =>
    .object [("name", .text name), ("class", .text VertexClass.rule.name),
      ("rule", .number id.index)]
  | .rules name id inner =>
    .object [("name", .text name), ("class", .text VertexClass.rules.name),
      ("chain", .number id.index), ("graph", Graph.json inner)]

/-- A level as an object. -/
def Graph.json : Graph → Json
  | ⟨vertices, edges⟩ =>
    .object [("vertices", .list (Vertex.jsonList vertices)),
      ("edges", .list (edges.map Edge.json))]

def Vertex.jsonList : List Vertex → List Json
  | [] => []
  | v :: vs => v.json :: Vertex.jsonList vs

end

/-- The document of a graph. -/
def Graph.document (origin : Origin) (labels : List String) (g : Graph) : Json :=
  .object [("origin", .text origin.name), ("default_flow", .list (labels.map Json.text)),
    ("graph", g.json)]

/-- The labels of the built-in chains that a packet comes to. -/
def Ruleset.builtinLabels? (rs : Ruleset) (origin : Origin) : Option (List String) :=
  (rs.builtinChains origin).mapM rs.chainLabel?

end PacketFlow
