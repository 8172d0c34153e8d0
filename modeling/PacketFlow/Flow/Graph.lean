import PacketFlow.Ruleset.Basic

/-!
The graph of a packet's ways through the rules. The graph has levels: the rules of a chain form a
graph of their own, which is held by one vertex of the level above. Edges join vertices of one
level, by their positions there.
-/
namespace PacketFlow

/-- Why a packet can pass from one vertex to another. -/
inductive EdgeKind where
  /-- It goes on to the next chain or rule. -/
  | next
  /-- It goes from a chain into the chain's rules. -/
  | rules
  /-- A rule hands it to a chain. -/
  | transfer (transfer : Transfer)
  deriving DecidableEq, Repr

/-- The word for a kind of edge. -/
def EdgeKind.name : EdgeKind → String
  | next => "next"
  | rules => "rules"
  | transfer t => t.name

/-- All kinds of edges. -/
def EdgeKind.all : List EdgeKind :=
  [next, rules, transfer .jump, transfer .goto]

/-- An edge between two vertices of one level, given by their positions. -/
structure Edge where
  source : Nat
  target : Nat
  kind : EdgeKind
  deriving DecidableEq, Repr

/-- One level of a graph: its vertices by position, and its edges. -/
structure Level (V : Type) where
  vertices : List V
  edges : List Edge
  deriving DecidableEq, Repr

/-- A vertex, with the name it is shown under. -/
inductive Vertex where
  /-- A chain that the packet comes to. It is `truncated` where its rules are not shown because they
  are being shown around it. -/
  | chain (name : String) (chain : ChainId) (isExtension truncated : Bool)
  /-- A rule that the packet comes to. -/
  | rule (name : String) (rule : RuleId)
  /-- All rules of a chain, with the graph that they form. -/
  | rules (name : String) (chain : ChainId) (inner : Level Vertex)

/-- A level whose vertices may hold further levels. -/
abbrev Graph :=
  Level Vertex

/-- What sort of thing a vertex stands for. -/
inductive VertexClass where
  | chain
  | rule
  | rules
  deriving DecidableEq, Repr

/-- The word for a class of vertices. -/
def VertexClass.name : VertexClass → String
  | chain => "chain"
  | rule => "rule"
  | rules => "rule_subgraph"

namespace Vertex

def name : Vertex → String
  | chain name .. => name
  | rule name .. => name
  | rules name .. => name

def kind : Vertex → VertexClass
  | chain .. => .chain
  | rule .. => .rule
  | rules .. => .rules

/-- The graph inside a vertex. -/
def inner? : Vertex → Option Graph
  | rules _ _ inner => some inner
  | _ => none

end Vertex

namespace Graph

/-- No vertices and no edges. -/
def empty : Graph :=
  ⟨[], []⟩

/-- Adds a vertex in the last place, and gives that place. -/
def pushVertex (g : Graph) (v : Vertex) : Nat × Graph :=
  (g.vertices.length, { g with vertices := g.vertices ++ [v] })

/-- Adds an edge. Whether its ends are vertices is not looked at. -/
def pushEdge (g : Graph) (e : Edge) : Graph :=
  { g with edges := g.edges ++ [e] }

def vertex? (g : Graph) (position : Nat) : Option Vertex :=
  g.vertices[position]?

/-- The edges that leave a position, in order. -/
def outgoing (g : Graph) (position : Nat) : List Edge :=
  g.edges.filter fun e => e.source == position

/-- The position of the first vertex of that name. -/
def positionOf? (g : Graph) (name : String) : Option Nat :=
  g.vertices.findIdx? fun v => v.name == name

def isEmpty (g : Graph) : Bool :=
  g.vertices.isEmpty

end Graph

mutual

/-- A vertex and all vertices inside it, counted. -/
def Vertex.size : Vertex → Nat
  | .chain .. => 1
  | .rule .. => 1
  | .rules _ _ inner => 1 + Graph.size inner

/-- The vertices of all levels of a graph, counted. -/
def Graph.size : Graph → Nat
  | ⟨vertices, _⟩ => Vertex.listSize vertices

/-- The vertices of a list and all vertices inside them, counted. -/
def Vertex.listSize : List Vertex → Nat
  | [] => 0
  | v :: vs => v.size + Vertex.listSize vs

end

end PacketFlow
