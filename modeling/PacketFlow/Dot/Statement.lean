import PacketFlow.Dot.Escape

/-!
The part of the DOT language that pictures of rules are written in: nodes, edges, settings and
clusters. Each statement stands on a line of its own, indented by two blanks for every level of
clusters around it.
-/
namespace PacketFlow.Dot

/-- The value of an attribute. -/
inductive Value where
  /-- A bare word. -/
  | word (text : String)
  /-- A string in quotes, given as it stands between them. -/
  | quoted (written : String)
  deriving DecidableEq, Repr

/-- A string in quotes that shows a text. -/
def Value.ofText (text : String) : Value :=
  .quoted (escape text)

def Value.write : Value → String
  | word text => text
  | quoted written => "\"" ++ written ++ "\""

/-- An attribute of a node, an edge or a graph. -/
structure Attribute where
  name : String
  value : Value
  deriving DecidableEq, Repr

def Attribute.write (a : Attribute) : String :=
  a.name ++ "=" ++ a.value.write

/-- The attributes of a node or an edge, in brackets; without attributes there are no brackets. -/
def writeAttributes (attributes : List Attribute) : String :=
  if attributes.isEmpty then ""
  else " [" ++ ", ".intercalate (attributes.map Attribute.write) ++ "]"

/-- A statement. -/
inductive Statement where
  | node (name : String) (attributes : List Attribute)
  | edge (source target : String) (attributes : List Attribute)
  | setting (a : Attribute)
  | cluster (name : String) (body : List Statement)

/-- The blanks before a statement. -/
def indent (depth : Nat) : String :=
  String.join (List.replicate depth "  ")

mutual

/-- A statement as it is written inside so many levels. -/
def Statement.write (depth : Nat) : Statement → String
  | .node name attributes => indent depth ++ name ++ writeAttributes attributes ++ ";\n"
  | .edge source target attributes =>
    indent depth ++ source ++ " -> " ++ target ++ writeAttributes attributes ++ ";\n"
  | .setting a => indent depth ++ a.write ++ ";\n"
  | .cluster name body =>
    indent depth ++ "subgraph " ++ name ++ " \x7b\n" ++ Statement.writeAll (depth + 1) body ++
      indent depth ++ "\x7d\n"

/-- Statements one below the other. -/
def Statement.writeAll (depth : Nat) : List Statement → String
  | [] => ""
  | statement :: rest => statement.write depth ++ Statement.writeAll depth rest

end

/-- A directed graph. -/
structure Diagram where
  name : String
  body : List Statement

/-- A directed graph as it is written. -/
def Diagram.write (d : Diagram) : String :=
  "digraph " ++ d.name ++ " \x7b\n" ++ Statement.writeAll 1 d.body ++ "\x7d\n"

end PacketFlow.Dot
