import PacketFlow.Config
import PacketFlow.Yaml.Node

/-!
The settings that a document sets.
-/
namespace PacketFlow.Yaml

/-- The spellings of an unset value. -/
def unsetSpellings : List String :=
  ["", "~", "null", "Null", "NULL"]

namespace Node

/-- The path that a node gives. A plain scalar can spell that there is none. -/
def path? : Node → Option (Option String)
  | .scalar text isPlain =>
    some (if isPlain && unsetSpellings.contains text then none else some text)
  | _ => none

/-- The text of a scalar, however it is quoted. -/
def text? : Node → Option String
  | .scalar text _ => some text
  | _ => none

/-- The name that a node gives. -/
def name? (node : Node) : Option (Option String) :=
  node.text?.map some

end Node

/-- The value of a setting read from the members of that name: there may be none, which leaves it
unset, or one, but not two. -/
def setting? (members : List (String × Node)) (name : String)
    (read : Node → Option (Option String)) : Option (Option String) :=
  match members.filter fun member => member.1 == name with
  | [] => some none
  | [(_, node)] => read node
  | _ => none

/-- What a mapping sets. Names that are no setting's are passed over. -/
def ofMembers? (members : List (Node × Node)) : Option Settings := do
  let members ← members.mapM fun (key, value) => key.text?.map (·, value)
  return {
    dump := ← setting? members "dump" Node.path?
    origin := ← setting? members "origin" Node.name?
    format := ← setting? members "format" Node.name?
    output := ← setting? members "output" Node.path? }

/-- What a document sets: what a mapping sets, or nothing if there is nothing in it. -/
def ofNode? : Node → Option Settings
  | .mapping members => ofMembers? members
  | .scalar text isPlain => if text.isEmpty && isPlain then some ⟨none, none, none, none⟩ else none
  | .sequence _ => none

/-- What the text of a document sets. -/
def settings? (text : String) : Option Settings := do
  ofNode? (← Node.ofText? text)

end PacketFlow.Yaml
