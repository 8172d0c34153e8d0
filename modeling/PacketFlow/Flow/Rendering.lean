import PacketFlow.Flow.Document
import PacketFlow.Flow.Picture

/-!
The two forms in which the ways of a packet are given out.
-/
namespace PacketFlow

/-- A form of output. -/
inductive Format where
  | dot
  | json
  deriving DecidableEq, Repr

/-- The name by which a form is asked for. -/
def Format.name : Format → String
  | dot => "dot"
  | json => "json"

/-- The form of exactly that name. -/
def Format.named? (name : String) : Option Format :=
  [dot, json].find? fun format => format.name == name

/-- All ways of a packet, in a form of output. There is no answer if the rules on these ways refer
to something that does not exist. -/
def Ruleset.render? (rs : Ruleset) (origin : Origin) (format : Format) : Option String := do
  let graph ← rs.traversal? origin
  match format with
  | .dot => graph.picture? rs origin
  | .json =>
    let labels ← rs.builtinLabels? origin
    return (graph.document origin labels).pretty

end PacketFlow
