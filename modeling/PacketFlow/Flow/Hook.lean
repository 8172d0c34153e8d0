import PacketFlow.Text.Fold

/-!
The points on a packet's way at which the rules are consulted, and the tables consulted there.
-/
namespace PacketFlow

/-- A hook. The built-in chains are named after the hooks. -/
inductive Hook where
  | prerouting
  | input
  | forward
  | output
  | postrouting
  deriving DecidableEq, Repr

namespace Hook

/-- The name of the hook's chain. -/
def name : Hook → String
  | prerouting => "PREROUTING"
  | input => "INPUT"
  | forward => "FORWARD"
  | output => "OUTPUT"
  | postrouting => "POSTROUTING"

/-- All hooks. -/
def all : List Hook :=
  [prerouting, input, forward, output, postrouting]

/-- The hook of that name, in any case. -/
def named? (name : String) : Option Hook :=
  all.find? fun hook => Text.sameName hook.name name

/-- The names of the tables consulted at the hook, the one consulted first in front. -/
def tables : Hook → List String
  | prerouting => ["raw", "mangle", "nat"]
  | input => ["mangle", "nat", "filter", "security"]
  | forward => ["mangle", "filter", "security"]
  | output => ["raw", "mangle", "nat", "filter", "security"]
  | postrouting => ["mangle", "nat"]

end Hook

end PacketFlow
