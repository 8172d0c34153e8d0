import PacketFlow.Flow.Hook

/-!
The origins of packets. They decide which hooks a packet passes.
-/
namespace PacketFlow

/-- Where a packet comes from and what becomes of it. -/
inductive Origin where
  /-- It arrives from the network and is for this device. -/
  | outside
  /-- It arrives from the network and is passed on. -/
  | forward
  /-- It is sent by this device. -/
  | inside
  deriving DecidableEq, Repr

namespace Origin

/-- All origins. -/
def all : List Origin :=
  [outside, forward, inside]

/-- The name under which an origin is shown. -/
def name : Origin → String
  | outside => "outside"
  | forward => "forward"
  | inside => "inside"

/-- Every name by which an origin can be asked for. -/
def names : Origin → List String
  | outside => ["outside", "incoming"]
  | forward => ["forward", "forwarded"]
  | inside => ["inside", "local", "outgoing"]

/-- The origin of exactly that name. -/
def named? (name : String) : Option Origin :=
  all.find? fun origin => origin.names.contains name

/-- The hooks a packet of that origin passes, in order. -/
def hooks : Origin → List Hook
  | outside => [.prerouting, .input]
  | forward => [.prerouting, .forward, .postrouting]
  | inside => [.output, .postrouting]

end Origin

/-- A name that is no origin's, in small letters. -/
structure UnknownOrigin where
  name : String
  deriving DecidableEq, Repr

/-- The error as it is shown. -/
def UnknownOrigin.message (e : UnknownOrigin) : String :=
  s!"Unknown packet origin '{e.name}' (expected outside, forward or inside)"

/-- Reads the name of an origin, in any case. -/
def Origin.ofText (text : String) : Except UnknownOrigin Origin :=
  match named? (Text.fold text) with
  | some origin => .ok origin
  | none => .error ⟨Text.fold text⟩

end PacketFlow
