import PacketFlow.Flow.Rendering

/-!
The settings that a user can leave in a file instead of giving them with each command. A file may set
some of them, and has the rest as they are by default.
-/
namespace PacketFlow

/-- What a file sets. Origins and forms of output are given by name. -/
structure Settings where
  dump : Option String
  origin : Option String
  format : Option String
  output : Option String
  deriving DecidableEq, Repr

/-- The settings: which dump is read, which packets are followed, and in what form and where the
graph is written. Without a dump standard input is read, without an output the graph is printed. -/
structure Config where
  dump : Option String
  origin : Origin
  format : Format
  output : Option String
  deriving DecidableEq, Repr

namespace Config

/-- The settings where nothing is set. -/
def default : Config :=
  ⟨none, .forward, .dot, none⟩

/-- The settings of a file, if the names in it mean something. -/
def ofSettings? (settings : Settings) : Option Config := do
  return {
    dump := settings.dump
    origin := ← settings.origin.elim (some default.origin) Origin.named?
    format := ← settings.format.elim (some default.format) Format.named?
    output := settings.output }

end Config

end PacketFlow
