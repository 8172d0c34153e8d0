import PacketFlow.Command.Execution
import PacketFlow.Command.Scan
import PacketFlow.Yaml.Settings

/-!
The readers that the program is built with, and the program's runs.
-/
namespace PacketFlow

namespace Command

/-- The readers of the program. Of YAML they have the plain and quoted scalars and the collections, but no
block scalars, tags, anchors, aliases and directives. -/
def standard : Readers where
  request := readWords
  settings? := Yaml.settings?

/-- Carries out a command line with the readers of the program. -/
def run {m : Type → Type} [Monad m] (host : Host m) (words : List String) : m Outcome :=
  execute standard host words

end Command

/-- Reads a file of settings with the reader of the program. -/
def Config.ofText? (text : String) : Option Config :=
  Command.standard.config? text

end PacketFlow
