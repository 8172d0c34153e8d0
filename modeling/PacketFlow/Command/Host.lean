/-!
What a command needs of the world around it: files, and standard input. A text that is not UTF-8
cannot be read.
-/
namespace PacketFlow.Command

/-- The ways of reaching files and standard input. -/
structure Host (m : Type → Type) where
  /-- The text of the file at a path. -/
  read? : String → m (Option String)
  /-- The text on standard input. -/
  readInput? : m (Option String)
  /-- Whether there is anything at a path. -/
  has : String → m Bool
  /-- Makes a text the content of the file at a path, and tells whether that could be done. -/
  write : String → String → m Bool

/-- Whether a path stands for standard input. Slashes after the dash do not matter. -/
def isStandardInput (path : String) : Bool :=
  match path.toList.splitOnP (· == '/') with
  | ['-'] :: rest => rest.all fun step => step == [] || step == ['.']
  | _ => false

end PacketFlow.Command
