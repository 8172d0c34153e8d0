import PacketFlow.Config

/-!
What a run is asked to do. The words of a command line and the text of a file of settings are read by
libraries for such texts in general, so any two readers will do here. The reader of command lines
also grants help and refuses what breaks a rule: it then ends the run itself.
-/
namespace PacketFlow.Command

/-- What is to be done. What is left open is taken from the settings. -/
inductive Task where
  | flow (dump : Option String) (origin : Option Origin) (format : Option Format)
      (output : Option String)
  | tables (dump : Option String)
  | hooks (dump : Option String) (origin : Option Origin)
  | tokenize (line : String)
  deriving DecidableEq, Repr

/-- A command line that keeps the rules: the task, and the file of settings if one is named. -/
structure Request where
  config : Option String
  task : Task
  deriving DecidableEq, Repr

/-- How a run ends that gets no request: with a code, a text that is printed, and a text that is
reported. -/
structure Stop where
  exitCode : Nat
  output : String
  report : String
  deriving DecidableEq, Repr

/-- The readers of the texts that others give a form to. -/
structure Readers where
  /-- What the words of a command line ask for, or how they end the run. -/
  request : List String → Except Stop Request
  /-- What the text of a file sets. There is none if it is no text of that form. -/
  settings? : String → Option Settings

/-- The settings of a file. -/
def Readers.config? (readers : Readers) (text : String) : Option Config := do
  Config.ofSettings? (← readers.settings? text)

end PacketFlow.Command
