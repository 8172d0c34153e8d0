import PacketFlow.Dump.Directive
import PacketFlow.Dump.Target
import PacketFlow.Dump.Warning
import PacketFlow.Text.Line

/-!
Reading a dump line by line. A session holds the rules read so far, the table that is open, and the
warnings raised. Chains and rules belong to the open table, targets are looked up in it as it stands
at their line, and a fault adds a warning and leaves all else as it was.
-/
namespace PacketFlow.Dump

/-- The state of a reading: `line` counts the lines read. -/
structure Session where
  ruleset : Ruleset
  current : Option TableId
  line : Nat
  warnings : Array Warning
  deriving DecidableEq, Repr

namespace Session

/-- Nothing has been read. -/
def start : Session :=
  ⟨Ruleset.empty, none, 0, #[]⟩

/-- Adds a warning about the present line. -/
def warn (s : Session) (fault : Fault) : Session :=
  { s with warnings := s.warnings.push ⟨s.line, fault⟩ }

/-- The table that is open. -/
def openTable? (s : Session) : Option (TableId × Table) :=
  s.current.bind fun id => (s.ruleset.table? id).map (id, ·)

/-- Opens the table of that name, new or not. -/
def openTable (s : Session) (name : String) : Session :=
  let (id, ruleset) := s.ruleset.openTable name
  { s with ruleset := ruleset, current := some id }

/-- Declares a chain in the open table. A chain that the table has already is worth a warning; for
a table that does not exist there is none. -/
def declareChain (s : Session) (name? : Option String) (policy : String) : Session :=
  match name?, s.current with
  | none, _ => s.warn .malformedChain
  | some name, none => s.warn (.noCurrentTable s!":{name}")
  | some name, some id =>
    match s.ruleset.declareChain id name policy with
    | .ok (_, ruleset) => { s with ruleset := ruleset }
    | .error (.duplicate table chain) => s.warn (.duplicateChain table chain)
    | .error (.unknownTable _) => s

/-- Looks for a target among the chains of a table. A name that is found nowhere, and is no verdict,
is worth a warning. -/
def resolve (s : Session) (id : TableId) (table : Table) (transfer : Transfer)
    (name? : Option String) : Option ChainId × Session :=
  match name? with
  | none => (none, s)
  | some name =>
    match s.ruleset.chainNamed? id name with
    | some chain => (some chain, s)
    | none =>
      if isVerdict name then (none, s)
      else (none, s.warn (.unresolvedTarget table.name transfer name))

/-- Finds the target of a jump. The name of an extension always stands for the extension, even where
the table has a chain of that name. -/
def resolveJump (s : Session) (id : TableId) (table : Table) (name? : Option String) :
    Option ChainId × Session :=
  match name?.filter isExtensionName with
  | some name =>
    let (chain, ruleset) := s.ruleset.addExtension name
    (some chain, { s with ruleset := ruleset })
  | none => s.resolve id table .jump name?

/-- Adds a rule to a chain of the open table, whose targets are looked up in that table. -/
def placeRule (s : Session) (id : TableId) (table : Table) (chain : ChainId) (rule : RuleLine) :
    Session :=
  let (jump, s) := s.resolveJump id table (rule.targetName? .jump)
  let (goto, s) := s.resolve id table .goto (rule.targetName? .goto)
  match s.ruleset.appendRule? chain (rule.body jump goto) with
  | some (_, ruleset) => { s with ruleset := ruleset }
  | none => s

/-- Adds a rule to the chain that its line names. -/
def appendRule (s : Session) (rule : RuleLine) : Session :=
  match rule.chainName?, s.openTable? with
  | none, _ => s.warn .missingAppendChain
  | some name, none => s.warn (.noCurrentTable s!"-A {name}")
  | some name, some (id, table) =>
    match s.ruleset.chainNamed? id name with
    | none => s.warn (.unknownChain table.name name)
    | some chain => s.placeRule id table chain rule

/-- Does what a line asks for. -/
def obey (s : Session) : Directive → Session
  | .openTable name => s.openTable name
  | .declareChain name? policy => s.declareChain name? policy
  | .appendRule rule => s.appendRule rule
  | .nothing => s

/-- Reads one line. -/
def readLine (s : Session) (line : String) : Session :=
  { s with line := s.line + 1 }.obey (.ofLine line)

end Session

/-- Reads lines one after the other. -/
def readLines (lines : List String) : Session :=
  lines.foldl Session.readLine .start

/-- Reads a whole dump. -/
def read (text : String) : Session :=
  readLines (Text.lines text)

end PacketFlow.Dump
