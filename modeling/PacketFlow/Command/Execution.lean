import PacketFlow.Command.Host
import PacketFlow.Command.Listing
import PacketFlow.Command.Request
import PacketFlow.Text.Quoted

/-!
Carrying out a command. The settings come first, whatever the task, then the dump is read, and only
when the answer is complete is anything written or printed. A command that fails prints nothing.
-/
namespace PacketFlow.Command

/-- Why a command could not be carried out. -/
inductive Failure where
  | configUnread (path : String)
  | configMalformed
  | dumpUnread (path : String)
  | inputUnread
  | graphUnwritten (path : String)
  /-- The rules refer to something that does not exist. No dump gives such rules. -/
  | rulesBroken
  deriving DecidableEq, Repr

/-- The failure as it is reported. -/
def Failure.report : Failure → String
  | configUnread path =>
    let name := Text.quoted path
    s!"Error: Failed to read config from {name}"
  | configMalformed => "Error: Failed to parse vipt config YAML"
  | dumpUnread path =>
    let name := Text.quoted path
    s!"Error: Failed to read dump from {name}"
  | inputUnread => "Error: Failed to read dump from stdin"
  | graphUnwritten path =>
    let name := Text.quoted path
    s!"Error: Failed to write graph to {name}"
  | rulesBroken => "Error: Failed to follow the rules"

/-- How a command ends. -/
inductive Outcome where
  /-- It was carried out, and prints this. -/
  | done (output : String)
  | failed (failure : Failure)
  /-- The command line makes no request. -/
  | stopped (stop : Stop)
  deriving DecidableEq, Repr

/-- The code that a command ends with. -/
def Outcome.exitCode : Outcome → Nat
  | done _ => 0
  | failed _ => 1
  | stopped stop => stop.exitCode

/-- What a command prints. -/
def Outcome.output : Outcome → String
  | done output => output
  | failed _ => ""
  | stopped stop => stop.output

/-- What a command reports in place of its output. -/
def Outcome.report? : Outcome → Option String
  | failed failure => some failure.report
  | _ => none

/-- Where settings are looked for if no file is named. -/
def defaultConfigPath : String :=
  "vipt.yaml"

variable {m : Type → Type} [Monad m]

/-- Reads the settings in a file. -/
def readConfig (readers : Readers) (host : Host m) (path : String) : ExceptT Failure m Config := do
  match ← host.read? path with
  | none => throw (.configUnread path)
  | some text =>
    match readers.config? text with
    | none => throw .configMalformed
    | some config => return config

/-- The settings in force: those of the file named, of the file in the usual place, or the
defaults. -/
def loadConfig (readers : Readers) (host : Host m) : Option String → ExceptT Failure m Config
  | some path => readConfig readers host path
  | none => do
    if ← host.has defaultConfigPath then readConfig readers host defaultConfigPath
    else return Config.default

/-- Reads the dump in a file, or on standard input. -/
def readDump (host : Host m) (path? : Option String) : ExceptT Failure m Dump.Session := do
  match path?.filter fun path => !isStandardInput path with
  | some path =>
    match ← host.read? path with
    | none => throw (.dumpUnread path)
    | some text => return Dump.read text
  | none =>
    match ← host.readInput? with
    | none => throw .inputUnread
    | some text => return Dump.read text

/-- An answer about rules that do not refer to anything that does not exist. -/
def fromRules (answer : Option String) : ExceptT Failure m String :=
  match answer with
  | some text => return text
  | none => throw .rulesBroken

/-- Gives out a graph: into a file, which is then named, or as what is printed. -/
def deliver (host : Host m) (origin : Origin) (rendering : String) :
    Option String → ExceptT Failure m String
  | none => return rendering
  | some path => do
    if ← host.write path rendering then return s!"✅ Wrote {origin.name} graph to {path}\n"
    else throw (.graphUnwritten path)

/-- Carries out a task under the settings in force, and gives what is printed. -/
def perform (host : Host m) (config : Config) : Task → ExceptT Failure m String
  | .flow dump origin format output => do
    let session ← readDump host (dump <|> config.dump)
    let origin := origin.getD config.origin
    let rendering ← fromRules (session.ruleset.render? origin (format.getD config.format))
    deliver host origin rendering (output <|> config.output)
  | .tables dump => do
    let session ← readDump host (dump <|> config.dump)
    fromRules (tableListing? session)
  | .hooks dump origin => do
    let session ← readDump host (dump <|> config.dump)
    fromRules (hookListing? session.ruleset (origin.getD config.origin))
  | .tokenize line => return argumentListing line

/-- Carries out a request. -/
def answer (readers : Readers) (host : Host m) (request : Request) : ExceptT Failure m String := do
  let config ← loadConfig readers host request.config
  perform host config request.task

/-- Carries out a command line. -/
def execute (readers : Readers) (host : Host m) (words : List String) : m Outcome :=
  match readers.request words with
  | .error stop => return .stopped stop
  | .ok request => do
    match ← (answer readers host request).run with
    | .ok output => return .done output
    | .error failure => return .failed failure

end PacketFlow.Command
