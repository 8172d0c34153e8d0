import PacketFlow.Command.Request

/-!
What is relied on of the readers of command lines and of files of settings, whichever these are. A
request that is written out in full has to be understood, and a command line that makes none ends the
run with the usual codes, and prints nothing if it is refused. Of files of settings nothing is relied
on: what a file sets is what the reader finds in it, and the rest is as it is by default.
-/
namespace PacketFlow

theorem Origin.named?_eq_some_iff {name : String} {origin : Origin} :
    named? name = some origin ↔ name ∈ origin.names := by
  have hNames : ∀ origin ∈ all, ∀ name ∈ origin.names, named? name = some origin := by decide
  refine ⟨fun hNamed => ?_, hNames origin (by cases origin <;> decide) name⟩
  simpa using List.find?_some hNamed

theorem Format.named?_eq_some_iff {name : String} {format : Format} :
    named? name = some format ↔ name = format.name := by
  constructor
  · intro hNamed
    have hName := List.find?_some hNamed
    exact (eq_of_beq hName).symm
  · rintro rfl
    cases format <;> decide

/-- The settings of a file: what it sets, and the defaults of the rest. -/
structure Settings.Gives (settings : Settings) (config : Config) : Prop where
  dump : config.dump = settings.dump
  origin : match settings.origin with
    | none => config.origin = .forward
    | some name => name ∈ config.origin.names
  format : match settings.format with
    | none => config.format = .dot
    | some name => name = config.format.name
  output : config.output = settings.output

theorem Config.ofSettings?_eq_some_iff {settings : Settings} {config : Config} :
    ofSettings? settings = some config ↔ settings.Gives config := by
  have hOrigin {origin : Origin} :
      settings.origin.elim (some default.origin) Origin.named? = some origin ↔
        match settings.origin with
        | none => origin = .forward
        | some name => name ∈ origin.names := by
    cases settings.origin with
    | none => simp [default, eq_comm]
    | some name => exact Origin.named?_eq_some_iff
  have hFormat {format : Format} :
      settings.format.elim (some default.format) Format.named? = some format ↔
        match settings.format with
        | none => format = .dot
        | some name => name = format.name := by
    cases settings.format with
    | none => simp [default, eq_comm]
    | some name => exact Format.named?_eq_some_iff
  simp only [ofSettings?, Option.bind_eq_bind, Option.bind_eq_some_iff, Option.pure_def,
    Option.some.injEq]
  constructor
  · rintro ⟨origin, hFound, format, hForm, rfl⟩
    exact ⟨rfl, hOrigin.1 hFound, hFormat.1 hForm, rfl⟩
  · intro hGives
    obtain ⟨dump, origin, format, output⟩ := config
    obtain ⟨rfl, hFound, hForm, rfl⟩ := hGives
    exact ⟨origin, hOrigin.2 hFound, format, hFormat.2 hForm, rfl⟩

namespace Command

/-- An option that is written out in full, with its value. -/
def spelt (name value : String) : String :=
  "--" ++ name ++ "=" ++ value

/-- The words that spell a task out, the name of the command first. -/
def Task.words : Task → List String
  | .flow dump origin format output =>
    "flow" :: (dump.toList.map (spelt "file") ++ origin.toList.map (spelt "origin" ·.name) ++
      format.toList.map (spelt "format" ·.name) ++ output.toList.map (spelt "output"))
  | .tables dump => "tables" :: dump.toList.map (spelt "file")
  | .hooks dump origin =>
    "hooks" :: (dump.toList.map (spelt "file") ++ origin.toList.map (spelt "origin" ·.name))
  | .tokenize line => ["tokenize", "--", line]

/-- The paths in a task. -/
def Task.paths : Task → List String
  | .flow dump _ _ output => dump.toList ++ output.toList
  | .tables dump => dump.toList
  | .hooks dump _ => dump.toList
  | .tokenize _ => []

namespace Request

/-- The words that spell a request out. -/
def words (request : Request) : List String :=
  request.config.toList.map (spelt "config") ++ request.task.words

/-- Whether a request can be spelt out: an empty path cannot. -/
def IsSpellable (request : Request) : Prop :=
  "" ∉ request.config.toList ++ request.task.paths

end Request

/-- What is relied on of the reader of command lines. -/
structure Readers.Lawful (readers : Readers) : Prop where
  /-- A request that is spelt out is the one that is read. -/
  request_words {request : Request} (hSpellable : request.IsSpellable) :
    readers.request request.words = .ok request
  /-- A command line that makes no request is granted what it asks for instead, or it is refused, and then
  nothing is printed. -/
  stop_cases {words : List String} {stop : Stop} (hStop : readers.request words = .error stop) :
    stop.exitCode = 0 ∨ stop.exitCode = 2 ∧ stop.output = ""

theorem Readers.config?_eq_some_iff {readers : Readers} {text : String} {config : Config} :
    readers.config? text = some config ↔
      ∃ settings, readers.settings? text = some settings ∧ settings.Gives config := by
  simp only [Readers.config?, Option.bind_eq_bind, Option.bind_eq_some_iff,
    Config.ofSettings?_eq_some_iff]

end Command

end PacketFlow
