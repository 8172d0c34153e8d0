import PacketFlow.Command.Request

/-!
The reader of the command line. A command is named by a word, and options stand before or after it
as far as they are known there. An option's value is the next word or is attached to the option;
short options can be joined in one word. After two dashes every word is an operand. A command line
that breaks a rule is refused as a whole, and the first option that asks for help or for the version
is granted at once. Help can also be asked for by a word in the place of a command; one command may
follow it.
-/
namespace PacketFlow.Command

/-- Why a command line gives no request. -/
inductive Halt where
  /-- It breaks a rule. -/
  | misuse
  /-- It asks for help. -/
  | help
  /-- It asks for the version. -/
  | version
  deriving DecidableEq, Repr

/-- The commands. -/
inductive Verb where
  | flow
  | tables
  | hooks
  | tokenize
  deriving DecidableEq, Repr

/-- The word for a command. -/
def Verb.name : Verb → String
  | flow => "flow"
  | tables => "tables"
  | hooks => "hooks"
  | tokenize => "tokenize"

def Verb.named? (name : String) : Option Verb :=
  [flow, tables, hooks, tokenize].find? fun verb => verb.name == name

/-- The word that asks for help where a command could stand. -/
def helpWord : String :=
  "help"

/-- What a word for help asks about. -/
inductive Topic where
  /-- No further word has come. -/
  | all
  /-- A further word has named a command. -/
  | command
  deriving DecidableEq, Repr

/-- The options. -/
inductive Flag where
  | config
  | verbose
  | help
  | version
  | file
  | origin
  | format
  | output
  deriving DecidableEq, Repr

namespace Flag

/-- All options. -/
def all : List Flag :=
  [config, verbose, help, version, file, origin, format, output]

/-- The name of the option after two dashes. -/
def long : Flag → String
  | config => "config"
  | verbose => "verbose"
  | help => "help"
  | version => "version"
  | file => "file"
  | origin => "origin"
  | format => "format"
  | output => "output"

/-- The letter of the option after one dash. -/
def short? : Flag → Option Char
  | config => some 'c'
  | verbose => some 'v'
  | help => some 'h'
  | version => some 'V'
  | file => some 'f'
  | origin => none
  | format => none
  | output => some 'o'

def takesValue : Flag → Bool
  | verbose => false
  | help => false
  | version => false
  | _ => true

/-- Whether the option may stand after a command, or before any. -/
def isKnown : Flag → Option Verb → Bool
  | config, _ => true
  | verbose, _ => true
  | help, _ => true
  | version, verb => verb.isNone
  | file, verb => [some Verb.flow, some .tables, some .hooks].contains verb
  | origin, verb => [some Verb.flow, some .hooks].contains verb
  | format, verb => verb == some .flow
  | output, verb => verb == some .flow

/-- The option of that name among those known there. -/
def ofLong? (verb : Option Verb) (name : String) : Option Flag :=
  all.find? fun flag => flag.isKnown verb && flag.long == name

/-- The option of that letter among those known there. -/
def ofShort? (verb : Option Verb) (letter : Char) : Option Flag :=
  all.find? fun flag => flag.isKnown verb && flag.short? == some letter

end Flag

/-- The values given to options, each at most once. -/
structure Given where
  config : Option String
  file : Option String
  origin : Option Origin
  format : Option Format
  output : Option String
  deriving DecidableEq, Repr

namespace Given

/-- No values. -/
def empty : Given :=
  ⟨none, none, none, none, none⟩

/-- A path given now, unless one was given before. -/
def path (before : Option String) (value : String) : Except Halt (Option String) :=
  if before.isSome || value.isEmpty then .error .misuse else .ok (some value)

/-- A choice given now, unless one was given before. -/
def choice {α : Type} (before : Option α) (read : Option α) : Except Halt (Option α) :=
  if before.isSome || read.isNone then .error .misuse else .ok read

/-- Gives a value to an option. -/
def set (g : Given) (flag : Flag) (value : String) : Except Halt Given :=
  match flag with
  | .config => do return { g with config := ← path g.config value }
  | .file => do return { g with file := ← path g.file value }
  | .output => do return { g with output := ← path g.output value }
  | .origin => do return { g with origin := ← choice g.origin (Origin.ofText value).toOption }
  | .format => do return { g with format := ← choice g.format (Format.named? value) }
  | _ => .error .misuse

end Given

/-- What has been read of a command line. -/
structure Scan where
  /-- The command, once it has been named. -/
  verb : Option Verb
  /-- What was given before the command. -/
  outer : Given
  /-- What was given after the command, or so far. -/
  given : Given
  operand : Option String
  /-- What help is asked about, once a word has asked for it. -/
  topic : Option Topic
  /-- The option whose value is the next word. -/
  pending : Option Flag
  /-- Whether all further words are operands. -/
  isLiteral : Bool
  deriving DecidableEq, Repr

namespace Scan

/-- Nothing has been read. -/
def start : Scan :=
  ⟨none, .empty, .empty, none, none, none, false⟩

/-- Reads an option with the value attached to it, if there is one. No option may be waiting for its
value. -/
def takeFlag (s : Scan) (flag : Flag) (attached : Option String) : Except Halt Scan :=
  if s.pending.isSome then .error .misuse
  else
    match flag.takesValue, attached with
    | true, some value => do return { s with given := ← s.given.set flag value }
    | true, none => .ok { s with pending := some flag }
    | false, some _ => .error .misuse
    | false, none =>
      match flag with
      | .help => .error .help
      | .version => .error .version
      | _ => .ok s

/-- Reads what follows two dashes: a name, and after an equals sign a value. -/
def takeLong (s : Scan) (body : List Char) : Except Halt Scan :=
  let name := body.takeWhile (· != '=')
  let attached := match body.dropWhile (· != '=') with
    | [] => none
    | _ :: value => some (String.ofList value)
  match Flag.ofLong? s.verb (.ofList name) with
  | some flag => s.takeFlag flag attached
  | none => .error .misuse

/-- The value that follows a letter in the same word, with or without an equals sign before it. -/
def attachedValue : List Char → Option String
  | [] => none
  | '=' :: value => some (.ofList value)
  | value => some (.ofList value)

/-- Reads what follows one dash: letters, of which the first that takes a value takes the rest. -/
def takeShort (s : Scan) : List Char → Except Halt Scan
  | [] => .ok s
  | letter :: rest =>
    match Flag.ofShort? s.verb letter with
    | none => .error .misuse
    | some flag =>
      if flag.takesValue then s.takeFlag flag (attachedValue rest)
      else do (← s.takeFlag flag none).takeShort rest

/-- Reads an operand. Only one command has one. -/
def takeOperand (s : Scan) (word : String) : Except Halt Scan :=
  if s.verb == some .tokenize && s.operand.isNone then .ok { s with operand := some word }
  else .error .misuse

/-- Reads a word after the word for help. Only one can come, and it names a command, of which the
word for help is one here. -/
def takeTopic (s : Scan) (topic : Topic) (word : String) : Except Halt Scan :=
  if topic == .all && (word == helpWord || (Verb.named? word).isSome) then
    .ok { s with topic := some .command }
  else .error .misuse

/-- Reads a word without a dash in front: the value of an option, a command, or an operand. -/
def takePlain (s : Scan) (word : String) : Except Halt Scan :=
  match s.pending with
  | some flag => do return { s with given := ← s.given.set flag word, pending := none }
  | none =>
    if s.verb.isSome then s.takeOperand word
    else if word == helpWord then .ok { s with topic := some .all }
    else
      match Verb.named? word with
      | some verb => .ok { s with verb := some verb, outer := s.given, given := .empty }
      | none => .error .misuse

/-- Reads a word of which the dashes in front have a meaning. A dash alone is a word like any
other. -/
def takeDashed (s : Scan) (word : String) : Except Halt Scan :=
  match word.toList with
  | ['-', '-'] => .ok { s with isLiteral := true }
  | '-' :: '-' :: body => s.takeLong body
  | '-' :: letter :: rest => s.takeShort (letter :: rest)
  | _ => s.takePlain word

/-- Reads a word. -/
def take (s : Scan) (word : String) : Except Halt Scan :=
  match s.topic with
  | some topic => s.takeTopic topic word
  | none => if s.isLiteral then s.takeOperand word else s.takeDashed word

/-- The task, if a command has been named and has its operand. -/
def task? (s : Scan) : Option Task :=
  match s.verb with
  | none => none
  | some .flow => some (.flow s.given.file s.given.origin s.given.format s.given.output)
  | some .tables => some (.tables s.given.file)
  | some .hooks => some (.hooks s.given.file s.given.origin)
  | some .tokenize => s.operand.map .tokenize

/-- The request that has been read, unless a word has asked for help. Settings named after the
command win over those named before. -/
def finish (s : Scan) : Except Halt Request :=
  match s.topic, s.pending, s.task? with
  | some _, _, _ => .error .help
  | none, none, some task => .ok ⟨s.given.config <|> s.outer.config, task⟩
  | none, _, _ => .error .misuse

end Scan

/-- Reads a command line. -/
def Request.ofWords (words : List String) : Except Halt Request := do
  (← words.foldlM Scan.take .start).finish

/-- The program's name and version. -/
def versionText : String :=
  "vipt 0.1.0\n"

/-- The form of command lines. -/
def helpText : String :=
  "Usage: vipt [-c FILE] [-v]... COMMAND\n\n" ++
  "  flow [-f FILE] [--origin ORIGIN] [--format dot|json] [-o FILE]\n" ++
  "  tables [-f FILE]\n" ++
  "  hooks [-f FILE] [--origin ORIGIN]\n" ++
  "  tokenize LINE\n"

/-- How a run ends without a request: what is asked for is printed, a misuse is reported. -/
def Halt.stop : Halt → Stop
  | misuse => ⟨2, "", helpText⟩
  | help => ⟨0, helpText, ""⟩
  | version => ⟨0, versionText, ""⟩

/-- The request of a command line, or how it ends the run. -/
def readWords (words : List String) : Except Stop Request :=
  (Request.ofWords words).mapError Halt.stop

end PacketFlow.Command
