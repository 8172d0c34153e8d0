import PacketFlow.Dump.Argument
import PacketFlow.Ruleset.Basic

/-!
What one line of a dump asks for, by its first characters alone: `*` opens a table, `:` declares a
chain, `-A` appends a rule. Comments, `COMMIT` and all other lines ask for nothing.
-/
namespace PacketFlow.Dump

/-- A rule line, read as flags with values. -/
structure RuleLine where
  args : List Argument
  deriving DecidableEq, Repr

namespace RuleLine

/-- The value of the first pair under one of these flags, if that pair has a value. -/
def value? (rule : RuleLine) (spellings : List String) : Option String :=
  (find? spellings rule.args).bind Argument.value?

/-- The chain that the rule is for. -/
def chainName? (rule : RuleLine) : Option String :=
  rule.value? ["-A"]

/-- The flags under which a target of that kind is given. -/
def targetFlags : Transfer → List String
  | .jump => ["-j", "--jump"]
  | .goto => ["-g", "--goto"]

/-- The name given for a target. A flag without a value names `true`. -/
def targetName? (rule : RuleLine) (transfer : Transfer) : Option String :=
  (find? (targetFlags transfer) rule.args).map Argument.reading

/-- A comment without the double quotes at its two ends, however many there are. -/
def stripQuotes (comment : String) : String :=
  .ofList ((comment.toList.dropWhile (· == '"')).reverse.dropWhile (· == '"')).reverse

/-- What the rule says, given where its targets were found. -/
def body (rule : RuleLine) (jump goto : Option ChainId) : RuleBody where
  comment := (rule.value? ["--comment"]).map stripQuotes
  protocol := rule.value? ["-p", "--protocol"]
  source := rule.value? ["-s", "--source"]
  destination := rule.value? ["-d", "--destination"]
  inInterface := rule.value? ["-i", "--in-interface"]
  outInterface := rule.value? ["-o", "--out-interface"]
  jump := jump
  goto := goto

end RuleLine

/-- What a line asks for. -/
inductive Directive where
  | openTable (name : String)
  /-- A chain declaration; the name may be missing. -/
  | declareChain (name : Option String) (policy : String)
  | appendRule (rule : RuleLine)
  | nothing
  deriving DecidableEq, Repr

/-- The declaration of a chain, given what follows the colon: the name, and the policy after it. -/
def Directive.ofDeclaration (text : String) : Directive :=
  match Text.words text with
  | [] => .declareChain none unsetPolicy
  | [name] => .declareChain (some name) unsetPolicy
  | name :: policy :: _ => .declareChain (some name) policy

/-- Reads a line. White space at its ends does not matter. -/
def Directive.ofLine (line : String) : Directive :=
  let line := Text.trim line
  match line.toList with
  | '*' :: name => .openTable (Text.trim (.ofList name))
  | ':' :: declaration => .ofDeclaration (.ofList declaration)
  | '-' :: 'A' :: _ => .appendRule ⟨arguments line⟩
  | _ => .nothing

end PacketFlow.Dump
