import PacketFlow.Ruleset.Basic

/-!
What can be wrong with a line of a dump. No fault stops the reading: the line is passed over or,
if only a target is missing, its rule is kept without that target.
-/
namespace PacketFlow.Dump

/-- What is wrong with a line. Tables are named as they were first written, chains and targets as
the line writes them. -/
inductive Fault where
  /-- A rule line that does not say to which chain the rule belongs. -/
  | missingAppendChain
  /-- A chain declaration or a rule before any table; the directive is given up to the name. -/
  | noCurrentTable (directive : String)
  /-- A chain declaration without a name. -/
  | malformedChain
  /-- A chain that its table has already. -/
  | duplicateChain (table chain : String)
  /-- A rule for a chain that its table does not have. -/
  | unknownChain (table chain : String)
  /-- A target that is neither a chain of the table nor a verdict. -/
  | unresolvedTarget (table : String) (transfer : Transfer) (target : String)
  deriving DecidableEq, Repr

/-- The fault as a phrase. -/
def Fault.text : Fault → String
  | missingAppendChain => "rule append without a chain name"
  | noCurrentTable directive => s!"'{directive}' before any table declaration"
  | malformedChain => "chain declaration without a name"
  | duplicateChain table chain => s!"chain '{chain}' declared twice in table '{table}'"
  | unknownChain table chain =>
    s!"chain '{chain}' does not exist in table '{table}', rule dropped"
  | unresolvedTarget table transfer target =>
    s!"{transfer.name} target '{target}' not found in table '{table}'"

/-- A fault and the number of the line it was found on, counted from one. -/
structure Warning where
  line : Nat
  fault : Fault
  deriving DecidableEq, Repr

/-- The warning as it is shown. -/
def Warning.message (w : Warning) : String :=
  s!"line {w.line}: {w.fault.text}"

end PacketFlow.Dump
