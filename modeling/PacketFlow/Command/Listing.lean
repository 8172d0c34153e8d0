import PacketFlow.Dump.Session
import PacketFlow.Flow.Traversal
import PacketFlow.Ruleset.Summary

/-!
The listings that commands print: the tables of a dump with their chains, the built-in chains that a
packet comes to, and the flags of a rule line.
-/
namespace PacketFlow.Command

/-- A text with blanks after it up to a width, counted in characters. -/
def padded (width : Nat) (s : String) : String :=
  s ++ .ofList (List.replicate (width - s.length) ' ')

/-- Texts with their numbers, counted from one, each on a line. -/
def numbered (items : List String) : String :=
  .join ((items.zipIdx 1).map fun (item, number) => s!"  {number}. {item}\n")

/-- The line for a chain. -/
def chainLine (chain : ChainSummary) : String :=
  let name := padded 32 chain.name
  let policy := padded 8 chain.policy
  s!"    {name} {policy} {chain.rules} rules\n"

/-- The lines for a table, with an empty line above. -/
def tableLines (table : TableSummary) : String :=
  s!"\n  {table.name} ({table.ruleCount} rules)\n" ++ .join (table.chains.map chainLine)

/-- The lines for the warnings of a reading, if there are any. -/
def warningLines (warnings : List Dump.Warning) : String :=
  if warnings.isEmpty then ""
  else
    s!"\n⚠️  {warnings.length} import warning(s):\n" ++
      .join (warnings.map fun warning => s!"   {warning.message}\n")

/-- The tables and chains of a dump, with how many rules they have, and the warnings. -/
def tableListing? (session : Dump.Session) : Option String := do
  let tables ← session.ruleset.summary?
  return s!"Tables ({tables.length}):\n" ++ .join (tables.map tableLines) ++
    warningLines session.warnings.toList

/-- A built-in chain and how many rules it has. -/
def hookLine? (rs : Ruleset) (id : ChainId) : Option String := do
  let chain ← rs.chain? id
  let label ← rs.chainLabel? id
  return s!"{label} [{chain.rules.length} rules]"

/-- The built-in chains that a packet comes to. -/
def hookListing? (rs : Ruleset) (origin : Origin) : Option String := do
  let lines ← (rs.builtinChains origin).mapM (hookLine? rs)
  return s!"Default flow for {origin.name} packets ({lines.length} chains):\n" ++ numbered lines

/-- The flags of a rule line with their values. -/
def argumentListing (line : String) : String :=
  numbered ((Dump.arguments line).map Dump.Argument.text)

end PacketFlow.Command
