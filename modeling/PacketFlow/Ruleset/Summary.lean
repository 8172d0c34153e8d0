import PacketFlow.Ruleset.Basic

/-!
Tables and chains with the number of their rules.
-/
namespace PacketFlow

/-- A chain in a summary: its name, its policy and how many rules it has. -/
structure ChainSummary where
  name : String
  policy : String
  rules : Nat
  deriving DecidableEq, Repr

/-- A table in a summary, with its chains in order of declaration. -/
structure TableSummary where
  name : String
  chains : List ChainSummary
  deriving DecidableEq, Repr

/-- How many rules the chains of the table have together. -/
def TableSummary.ruleCount (table : TableSummary) : Nat :=
  (table.chains.map ChainSummary.rules).foldr (· + ·) 0

def Chain.summary (chain : Chain) : ChainSummary :=
  ⟨chain.name, chain.policy, chain.rules.length⟩

/-- The summary of one table. -/
def Ruleset.tableSummary? (rs : Ruleset) (id : TableId) : Option TableSummary := do
  let table ← rs.table? id
  let chains ← rs.chainsOf? id
  return ⟨table.name, chains.map fun (_, chain) => chain.summary⟩

/-- The summaries of all tables, in order of creation. -/
def Ruleset.summary? (rs : Ruleset) : Option (List TableSummary) :=
  rs.tableIds.mapM rs.tableSummary?

end PacketFlow
