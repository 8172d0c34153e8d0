import PacketFlow.Text.Fold

/-!
A firewall's rules in memory: tables own chains, and chains own rules. Everything is stored once, in
order of creation, and refers to the rest by number. Tables and chains only ever grow, so a number
once given out stays valid.

Names of tables, and names of chains within one table, are compared without regard to ASCII case.
-/
namespace PacketFlow

/-- The number of a table, in order of creation. -/
structure TableId where
  index : Nat
  deriving DecidableEq, Repr

/-- The number of a chain. Extension targets are numbered along with the chains of the tables. -/
structure ChainId where
  index : Nat
  deriving DecidableEq, Repr

/-- The number of a rule, counted over all chains. -/
structure RuleId where
  index : Nat
  deriving DecidableEq, Repr

/-- A table: its name as first written, and its chains in order of declaration. -/
structure Table where
  name : String
  chains : List ChainId
  deriving DecidableEq, Repr

/-- The policy written for a chain that has none. -/
def unsetPolicy : String :=
  "-"

/-- A chain of a table, or the target of an extension such as `SNAT`, which belongs to no table.
Extension targets decide a packet's fate themselves and are never walked through. -/
structure Chain where
  name : String
  policy : String
  table : Option TableId
  isExtension : Bool
  rules : List RuleId
  deriving DecidableEq, Repr

/-- The two ways in which a rule can hand a packet to another chain. After a jump the packet comes
back to the rule's chain, after a goto to the chain that called the rule's chain. -/
inductive Transfer where
  | jump
  | goto
  deriving DecidableEq, Repr

/-- The word for a transfer. -/
def Transfer.name : Transfer → String
  | jump => "jump"
  | goto => "goto"

/-- What a rule says, apart from where it stands. A property of packets that the rule does not ask
about is absent. -/
structure RuleBody where
  comment : Option String
  protocol : Option String
  source : Option String
  destination : Option String
  inInterface : Option String
  outInterface : Option String
  jump : Option ChainId
  goto : Option ChainId
  deriving DecidableEq, Repr

/-- A rule that says nothing: it matches every packet and hands it nowhere. -/
def RuleBody.empty : RuleBody :=
  ⟨none, none, none, none, none, none, none, none⟩

/-- A match as it is shown: what it asks for, or `any` if it asks for nothing. -/
def shownMatch (condition : Option String) : String :=
  condition.getD "any"

/-- Where a transfer of the rule leads, if the rule has it. -/
def RuleBody.target? (body : RuleBody) : Transfer → Option ChainId
  | .jump => body.jump
  | .goto => body.goto

/-- The transfers of a rule and where they lead, the jump first. -/
def RuleBody.targets (body : RuleBody) : List (Transfer × ChainId) :=
  [Transfer.jump, Transfer.goto].filterMap fun transfer =>
    (body.target? transfer).map (transfer, ·)

/-- A rule in its place: the chain that owns it, and its position there, counted from one. -/
structure Rule extends RuleBody where
  chain : ChainId
  position : Nat
  deriving DecidableEq, Repr

/-- All tables, chains and rules, each in order of creation. The index has the tables under their names
in small letters, in order of creation as well. -/
structure Ruleset where
  tables : Array Table
  chains : Array Chain
  rules : Array Rule
  tableIndex : List (String × TableId)
  deriving DecidableEq, Repr

/-- Why a chain cannot be declared. -/
inductive ChainRefusal where
  | unknownTable (table : TableId)
  | duplicate (table chain : String)
  deriving DecidableEq, Repr

/-- The refusal as a sentence. The table is named as it was first written, the chain as it was
asked for. -/
def ChainRefusal.message : ChainRefusal → String
  | unknownTable table => s!"table id {table.index} does not exist"
  | duplicate table chain => s!"chain '{chain}' already exists in table '{table}'"

namespace Ruleset

/-- No tables, no chains, no rules. -/
def empty : Ruleset :=
  ⟨#[], #[], #[], []⟩

variable (rs : Ruleset)

def table? (id : TableId) : Option Table :=
  rs.tables[id.index]?

def chain? (id : ChainId) : Option Chain :=
  rs.chains[id.index]?

def rule? (id : RuleId) : Option Rule :=
  rs.rules[id.index]?

variable {rs} in
theorem lt_of_table?_eq_some {id : TableId} {table : Table} (hTable : rs.table? id = some table) :
    id.index < rs.tables.size :=
  (Array.getElem?_eq_some_iff.1 hTable).1

variable {rs} in
theorem lt_of_chain?_eq_some {id : ChainId} {chain : Chain} (hChain : rs.chain? id = some chain) :
    id.index < rs.chains.size :=
  (Array.getElem?_eq_some_iff.1 hChain).1

variable {rs} in
theorem lt_of_rule?_eq_some {id : RuleId} {rule : Rule} (hRule : rs.rule? id = some rule) :
    id.index < rs.rules.size :=
  (Array.getElem?_eq_some_iff.1 hRule).1

/-- The numbers of all tables, in order of creation. -/
def tableIds : List TableId :=
  rs.tableIndex.map Prod.snd

/-- The table of that name. -/
def tableNamed? (name : String) : Option TableId :=
  rs.tableIndex.lookup (Text.fold name)

/-- The chain of that name within a table; there is none if the table does not exist. -/
def chainNamed? (table : TableId) (name : String) : Option ChainId := do
  let owner ← rs.table? table
  owner.chains.find? fun id => (rs.chain? id).any fun chain => Text.sameName chain.name name

/-- Makes sure that there is a table of that name, and gives its number. A table that exists keeps
the spelling it has. -/
def openTable (name : String) : TableId × Ruleset :=
  match rs.tableNamed? name with
  | some id => (id, rs)
  | none =>
    let id : TableId := ⟨rs.tables.size⟩
    (id, { rs with
      tables := rs.tables.push ⟨name, []⟩
      tableIndex := rs.tableIndex ++ [(Text.fold name, id)] })

/-- Adds a chain at the end of a table, unless the table has a chain of that name. -/
def declareChain (table : TableId) (name policy : String) :
    Except ChainRefusal (ChainId × Ruleset) :=
  match rs.table? table with
  | none => .error (.unknownTable table)
  | some owner =>
    match rs.chainNamed? table name with
    | some _ => .error (.duplicate owner.name name)
    | none =>
      let id : ChainId := ⟨rs.chains.size⟩
      .ok (id, { rs with
        tables := rs.tables.modify table.index fun t => { t with chains := t.chains ++ [id] }
        chains := rs.chains.push ⟨name, policy, some table, false, []⟩ })

/-- Adds an extension target. Each use of an extension has its own. -/
def addExtension (name : String) : ChainId × Ruleset :=
  (⟨rs.chains.size⟩, { rs with chains := rs.chains.push ⟨name, unsetPolicy, none, true, []⟩ })

/-- Adds a rule at the end of a chain, if there is that chain. Whether the rule's targets exist is
not looked at. -/
def appendRule? (chain : ChainId) (body : RuleBody) : Option (RuleId × Ruleset) := do
  let owner ← rs.chain? chain
  let id : RuleId := ⟨rs.rules.size⟩
  return (id, { rs with
    chains := rs.chains.modify chain.index fun c => { c with rules := c.rules ++ [id] }
    rules := rs.rules.push ⟨body, chain, owner.rules.length + 1⟩ })

/-- The chains of a table, in order of declaration. -/
def chainsOf? (table : TableId) : Option (List (ChainId × Chain)) := do
  let owner ← rs.table? table
  owner.chains.mapM fun id => (rs.chain? id).map (id, ·)

/-- The rules of a chain, in order. -/
def rulesOf? (chain : ChainId) : Option (List (RuleId × Rule)) := do
  let owner ← rs.chain? chain
  owner.rules.mapM fun id => (rs.rule? id).map (id, ·)

end Ruleset

end PacketFlow
