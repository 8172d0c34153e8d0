import PacketFlow.Ruleset.Basic

/-!
The texts by which a reader is shown a chain or a rule. A rule's label says where the rule stands
and, after a bar, where it sends the packet.
-/
namespace PacketFlow.Ruleset

variable (rs : Ruleset)

/-- What a chain is called: by table and name, or by the extension it stands for. -/
def chainLabel? (id : ChainId) : Option String := do
  let chain ← rs.chain? id
  match chain.table, chain.isExtension with
  | some tableId, false =>
    let table ← rs.table? tableId
    return s!"table: {table.name}, chain: {chain.name}"
  | _, _ => return s!"target: {chain.name}"

variable {rs} in
theorem chainLabel?_of_table {id : ChainId} {chain : Chain} {t : TableId}
    (hChain : rs.chain? id = some chain) (hOwner : chain.table = some t)
    (hDeclared : chain.isExtension = false) : rs.chainLabel? id =
      (rs.table? t).map fun table => s!"table: {table.name}, chain: {chain.name}" := by
  rw [chainLabel?, hChain, Option.bind_eq_bind, Option.bind_some, hOwner, hDeclared]
  exact (Option.map_eq_bind ..).symm

variable {rs} in
theorem chainLabel?_of_outside {id : ChainId} {chain : Chain} (hChain : rs.chain? id = some chain)
    (hOutside : chain.table = none ∨ chain.isExtension = true) :
    rs.chainLabel? id = some s!"target: {chain.name}" := by
  rw [chainLabel?, hChain, Option.bind_eq_bind, Option.bind_some]
  rcases hOutside with hNone | hExtension
  · simp [hNone]
  · simp [hExtension]

/-- Where a rule sends a packet that it matches. Of a rule that has both a jump and a goto, only the
jump is told, and the goto is not looked at. -/
def destinationLabel? (rule : Rule) : Option String :=
  match rule.jump, rule.goto with
  | some target, _ => do
    let chain ← rs.chain? target
    return if chain.isExtension then s!"Extension target: {chain.name}"
      else s!"Next chain: {chain.name}"
  | none, some target => do
    let chain ← rs.chain? target
    return s!"Goto chain: {chain.name}"
  | none, none => do
    let chain ← rs.chain? rule.chain
    return s!"Stay within chain: {chain.name}"

/-- What a rule is called: its chain's label, its position, and where it sends the packet. -/
def ruleLabel? (id : RuleId) : Option String := do
  let rule ← rs.rule? id
  let place ← rs.chainLabel? rule.chain
  let destination ← rs.destinationLabel? rule
  return s!"{place}, rule: {rule.position}|{destination}"

end PacketFlow.Ruleset
