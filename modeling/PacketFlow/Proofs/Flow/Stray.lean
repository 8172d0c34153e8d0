import PacketFlow.Proofs.Flow.Reach

/-!
Calls that lead nowhere. Whether the target of a rule exists is not looked at when the rule is added.
A packet's ways cannot be shown exactly if some walk leads the packet to such a rule: the walk may
come to chains any number of times, and rules that no walk leads to may have any targets.
-/
namespace PacketFlow.Ruleset

variable {rs : Ruleset} {origin : Origin} {g : Graph}

/-- A packet is led astray. Calls that follow each other from a built-in chain on lead through chains
of tables that have rules, and one more call leads to a chain that does not exist. -/
structure Strays (rs : Ruleset) (origin : Origin) (start : ChainId) (calls : List Call)
    (stray : Call) : Prop where
  start_mem : start ∈ rs.builtinChains origin
  linked : rs.Linked start (calls ++ [stray])
  hasRules : ∀ c ∈ start :: calls.map Call.target, rs.HasRules c
  not_isExtension : ∀ call ∈ calls, ¬rs.IsExtension call.target
  absent : rs.chain? stray.target = none

theorem Linked.concat {c : ChainId} {calls : List Call} {call next : Call}
    (hLinked : rs.Linked c (calls ++ [call])) (hNext : rs.Calls call.target next) :
    rs.Linked c (calls ++ [call] ++ [next]) := by
  induction calls generalizing c with
  | nil => exact ⟨hLinked.1, hNext, trivial⟩
  | cons first calls ih => exact ⟨hLinked.1, ih hLinked.2⟩

/-- A packet reaches the chain that makes the last of calls that follow each other. -/
theorem Linked.exists_reached {c : ChainId} {calls : List Call} {last : Call}
    (hLinked : rs.Linked c (calls ++ [last])) (hReached : rs.Reached origin c)
    (hTable : ¬rs.IsExtension c) (hTables : ∀ call ∈ calls, ¬rs.IsExtension call.target) :
    ∃ d, rs.Reached origin d ∧ ¬rs.IsExtension d ∧ rs.Calls d last := by
  induction calls generalizing c with
  | nil => exact ⟨c, hReached, hTable, hLinked.1⟩
  | cons call calls ih =>
      obtain ⟨hFirst, hLater⟩ := List.forall_mem_cons.1 hTables
      exact ih hLinked.2 (.call hReached hTable hLinked.1) hFirst hLater

/-- Calls that follow each other lead to every chain of a table that has rules and is reached. -/
theorem Reached.exists_linked {c : ChainId} (hReached : rs.Reached origin c)
    (hTable : ¬rs.IsExtension c) (hRules : rs.HasRules c) :
    ∃ start calls, start ∈ rs.builtinChains origin ∧
      (∀ next, rs.Calls c next → rs.Linked start (calls ++ [next])) ∧
      (∀ d ∈ start :: calls.map Call.target, rs.HasRules d) ∧
      ∀ call ∈ calls, ¬rs.IsExtension call.target := by
  induction hReached with
  | @builtin c hMem =>
      exact ⟨c, [], hMem, fun next hNext => ⟨hNext, trivial⟩, List.forall_mem_singleton.2 hRules,
        List.forall_mem_nil _⟩
  | @call c call _ hOwner hCall ih =>
      obtain ⟨start, calls, hStart, hLinked, hAll, hTables⟩ := ih hOwner hCall.hasRules
      refine ⟨start, calls ++ [call], hStart, fun next hNext => (hLinked call hCall).concat hNext,
        ?_, ?_⟩
      · rw [List.map_append, ← List.cons_append, List.forall_mem_append]
        exact ⟨hAll, List.forall_mem_singleton.2 hRules⟩
      · rw [List.forall_mem_append]
        exact ⟨hTables, List.forall_mem_singleton.2 hTable⟩

namespace Consistent

variable (h : rs.Consistent)

include h

/-- Where the ways of a packet are shown, every call of a chain of a table that it reaches leads to a
chain that exists. The call has its vertex on the level that some open way leads to. -/
theorem exists_chain?_of_calls (hGraph : rs.traversal? origin = some g) {c : ChainId} {call : Call}
    (hReached : rs.Reached origin c) (hTable : ¬rs.IsExtension c) (hCall : rs.Calls c call) :
    ∃ chain, rs.chain? call.target = some chain := by
  obtain ⟨way, approach, hOpens, hLeads⟩ := hReached.exists_way
  obtain ⟨outer, rest, hOuter, hPath⟩ := exists_way_of_leads hOpens hLeads hCall.hasRules hTable
  have hEntry : .chain (some (call.rule, call.transfer)) call.target ∈
      rs.entries origin (outer.path []) := by
    rw [hPath]
    exact h.chain_mem_entries.2 hCall
  obtain ⟨v, -, label, chain, -, hChain, -⟩ := h.exists_at?_of_entry hGraph hOuter hEntry
  exact ⟨chain, hChain⟩

theorem not_strays (hGraph : rs.traversal? origin = some g) {start : ChainId} {calls : List Call}
    {stray : Call} : ¬rs.Strays origin start calls stray := by
  intro hStrays
  obtain ⟨c, hReached, hTable, hCall⟩ := hStrays.linked.exists_reached (.builtin hStrays.start_mem)
    (h.not_isExtension_of_mem_builtinChains hStrays.start_mem) hStrays.not_isExtension
  obtain ⟨chain, hChain⟩ := h.exists_chain?_of_calls hGraph hReached hTable hCall
  rw [hStrays.absent] at hChain
  cases hChain

theorem exists_traversal?_of_not_strays
    (hNone : ¬∃ start calls stray, rs.Strays origin start calls stray) :
    ∃ g, rs.traversal? origin = some g := by
  refine h.exists_traversal?_of_closed (h.closed_reached fun c call hReached hTable hCall => ?_)
    fun c hMem => Reached.builtin hMem
  by_contra hAbsent
  obtain ⟨start, calls, hStart, hLinked, hRules, hTables⟩ :=
    hReached.exists_linked hTable hCall.hasRules
  refine hNone ⟨start, calls, call, hStart, hLinked call hCall, hRules, hTables, ?_⟩
  rwa [Option.eq_none_iff_forall_ne_some, ← not_exists]

end Consistent

/-- The ways of a packet cannot be shown if and only if it is led astray, on whatever walk and by
whichever target of a rule. Otherwise they have a graph. -/
theorem traversal?_eq_none_iff (hBuilt : rs.Built) (origin : Origin) :
    (rs.traversal? origin = none ↔ ∃ start calls stray, rs.Strays origin start calls stray) ∧
      ((∃ g, rs.traversal? origin = some g) ↔
        ¬∃ start calls stray, rs.Strays origin start calls stray) := by
  have h := hBuilt.consistent
  have hShown : (∃ g, rs.traversal? origin = some g) ↔
      ¬∃ start calls stray, rs.Strays origin start calls stray := by
    refine ⟨?_, h.exists_traversal?_of_not_strays⟩
    rintro ⟨g, hGraph⟩ ⟨start, calls, stray, hStrays⟩
    exact h.not_strays hGraph hStrays
  refine ⟨?_, hShown⟩
  rw [Option.eq_none_iff_forall_ne_some, ← not_exists, hShown, not_not]

/-- An input chain that calls itself before it calls a chain whose rule has, beside a jump, a goto
that leads nowhere. -/
def wandering : Ruleset :=
  build [.openTable "filter", .declareChain ⟨0⟩ "INPUT" "DROP", .declareChain ⟨0⟩ "lost" "-",
    .appendRule ⟨0⟩ { RuleBody.empty with jump := some ⟨0⟩, goto := some ⟨1⟩ },
    .appendRule ⟨1⟩ { RuleBody.empty with jump := some ⟨0⟩, goto := some ⟨2⟩ }]

theorem traversal?_eq_none_iff_wandering :
    wandering.Built ∧ wandering.Strays .outside ⟨0⟩
      [⟨⟨0⟩, .jump, ⟨0⟩⟩, ⟨⟨0⟩, .goto, ⟨1⟩⟩] ⟨⟨1⟩, .goto, ⟨2⟩⟩ ∧
        wandering.traversal? .outside = none := by
  have hStrays : wandering.Strays .outside ⟨0⟩
      [⟨⟨0⟩, .jump, ⟨0⟩⟩, ⟨⟨0⟩, .goto, ⟨1⟩⟩] ⟨⟨1⟩, .goto, ⟨2⟩⟩ :=
    ⟨by decide +kernel, by decide +kernel, by decide +kernel, by decide +kernel, by decide +kernel⟩
  exact ⟨⟨_, rfl⟩, hStrays, (traversal?_eq_none_iff ⟨_, rfl⟩ .outside).1.2 ⟨_, _, _, hStrays⟩⟩

end PacketFlow.Ruleset
