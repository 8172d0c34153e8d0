import PacketFlow.Proofs.Dump.Step
import PacketFlow.Proofs.Flow.Rendering

/-!
Lookups while a dump is read, and after it. Strict reading gives no answer where the number of a table,
a chain or a rule is looked up that is not in use. It gives the same session as reading, whatever the
lines are, and what was read can be labelled, summed up and rendered.
-/
namespace PacketFlow.Dump

namespace Session

/-- The table that is open. It must exist. -/
def strictOpenTable? (s : Session) : Option (Option (TableId × Table)) :=
  s.current.mapM fun id => (s.ruleset.table? id).map (id, ·)

/-- Declares a chain in the open table, with strict lookups. -/
def strictDeclareChain? (s : Session) (name? : Option String) (policy : String) : Option Session :=
  match name? with
  | none => some (s.warn .malformedChain)
  | some name => do
    match ← s.strictOpenTable? with
    | none => return s.warn (.noCurrentTable s!":{name}")
    | some (id, table) =>
      match ← s.ruleset.strictDeclareChain? id name policy with
      | .ok (_, ruleset) => return { s with ruleset := ruleset }
      | .error _ => return s.warn (.duplicateChain table.name name)

/-- Looks for a target among the chains of a table, with strict lookups. -/
def strictResolve? (s : Session) (id : TableId) (table : Table) (transfer : Transfer)
    (name? : Option String) : Option (Option ChainId × Session) :=
  match name? with
  | none => some (none, s)
  | some name => do
    match ← s.ruleset.strictChainNamed? id name with
    | some chain => return (some chain, s)
    | none =>
      if isVerdict name then return (none, s)
      else return (none, s.warn (.unresolvedTarget table.name transfer name))

/-- Finds the target of a jump, with strict lookups. -/
def strictResolveJump? (s : Session) (id : TableId) (table : Table) (name? : Option String) :
    Option (Option ChainId × Session) :=
  match name?.filter isExtensionName with
  | some name =>
    let (chain, ruleset) := s.ruleset.addExtension name
    some (some chain, { s with ruleset := ruleset })
  | none => s.strictResolve? id table .jump name?

/-- Adds a rule to a chain of the open table, with strict lookups. The chain must exist. -/
def strictPlaceRule? (s : Session) (id : TableId) (table : Table) (chain : ChainId)
    (rule : RuleLine) : Option Session := do
  let (jump, s) ← s.strictResolveJump? id table (rule.targetName? .jump)
  let (goto, s) ← s.strictResolve? id table .goto (rule.targetName? .goto)
  let (_, ruleset) ← s.ruleset.appendRule? chain (rule.body jump goto)
  return { s with ruleset := ruleset }

/-- Adds a rule to the chain that its line names, with strict lookups. -/
def strictAppendRule? (s : Session) (rule : RuleLine) : Option Session :=
  match rule.chainName? with
  | none => some (s.warn .missingAppendChain)
  | some name => do
    match ← s.strictOpenTable? with
    | none => return s.warn (.noCurrentTable s!"-A {name}")
    | some (id, table) =>
      match ← s.ruleset.strictChainNamed? id name with
      | none => return s.warn (.unknownChain table.name name)
      | some chain => s.strictPlaceRule? id table chain rule

/-- Does what a line asks for, with strict lookups. -/
def strictObey? (s : Session) : Directive → Option Session
  | .openTable name => some (s.openTable name)
  | .declareChain name? policy => s.strictDeclareChain? name? policy
  | .appendRule rule => s.strictAppendRule? rule
  | .nothing => some s

/-- Reads one line, with strict lookups. -/
def strictReadLine? (s : Session) (line : String) : Option Session :=
  { s with line := s.line + 1 }.strictObey? (.ofLine line)

variable {s : Session} {id : TableId} {table : Table}

theorem Sound.strictOpenTable?_eq (hSound : s.Sound) : s.strictOpenTable? = some s.openTable? := by
  cases hCurrent : s.current with
  | none => simp [strictOpenTable?, openTable?, hCurrent]
  | some id =>
      obtain ⟨table, hTable⟩ := hSound.current hCurrent
      simp [strictOpenTable?, openTable?, hCurrent, hTable]

theorem strictResolve?_eq (h : s.ruleset.Consistent) (hTable : s.ruleset.table? id = some table)
    (transfer : Transfer) (name? : Option String) :
    s.strictResolve? id table transfer name? = some (s.resolve id table transfer name?) := by
  cases name? with
  | none => rfl
  | some name =>
      simp only [strictResolve?, resolve, h.strictChainNamed?_eq hTable, Option.bind_eq_bind,
        Option.bind_some]
      cases s.ruleset.chainNamed? id name with
      | some chain => rfl
      | none =>
          by_cases hVerdict : isVerdict name
          · simp [hVerdict]
          · simp [hVerdict]

theorem strictResolveJump?_eq (h : s.ruleset.Consistent)
    (hTable : s.ruleset.table? id = some table) (name? : Option String) :
    s.strictResolveJump? id table name? = some (s.resolveJump id table name?) := by
  rw [strictResolveJump?, resolveJump]
  cases name?.filter isExtensionName with
  | some name => rfl
  | none => exact strictResolve?_eq h hTable .jump name?

theorem strictPlaceRule?_eq (h : s.ruleset.Consistent) (hTable : s.ruleset.table? id = some table)
    {c : ChainId} {owner : Chain} (hOwner : s.ruleset.chain? c = some owner) (rule : RuleLine) :
    s.strictPlaceRule? id table c rule = some (s.placeRule id table c rule) := by
  -- The goto is looked up, and the rule added, in the ruleset that the jump has left.
  have hReady : (rule.ready s.ruleset).Consistent := rule.consistent_ready h
  have hReadyTable : (rule.ready s.ruleset).table? id = some table := by
    rw [rule.table?_ready, hTable]
  have hReadyOwner := rule.chain?_ready_of_some hOwner
  rw [strictPlaceRule?, strictResolveJump?_eq h hTable, placeRule, resolveJump_eq]
  simp only [Option.bind_eq_bind, Option.bind_some]
  rw [strictResolve?_eq hReady hReadyTable]
  simp only [resolve_eq_bind, warnAll, Option.bind_some]
  rw [Ruleset.appendRule?_of_chain _ hReadyOwner]
  rfl

theorem Sound.strictObey?_eq (hSound : s.Sound) (directive : Directive) :
    s.strictObey? directive = some (s.obey directive) := by
  have h := hSound.built.consistent
  have hStrict := hSound.strictOpenTable?_eq
  cases directive with
  | nothing => rfl
  | openTable name => rfl
  | declareChain name? policy =>
      cases name? with
      | none => rfl
      | some name =>
          simp only [strictObey?, strictDeclareChain?, obey, hStrict, Option.bind_eq_bind,
            Option.bind_some]
          cases hOpen : s.openTable? with
          | none => rw [declareChain_of_closed policy (hSound.current_eq_none hOpen)]; rfl
          | some opened =>
              obtain ⟨id, table⟩ := opened
              obtain ⟨hCurrent, hTable⟩ := openTable?_eq_some_iff.1 hOpen
              simp only [h.strictDeclareChain?_eq hTable, Option.bind_some]
              cases hFound : s.ruleset.chainNamed? id name with
              | some taken =>
                  rw [declareChain_of_taken policy hCurrent hTable hFound,
                    Ruleset.declareChain_of_taken policy hTable hFound]
                  rfl
              | none =>
                  rw [declareChain_of_free policy hCurrent hTable hFound,
                    Ruleset.declareChain_of_free policy hTable hFound]
                  rfl
  | appendRule rule =>
      simp only [strictObey?, strictAppendRule?, obey, appendRule, hStrict, Option.bind_eq_bind,
        Option.bind_some]
      cases rule.chainName? with
      | none => rfl
      | some name =>
          cases hOpen : s.openTable? with
          | none => rfl
          | some opened =>
              obtain ⟨id, table⟩ := opened
              obtain ⟨-, hTable⟩ := openTable?_eq_some_iff.1 hOpen
              simp only [h.strictChainNamed?_eq hTable, Option.bind_some]
              cases hFound : s.ruleset.chainNamed? id name with
              | none => rfl
              | some c =>
                  obtain ⟨owner, hOwner, -⟩ := h.chainNamed?_eq_some_iff.1 hFound
                  exact strictPlaceRule?_eq h hTable hOwner rule

theorem Sound.strictReadLine?_eq (hSound : s.Sound) (line : String) :
    s.strictReadLine? line = some (s.readLine line) :=
  (hSound.atLine (s.line + 1)).strictObey?_eq (.ofLine line)

end Session

/-- Reads lines one after the other, with strict lookups. -/
def strictReadLines? (lines : List String) : Option Session :=
  lines.foldlM Session.strictReadLine? .start

theorem strictReadLines?_eq (lines : List String) :
    strictReadLines? lines = some (readLines lines) := by
  induction lines using List.reverseRecOn with
  | nil => rfl
  | append_singleton lines line ih =>
      rw [strictReadLines?] at ih
      rw [strictReadLines?, List.foldlM_append, ih, readLines_concat]
      simp [(sound_readLines lines).strictReadLine?_eq]

/-- No lookup is out of range. Strict reading reads every dump, the built-in chains are found with
strict lookups, every chain and rule has a label, and the ruleset can be summed up and rendered for
packets of every origin in every form. The lines may be those of any text. -/
theorem lookups_in_range (lines : List String) (origin : Origin) (format : Format) :
    strictReadLines? lines = some (readLines lines) ∧
      (readLines lines).ruleset.strictBuiltinChains? origin =
        some ((readLines lines).ruleset.builtinChains origin) ∧
      (∃ g, (readLines lines).ruleset.traversal? origin = some g) ∧
      (∀ c, c.index < (readLines lines).ruleset.chains.size →
        ∃ label, (readLines lines).ruleset.chainLabel? c = some label) ∧
      (∀ r, r.index < (readLines lines).ruleset.rules.size →
        ∃ label, (readLines lines).ruleset.ruleLabel? r = some label) ∧
      (∃ tables, (readLines lines).ruleset.summary? = some tables) ∧
      ∃ text, (readLines lines).ruleset.render? origin format = some text := by
  have hSound := sound_readLines lines
  have h := hSound.built.consistent
  have hTargets := hSound.confined.targetsExist
  refine ⟨strictReadLines?_eq lines, h.strictBuiltinChains?_eq origin,
    h.exists_traversal? hTargets origin, fun c hIndex => ?_, fun r hIndex => ?_,
    h.exists_summary?, h.exists_render? hTargets origin format⟩
  · exact h.exists_chainLabel? (Array.getElem?_eq_getElem hIndex)
  · exact h.exists_ruleLabel? hTargets (Array.getElem?_eq_getElem hIndex)

end PacketFlow.Dump
