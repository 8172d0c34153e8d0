import PacketFlow.Proofs.Dump.Arguments
import PacketFlow.Proofs.Dump.Ownership

/-!
What a line does to a session. There are five things it can do, told apart by its first characters
and by what the session holds, and it does nothing besides. A line that is at fault as a whole is
passed over before anything is changed; only a rule whose targets are missing is kept, without them.
-/
namespace PacketFlow.Dump

/-- The line begins with the mark, white space aside. -/
def Begins (mark line : String) : Prop :=
  mark.toList <+: (Text.trim line).toList

instance (mark line : String) : Decidable (Begins mark line) :=
  inferInstanceAs (Decidable (_ <+: _))

/-- The marks of the lines that ask for something. -/
def marks : List String :=
  ["*", ":", "-A"]

theorem ofLine_eq_nothing_iff {line : String} :
    Directive.ofLine line = .nothing ↔ ∀ mark ∈ marks, ¬Begins mark line := by
  simp only [Directive.ofLine, Begins, marks, List.forall_mem_cons]
  generalize (Text.trim line).toList = cs
  split
  · simp
  · unfold Directive.ofDeclaration
    split <;> simp
  · simp
  next hTable hChain hRule =>
    refine iff_of_true rfl ⟨?_, ?_, ?_, fun _ hMem => absurd hMem List.not_mem_nil⟩
    · rintro ⟨rest, hList⟩
      exact hTable rest hList.symm
    · rintro ⟨rest, hList⟩
      exact hChain rest hList.symm
    · rintro ⟨rest, hList⟩
      exact hRule rest hList.symm

theorem eq_of_ofLine_eq_appendRule {line : String} {rule : RuleLine}
    (hLine : Directive.ofLine line = .appendRule rule) : rule.args = arguments (Text.trim line) := by
  simp only [Directive.ofLine] at hLine
  split at hLine
  · cases hLine
  · unfold Directive.ofDeclaration at hLine
    split at hLine <;> cases hLine
  · rw [← Directive.appendRule.inj hLine]
  · cases hLine

theorem RuleLine.targetName?_ne_empty {line : String} {rule : RuleLine}
    (hLine : Directive.ofLine line = .appendRule rule) {transfer : Transfer} {name : String}
    (hName : rule.targetName? transfer = some name) : name ≠ "" := by
  rw [targetName?, eq_of_ofLine_eq_appendRule hLine] at hName
  obtain ⟨a, hFound, rfl⟩ := Option.map_eq_some_iff.1 hName
  exact reading_ne_empty (List.mem_of_find?_eq_some hFound)

namespace Session

variable {s next : Session}

/-- A directive at fault as a whole, and what is wrong with it. -/
inductive Refuses (s : Session) : Directive → Fault → Prop
  | malformedChain {policy : String} : s.Refuses (.declareChain none policy) .malformedChain
  | chainOutside {name policy : String} (hClosed : s.current = none) :
      s.Refuses (.declareChain (some name) policy) (.noCurrentTable s!":{name}")
  | duplicateChain {id : TableId} {table : Table} {name policy : String}
      (hOpen : s.openTable? = some (id, table)) (hTaken : (s.ruleset.chainNamed? id name).isSome) :
      s.Refuses (.declareChain (some name) policy) (.duplicateChain table.name name)
  | missingAppendChain {rule : RuleLine} (hName : rule.chainName? = none) :
      s.Refuses (.appendRule rule) .missingAppendChain
  | ruleOutside {rule : RuleLine} {name : String} (hName : rule.chainName? = some name)
      (hClosed : s.current = none) : s.Refuses (.appendRule rule) (.noCurrentTable s!"-A {name}")
  | unknownChain {rule : RuleLine} {name : String} {id : TableId} {table : Table}
      (hName : rule.chainName? = some name) (hOpen : s.openTable? = some (id, table))
      (hUnknown : s.ruleset.chainNamed? id name = none) :
      s.Refuses (.appendRule rule) (.unknownChain table.name name)

/-- The session after a line: one of five things has happened, and nothing besides. -/
inductive Reads (s : Session) (line : String) : Session → Prop
  | passed (hMarks : ∀ mark ∈ marks, ¬Begins mark line) :
      s.Reads line { s with line := s.line + 1 }
  | refused {fault : Fault} (hFault : s.Refuses (.ofLine line) fault)
      (hKind : ∀ table transfer target, fault ≠ .unresolvedTarget table transfer target) :
      s.Reads line
        { s with line := s.line + 1, warnings := s.warnings.push ⟨s.line + 1, fault⟩ }
  | opened {name : String} {id : TableId} {ruleset : Ruleset}
      (hLine : Directive.ofLine line = .openTable name)
      (hTable : (s.ruleset.tableNamed? name = some id ∧ ruleset = s.ruleset) ∨
        (s.ruleset.tableNamed? name = none ∧ id = ⟨s.ruleset.tables.size⟩ ∧
          ruleset = s.ruleset.withTable name)) :
      s.Reads line { s with line := s.line + 1, ruleset := ruleset, current := some id }
  | declared {name policy : String} {id : TableId} {table : Table}
      (hLine : Directive.ofLine line = .declareChain (some name) policy)
      (hOpen : s.openTable? = some (id, table)) (hFree : s.ruleset.chainNamed? id name = none) :
      s.Reads line
        { s with line := s.line + 1, ruleset := s.ruleset.withChain id name policy }
  | appended {rule : RuleLine} {name : String} {id : TableId} {table : Table} {c : ChainId}
      {owner : Chain} (hLine : Directive.ofLine line = .appendRule rule)
      (hName : rule.chainName? = some name) (hOpen : s.openTable? = some (id, table))
      (hChain : s.ruleset.chainNamed? id name = some c) (hOwner : s.ruleset.chain? c = some owner)
      (hNames : ∀ transfer target, rule.targetName? transfer = some target → target ≠ "")
      (hLost : ∀ lost ∈ rule.lostTargets s.ruleset id, rule.target? s.ruleset id lost.1 = none) :
      s.Reads line
        { s with
          line := s.line + 1
          ruleset := (rule.ready s.ruleset).withRule c
            (rule.body (rule.target? s.ruleset id .jump) (rule.target? s.ruleset id .goto))
            (owner.rules.length + 1)
          warnings := s.warnings ++ ((rule.lostTargets s.ruleset id).map fun lost =>
            ⟨s.line + 1, .unresolvedTarget table.name lost.1 lost.2⟩).toArray }

/-- Every line does one of the five things to a sound session. -/
theorem Sound.reads (hSound : s.Sound) (line : String) : s.Reads line (s.readLine line) := by
  -- The line is counted before it is obeyed, which does not change what is open.
  have hCounted : openTable? { s with line := s.line + 1 } = s.openTable? := rfl
  rw [readLine]
  cases hLine : Directive.ofLine line with
  | nothing => exact .passed (ofLine_eq_nothing_iff.1 hLine)
  | openTable name =>
      rw [obey, openTable]
      cases hFound : s.ruleset.tableNamed? name with
      | some id =>
          rw [Ruleset.openTable_of_taken hFound]
          exact .opened hLine (Or.inl ⟨hFound, rfl⟩)
      | none =>
          rw [Ruleset.openTable_of_free hFound]
          exact .opened hLine (Or.inr ⟨hFound, rfl, rfl⟩)
  | declareChain name? policy =>
      cases name? with
      | none => exact .refused (hLine ▸ .malformedChain) (by simp)
      | some name =>
          cases hOpen : s.openTable? with
          | none =>
              have hClosed := hSound.current_eq_none hOpen
              rw [obey, declareChain_of_closed (s := { s with line := s.line + 1 }) policy hClosed]
              exact .refused (hLine ▸ .chainOutside hClosed) (by simp)
          | some opened =>
              obtain ⟨id, table⟩ := opened
              obtain ⟨hCurrent, hTable⟩ := openTable?_eq_some_iff.1 hOpen
              cases hFound : s.ruleset.chainNamed? id name with
              | some taken =>
                  rw [obey, declareChain_of_taken (s := { s with line := s.line + 1 }) policy hCurrent
                    hTable hFound]
                  exact .refused (hLine ▸ .duplicateChain hOpen (by rw [hFound]; rfl)) (by simp)
              | none =>
                  rw [obey, declareChain_of_free (s := { s with line := s.line + 1 }) policy hCurrent
                    hTable hFound]
                  exact .declared hLine hOpen hFound
  | appendRule rule =>
      rw [obey, appendRule, hCounted]
      cases hName : rule.chainName? with
      | none => exact .refused (hLine ▸ .missingAppendChain hName) (by simp)
      | some name =>
          cases hOpen : s.openTable? with
          | none => exact .refused (hLine ▸ .ruleOutside hName (hSound.current_eq_none hOpen)) (by simp)
          | some opened =>
              obtain ⟨id, table⟩ := opened
              cases hFound : s.ruleset.chainNamed? id name with
              | none =>
                  simp only [hFound]
                  exact .refused (hLine ▸ .unknownChain hName hOpen hFound) (by simp)
              | some c =>
                  have h := hSound.built.consistent
                  obtain ⟨owner, hOwner, -⟩ := h.chainNamed?_eq_some_iff.1 hFound
                  simp only [hFound]
                  rw [placeRule_eq (s := { s with line := s.line + 1 }) h id table hOwner rule]
                  have hReads := Reads.appended hLine hName hOpen hFound hOwner
                    (fun _ _ hTarget => RuleLine.targetName?_ne_empty hLine hTarget)
                    fun _ hLost => RuleLine.target?_eq_none_of_mem_lostTargets hLost
                  simpa [warnAll, Function.comp_def] using hReads

theorem Reads.line_eq {line : String} (hReads : s.Reads line next) : next.line = s.line + 1 := by
  cases hReads <;> rfl

/-- Warnings are raised about the line that is read, and none is taken back. -/
theorem Reads.exists_warnings_eq {line : String} (hReads : s.Reads line next) :
    ∃ faults : List Fault, next.warnings = s.warnings ++ (faults.map (Warning.mk next.line)).toArray := by
  cases hReads with
  | passed => exact ⟨[], by simp⟩
  | @refused fault => exact ⟨[fault], by simp⟩
  | opened => exact ⟨[], by simp⟩
  | declared => exact ⟨[], by simp⟩
  | @appended rule name id table =>
      refine ⟨(rule.lostTargets s.ruleset id).map fun lost =>
        .unresolvedTarget table.name lost.1 lost.2, ?_⟩
      simp [Function.comp_def]

/-- Nothing that a session holds is lost or changed by a line. -/
theorem Reads.extends {line : String} (hReads : s.Reads line next) :
    s.ruleset.Extends next.ruleset := by
  cases hReads with
  | passed => exact .refl _
  | refused => exact .refl _
  | opened hLine hTable =>
      rcases hTable with ⟨-, rfl⟩ | ⟨hFree, -, rfl⟩
      · exact .refl _
      · exact (Ruleset.Grows.table hFree).extends
  | declared hLine hOpen hFree =>
      obtain ⟨-, hTable⟩ := openTable?_eq_some_iff.1 hOpen
      exact (Ruleset.Grows.chain _ hTable hFree).extends
  | @appended rule _ _ _ _ _ _ _ _ _ hOwner =>
      refine (rule.extends_ready s.ruleset).trans ?_
      exact (Ruleset.Grows.rule _ (rule.chain?_ready_of_some hOwner)).extends

/-- A rule that was not there before is the rule of the line, with the targets that were found in the
open table. -/
theorem Reads.exists_appended {line : String} (hReads : s.Reads line next) {r : RuleId} {rule : Rule}
    (hNew : s.ruleset.rule? r = none) (hRule : next.ruleset.rule? r = some rule) :
    ∃ ruleLine id table, Directive.ofLine line = .appendRule ruleLine ∧
      s.openTable? = some (id, table) ∧ (ruleLine.ready s.ruleset).Extends next.ruleset ∧
      rule.toRuleBody = ruleLine.body (ruleLine.target? s.ruleset id .jump)
        (ruleLine.target? s.ruleset id .goto) := by
  have hSame {rs : Ruleset} (hRules : rs.rule? = s.ruleset.rule?) : rs.rule? r ≠ some rule := by
    simp [hRules, hNew]
  cases hReads with
  | passed => exact absurd hRule (hSame rfl)
  | refused => exact absurd hRule (hSame rfl)
  | opened hLine hTable =>
      rcases hTable with ⟨-, rfl⟩ | ⟨-, -, rfl⟩
      · exact absurd hRule (hSame rfl)
      · exact absurd hRule (hSame rfl)
  | declared => exact absurd hRule (hSame rfl)
  | @appended ruleLine _ id table _ _ hLine _ hOpen _ hOwner =>
      refine ⟨ruleLine, id, table, hLine, hOpen,
        (Ruleset.Grows.rule _ (ruleLine.chain?_ready_of_some hOwner)).extends, ?_⟩
      rcases Ruleset.rule?_withRule_cases hRule with ⟨-, rfl⟩ | hOld
      · rfl
      · rw [Ruleset.rule?, ruleLine.rules_ready] at hOld
        exact absurd hOld (hSame rfl)

end Session

theorem readLines_concat (lines : List String) (line : String) :
    readLines (lines ++ [line]) = (readLines lines).readLine line := by
  simp only [readLines, List.foldl_append, List.foldl_cons, List.foldl_nil]

theorem reads_readLines (lines : List String) (line : String) :
    (readLines lines).Reads line (readLines (lines ++ [line])) := by
  rw [readLines_concat]
  exact (sound_readLines lines).reads line

/-- What holds between a session and what each line makes of it holds between what has been read and
what is read later. -/
theorem rel_readLines_append {Rel : Session → Session → Prop} (hRefl : ∀ s, Rel s s)
    (hTrans : ∀ {s next later}, Rel s next → Rel next later → Rel s later)
    (hStep : ∀ {s next line}, s.Reads line next → Rel s next) (lines more : List String) :
    Rel (readLines lines) (readLines (lines ++ more)) := by
  induction more using List.reverseRecOn with
  | nil =>
      rw [List.append_nil]
      exact hRefl _
  | append_singleton more line ih =>
      rw [← List.append_assoc]
      exact hTrans ih (hStep (reads_readLines (lines ++ more) line))

/-- What has been read stays as it is, whatever is read after it. -/
theorem extends_readLines_append (lines more : List String) :
    (readLines lines).ruleset.Extends (readLines (lines ++ more)).ruleset :=
  rel_readLines_append (fun s => .refl s.ruleset) .trans Session.Reads.extends lines more

/-- Warnings come in the order of the lines that they are about. -/
theorem warnings_ordered (lines : List String) :
    (readLines lines).warnings.toList.Pairwise (·.line ≤ ·.line) ∧
      ∀ w ∈ (readLines lines).warnings.toList, w.line ≤ (readLines lines).line := by
  induction lines using List.reverseRecOn with
  | nil => exact ⟨.nil, fun w hMem => absurd hMem List.not_mem_nil⟩
  | append_singleton lines line ih =>
      obtain ⟨hOrdered, hBefore⟩ := ih
      have hReads := reads_readLines lines line
      have hLine := hReads.line_eq
      obtain ⟨faults, hWarnings⟩ := hReads.exists_warnings_eq
      rw [hWarnings, Array.toList_append]
      have hEarlier : ∀ w ∈ (readLines lines).warnings.toList,
          w.line ≤ (readLines (lines ++ [line])).line := fun w hMem =>
        hLine ▸ Nat.le_succ_of_le (hBefore w hMem)
      have hNew : ∀ w ∈ faults.map (Warning.mk (readLines (lines ++ [line])).line),
          w.line = (readLines (lines ++ [line])).line :=
        List.forall_mem_map.2 fun _ _ => rfl
      constructor
      · refine List.pairwise_append.2 ⟨hOrdered, ?_, fun w hMem w' hMem' => ?_⟩
        · exact List.pairwise_map.2 (List.pairwise_of_forall fun _ _ => Nat.le_refl _)
        · rw [hNew w' hMem']
          exact hEarlier w hMem
      · intro w hMem
        rcases List.mem_append.1 hMem with hMem | hMem
        · exact hEarlier w hMem
        · exact Nat.le_of_eq (hNew w hMem)

/-- Whatever has been read, the next line does one of the five things: it is passed over, it is
refused with a warning, it opens a table, it declares a chain, or it adds a rule. Warnings are in the
order of the lines. -/
theorem reads_readLine (lines : List String) (line : String) :
    (readLines lines).Reads line ((readLines lines).readLine line) ∧
      (readLines lines).warnings.toList.Pairwise (·.line ≤ ·.line) :=
  ⟨(sound_readLines lines).reads line, (warnings_ordered lines).1⟩

end PacketFlow.Dump
