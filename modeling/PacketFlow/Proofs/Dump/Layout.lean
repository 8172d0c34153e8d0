import Mathlib.Logic.Relation
import PacketFlow.Proofs.Dump.Step
import PacketFlow.Proofs.Text.Spacing

/-!
The layout of a dump does not matter. White space at the ends of lines, the amount of white space
between the words of a declaration or a rule, and lines that ask for nothing can be changed in every
way. The rules stay the same, and so do the warnings, but for the numbers that their lines have in the
new layout.
-/
namespace PacketFlow.Dump

section Lines

variable {line line' : String}

theorem begins_iff_of_words_eq {mark : String} (hMark : Text.IsWord mark)
    (hWords : Text.words line = Text.words line') : Begins mark line ↔ Begins mark line' := by
  have hFirst (line : String) :
      Begins mark line ↔ ∃ first ∈ (Text.words line).head?, mark.toList <+: first.toList := by
    have hStart : ∀ c ∈ (Text.trim line).toList.head?, Text.isBlank c = false :=
      fun _ hMem => Text.isBlank_head_trim line hMem
    rw [Begins, Text.isPrefix_iff_words hMark hStart, Text.words_trim]
  rw [hFirst, hFirst, hWords]

theorem ofLine_eq_of_trim_eq (hTrim : Text.trim line = Text.trim line') :
    Directive.ofLine line = Directive.ofLine line' := by
  simp only [Directive.ofLine, hTrim]

theorem ofLine_of_begins_chain (hBegins : Begins ":" line) : ∃ declaration,
    (Text.trim line).toList = ':' :: declaration ∧
      Directive.ofLine line = .ofDeclaration (.ofList declaration) := by
  obtain ⟨declaration, hText⟩ := hBegins
  exact ⟨declaration, hText.symm, by simp [Directive.ofLine, ← hText]⟩

theorem ofLine_of_begins_rule (hBegins : Begins "-A" line) :
    Directive.ofLine line = .appendRule ⟨arguments (Text.trim line)⟩ := by
  obtain ⟨rest, hText⟩ := hBegins
  simp [Directive.ofLine, ← hText]

/-- What a declaration or a rule line asks for is told by its words. -/
theorem ofLine_eq_of_words_eq (hBegins : Begins ":" line ∨ Begins "-A" line)
    (hWords : Text.words line = Text.words line') :
    Directive.ofLine line = Directive.ofLine line' := by
  have hTrimmed : Text.words (Text.trim line) = Text.words (Text.trim line') := by
    rw [Text.words_trim, Text.words_trim, hWords]
  rcases hBegins with hChain | hRule
  · have hChain' := (begins_iff_of_words_eq (by decide) hWords).1 hChain
    obtain ⟨declaration, hText, hLine⟩ := ofLine_of_begins_chain hChain
    obtain ⟨declaration', hText', hLine'⟩ := ofLine_of_begins_chain hChain'
    have hSame := Text.words_eq_of_cons (by decide) hText hText' hTrimmed
    rw [hLine, hLine', Directive.ofDeclaration, Directive.ofDeclaration, hSame]
  · have hRule' := (begins_iff_of_words_eq (by decide) hWords).1 hRule
    rw [ofLine_of_begins_rule hRule, ofLine_of_begins_rule hRule', arguments, arguments, hTrimmed]

end Lines

/-- One change of the white space in a line: at its ends, or inside a declaration or a rule line, where
a gap must stay a gap. -/
inductive Respaced : String → String → Prop
  | ends {before before' after after' : String} (core : String) (hBefore : Text.IsGap before)
      (hBefore' : Text.IsGap before') (hAfter : Text.IsGap after) (hAfter' : Text.IsGap after') :
      Respaced (before ++ core ++ after) (before' ++ core ++ after')
  | inside {front gap gap' rest : String} (hGap : Text.IsGap gap) (hSome : gap ≠ "")
      (hGap' : Text.IsGap gap') (hSome' : gap' ≠ "")
      (hBegins : Begins ":" (front ++ gap ++ rest) ∨ Begins "-A" (front ++ gap ++ rest)) :
      Respaced (front ++ gap ++ rest) (front ++ gap' ++ rest)

theorem Respaced.ofLine_eq {line line' : String} (hRespaced : Respaced line line') :
    Directive.ofLine line = Directive.ofLine line' := by
  cases hRespaced with
  | ends core hBefore hBefore' hAfter hAfter' =>
      apply ofLine_eq_of_trim_eq
      rw [Text.trim_gaps hBefore hAfter, Text.trim_gaps hBefore' hAfter']
  | inside hGap hSome hGap' hSome' hBegins =>
      apply ofLine_eq_of_words_eq hBegins
      rw [Text.words_gap hGap hSome, Text.words_gap hGap' hSome']

/-- The number of a line after a line has been put in behind the first `count`. -/
def afterInsertion (count number : Nat) : Nat :=
  if number ≤ count then number else number + 1

/-- The number of a line after the line behind the first `count` has been taken out. That line has no
number any more. -/
def afterDeletion (count number : Nat) : Option Nat :=
  if number ≤ count then some number
  else if number = count + 1 then none
  else some (number - 1)

theorem afterDeletion_afterInsertion (count number : Nat) :
    afterDeletion count (afterInsertion count number) = some number := by
  rw [afterInsertion, afterDeletion]
  split
  next hEarly => rfl
  next hLate => rw [if_neg (by omega), if_neg (by omega), Nat.add_sub_cancel]

/-- Changes of the layout of a dump, and the number that each line of the old layout has in the new one,
counted from one. -/
inductive Relaid : List String → List String → (Nat → Option Nat) → Prop
  | same (lines : List String) : Relaid lines lines some
  | respaced {line line' : String} (before after : List String) (hRespaced : Respaced line line') :
      Relaid (before ++ line :: after) (before ++ line' :: after) some
  | inserted {idle : String} (before after : List String)
      (hIdle : ∀ mark ∈ marks, ¬Begins mark idle) :
      Relaid (before ++ after) (before ++ idle :: after) fun number =>
        some (afterInsertion before.length number)
  | deleted {idle : String} (before after : List String)
      (hIdle : ∀ mark ∈ marks, ¬Begins mark idle) :
      Relaid (before ++ idle :: after) (before ++ after) (afterDeletion before.length)
  | trans {lines lines' lines'' : List String} {number number' : Nat → Option Nat}
      (hFirst : Relaid lines lines' number) (hSecond : Relaid lines' lines'' number') :
      Relaid lines lines'' fun n => (number n).bind number'

namespace Session

variable (s : Session) (number : Nat → Nat)

/-- The session with other numbers for its lines. -/
def recount : Session :=
  { s with line := number s.line, warnings := s.warnings.map fun w => ⟨number w.line, w.fault⟩ }

@[simp] theorem recount_ruleset : (s.recount number).ruleset = s.ruleset := rfl

@[simp] theorem recount_current : (s.recount number).current = s.current := rfl

@[simp] theorem openTable?_recount : (s.recount number).openTable? = s.openTable? := rfl

theorem warn_recount (fault : Fault) :
    (s.recount number).warn fault = (s.warn fault).recount number := by
  simp [warn, recount]

theorem declareChain_recount (name? : Option String) (policy : String) :
    (s.recount number).declareChain name? policy =
      (s.declareChain name? policy).recount number := by
  unfold declareChain
  rw [recount_ruleset, recount_current]
  split
  · exact s.warn_recount number _
  · exact s.warn_recount number _
  · split
    · rfl
    · exact s.warn_recount number _
    · rfl

theorem resolve_recount (id : TableId) (table : Table) (transfer : Transfer)
    (name? : Option String) : (s.recount number).resolve id table transfer name? =
      ((s.resolve id table transfer name?).1,
        (s.resolve id table transfer name?).2.recount number) := by
  unfold resolve
  rw [recount_ruleset]
  split
  · rfl
  · split
    · rfl
    · split
      · rfl
      · rw [warn_recount]

theorem resolveJump_recount (id : TableId) (table : Table) (name? : Option String) :
    (s.recount number).resolveJump id table name? =
      ((s.resolveJump id table name?).1, (s.resolveJump id table name?).2.recount number) := by
  unfold resolveJump
  split
  · rfl
  · exact s.resolve_recount number id table .jump name?

theorem placeRule_recount (id : TableId) (table : Table) (c : ChainId) (rule : RuleLine) :
    (s.recount number).placeRule id table c rule =
      (s.placeRule id table c rule).recount number := by
  simp only [placeRule, resolveJump_recount, resolve_recount, recount_ruleset]
  split <;> rfl

theorem appendRule_recount (rule : RuleLine) :
    (s.recount number).appendRule rule = (s.appendRule rule).recount number := by
  unfold appendRule
  rw [recount_ruleset, openTable?_recount]
  split
  · exact s.warn_recount number _
  · exact s.warn_recount number _
  · split
    · exact s.warn_recount number _
    · exact s.placeRule_recount number _ _ _ rule

/-- What a line asks for does not depend on how lines are counted. -/
theorem obey_recount (directive : Directive) :
    (s.recount number).obey directive = (s.obey directive).recount number := by
  cases directive with
  | openTable name => rfl
  | declareChain name? policy => exact s.declareChain_recount number name? policy
  | appendRule rule => exact s.appendRule_recount number rule
  | nothing => rfl

end Session

/-- What a line asks for is all that it can change, but for the count of lines. -/
theorem readLines_eq_of_map_ofLine_eq {lines lines' : List String}
    (hSame : lines.map Directive.ofLine = lines'.map Directive.ofLine) :
    readLines lines = readLines lines' := by
  have hFold (lines : List String) : readLines lines = (lines.map Directive.ofLine).foldl
      (fun s directive => { s with line := s.line + 1 }.obey directive) .start := by
    rw [List.foldl_map]
    rfl
  rw [hFold, hFold, hSame]

theorem line_readLines (lines : List String) : (readLines lines).line = lines.length := by
  induction lines using List.reverseRecOn with
  | nil => rfl
  | append_singleton lines line ih =>
      rw [(reads_readLines lines line).line_eq, ih, List.length_append, List.length_singleton]

namespace Session

variable {s : Session} {count : Nat}

/-- The session with one line more counted behind the first `count`. -/
def withInserted (s : Session) (count : Nat) : Session :=
  { s.recount (afterInsertion count) with line := s.line + 1 }

/-- A line that comes after the one put in is read as before. -/
theorem readLine_withInserted {line : String} (hLate : count ≤ s.line)
    (hReads : s.Reads line (s.readLine line)) :
    (s.withInserted count).readLine line = (s.readLine line).withInserted count := by
  have hNext : afterInsertion count (s.line + 1) = s.line + 1 + 1 := if_neg (by omega)
  have hCounted : (readLine s line).recount (afterInsertion count) =
      (readLine s line).withInserted count := by
    rw [withInserted, recount, hReads.line_eq, hNext]
  rw [← hCounted, readLine, readLine, ← obey_recount, recount, hNext]
  rfl

/-- A session that has not read so far yet has no lines with new numbers. -/
theorem recount_afterInsertion (hLine : s.line = count)
    (hWarnings : ∀ w ∈ s.warnings.toList, w.line ≤ s.line) :
    s.recount (afterInsertion count) = s := by
  have hSame {n : Nat} (hEarly : n ≤ s.line) : afterInsertion count n = n :=
    if_pos (hLine ▸ hEarly)
  have hMap : s.warnings.map (fun w => ⟨afterInsertion count w.line, w.fault⟩) = s.warnings := by
    rw [← Array.toList_inj, Array.toList_map]
    refine (List.map_congr_left fun w hMem => ?_).trans (List.map_id _)
    rw [hSame (hWarnings w hMem)]
    rfl
  rw [recount, hMap, hSame (Nat.le_refl _)]

end Session

/-- A line that asks for nothing changes the numbers of the lines after it and nothing else. -/
theorem readLines_insert {idle : String} (hIdle : ∀ mark ∈ marks, ¬Begins mark idle)
    (before after : List String) : readLines (before ++ idle :: after) =
      (readLines (before ++ after)).withInserted before.length := by
  induction after using List.reverseRecOn with
  | nil =>
      have hOrdered := (warnings_ordered before).2
      rw [List.append_nil, readLines_concat, Session.readLine, ofLine_eq_nothing_iff.2 hIdle,
        Session.withInserted, Session.recount_afterInsertion (line_readLines before) hOrdered]
      rfl
  | append_singleton after line ih =>
      have hLate : before.length ≤ (readLines (before ++ after)).line := by
        rw [line_readLines, List.length_append]
        omega
      have hReads := reads_readLines (before ++ after) line
      rw [readLines_concat] at hReads
      rw [← List.cons_append, ← List.append_assoc, readLines_concat, ih, ← List.append_assoc,
        readLines_concat, Session.readLine_withInserted hLate hReads]

/-- Two sessions with the same rules and the same warnings, when the lines of the first have the given
numbers in the second. -/
structure SameReport (number : Nat → Option Nat) (s s' : Session) : Prop where
  ruleset : s.ruleset = s'.ruleset
  warnings : s.warnings.toList.map (fun w => (number w.line, w.fault)) =
    s'.warnings.toList.map fun w => (some w.line, w.fault)

namespace SameReport

theorem refl (s : Session) : SameReport some s s where
  ruleset := rfl
  warnings := rfl

theorem trans {number number' : Nat → Option Nat} {s s' s'' : Session}
    (hFirst : SameReport number s s') (hSecond : SameReport number' s' s'') :
    SameReport (fun n => (number n).bind number') s s'' where
  ruleset := hFirst.ruleset.trans hSecond.ruleset
  warnings := by
    have hMapped := congrArg (List.map fun w : Option Nat × Fault => (w.1.bind number', w.2))
      hFirst.warnings
    rw [List.map_map, List.map_map] at hMapped
    exact hMapped.trans hSecond.warnings

/-- A line that has been put in asks for new numbers of the lines behind it. -/
theorem inserted (s : Session) (count : Nat) :
    SameReport (fun number => some (afterInsertion count number)) s (s.withInserted count) where
  ruleset := rfl
  warnings := by
    simp [Session.withInserted, Session.recount, Function.comp_def]

theorem deleted (s : Session) (count : Nat) :
    SameReport (afterDeletion count) (s.withInserted count) s where
  ruleset := rfl
  warnings := by
    simp [Session.withInserted, Session.recount, Function.comp_def, afterDeletion_afterInsertion]

end SameReport

theorem Relaid.sameReport {lines lines' : List String} {number : Nat → Option Nat}
    (hRelaid : Relaid lines lines' number) :
    SameReport number (readLines lines) (readLines lines') := by
  induction hRelaid with
  | same lines => exact .refl _
  | @respaced line line' before after hRespaced =>
      have hLines : (before ++ line :: after).map Directive.ofLine =
          (before ++ line' :: after).map Directive.ofLine := by simp [hRespaced.ofLine_eq]
      rw [readLines_eq_of_map_ofLine_eq hLines]
      exact .refl _
  | inserted before after hIdle =>
      rw [readLines_insert hIdle]
      exact .inserted _ _
  | deleted before after hIdle =>
      rw [readLines_insert hIdle]
      exact .deleted _ _
  | trans _ _ ihFirst ihSecond => exact ihFirst.trans ihSecond

section Positions

variable {before after : List String} {inner : String} {i : Nat}

theorem getElem?_inserted_of_lt (hBefore : i < before.length) :
    (before ++ inner :: after)[i]? = (before ++ after)[i]? := by
  rw [List.getElem?_append_left hBefore, List.getElem?_append_left hBefore]

theorem getElem?_inserted_of_le (hAfter : before.length ≤ i) :
    (before ++ inner :: after)[i + 1]? = (before ++ after)[i]? := by
  rw [List.getElem?_append_right (Nat.le_succ_of_le hAfter), List.getElem?_append_right hAfter,
    Nat.succ_sub hAfter, List.getElem?_cons_succ]

end Positions

/-- The new number of a line is that of a line with the same text but for white space. -/
theorem Relaid.sameLine {lines lines' : List String} {number : Nat → Option Nat}
    (hRelaid : Relaid lines lines' number) {i n : Nat} {line : String} (hLine : lines[i]? = some line)
    (hNumber : number (i + 1) = some n) :
    ∃ j line', n = j + 1 ∧ lines'[j]? = some line' ∧ Relation.ReflTransGen Respaced line line' := by
  induction hRelaid generalizing i n line with
  | same lines => exact ⟨i, line, (Option.some.inj hNumber).symm, hLine, .refl⟩
  | @respaced old new before after hRespaced =>
      refine ⟨i, ?_⟩
      obtain rfl := Option.some.inj hNumber
      rcases Nat.lt_trichotomy i before.length with hBefore | rfl | hAfter
      · rw [getElem?_inserted_of_lt hBefore] at hLine ⊢
        exact ⟨line, rfl, hLine, .refl⟩
      · obtain rfl : old = line := by simpa using hLine
        exact ⟨new, rfl, by simp, .single hRespaced⟩
      · obtain ⟨k, rfl⟩ : ∃ k, i = k + 1 := Nat.exists_eq_succ_of_ne_zero (by omega)
        rw [getElem?_inserted_of_le (by omega)] at hLine ⊢
        exact ⟨line, rfl, hLine, .refl⟩
  | inserted before after hIdle =>
      rw [Option.some.injEq, afterInsertion] at hNumber
      split at hNumber
      next hBefore => exact ⟨i, line, hNumber.symm, by rwa [getElem?_inserted_of_lt hBefore], .refl⟩
      next hAfter =>
        refine ⟨i + 1, line, hNumber.symm, ?_, .refl⟩
        rwa [getElem?_inserted_of_le (by omega)]
  | deleted before after hIdle =>
      rw [afterDeletion] at hNumber
      split at hNumber
      next hBefore =>
        rw [getElem?_inserted_of_lt hBefore] at hLine
        exact ⟨i, line, (Option.some.inj hNumber).symm, hLine, .refl⟩
      next hLate =>
        split at hNumber
        · cases hNumber
        next hOther =>
          obtain ⟨k, rfl⟩ : ∃ k, i = k + 1 := Nat.exists_eq_succ_of_ne_zero (by omega)
          rw [getElem?_inserted_of_le (by omega)] at hLine
          exact ⟨k, line, (Option.some.inj hNumber).symm, hLine, .refl⟩
  | trans _ _ ihFirst ihSecond =>
      obtain ⟨m, hFirst, hSecond⟩ := Option.bind_eq_some_iff.1 hNumber
      obtain ⟨j, line', rfl, hLine', hRespaced⟩ := ihFirst hLine hFirst
      obtain ⟨k, line'', rfl, hLine'', hRespaced'⟩ := ihSecond hLine' hSecond
      exact ⟨k, line'', rfl, hLine'', hRespaced.trans hRespaced'⟩

/-- Carriage returns before line feeds do not matter. -/
theorem read_withReturns (text : String) : read (Text.withReturns text) = read text := by
  have hTrim (line : String) : Directive.ofLine (Text.trim line) = Directive.ofLine line :=
    ofLine_eq_of_trim_eq (Text.trim_trim line)
  have hLines (lines : List String) :
      (lines.map Text.trim).map Directive.ofLine = lines.map Directive.ofLine := by
    simp only [List.map_map, Function.comp_def, hTrim]
  have hSame : (Text.lines (Text.withReturns text)).map Directive.ofLine =
      (Text.lines text).map Directive.ofLine := by
    rw [← hLines, Text.map_trim_lines_withReturns, hLines]
  rw [read, read, readLines_eq_of_map_ofLine_eq hSame]

/-- The layout of a dump does not matter. A new layout gives the same rules and the same warnings, each
with the new number of its line, and that is a line which differs in white space alone. Carriage returns
before line feeds make no difference at all. -/
theorem sameReport_of_relaid {lines lines' : List String} {number : Nat → Option Nat}
    (hRelaid : Relaid lines lines' number) (text : String) :
    SameReport number (readLines lines) (readLines lines') ∧
      (∀ i n line, lines[i]? = some line → number (i + 1) = some n →
        ∃ j line', n = j + 1 ∧ lines'[j]? = some line' ∧
          Relation.ReflTransGen Respaced line line') ∧
      read (Text.withReturns text) = read text :=
  ⟨hRelaid.sameReport, fun _ _ _ hLine hNumber => hRelaid.sameLine hLine hNumber,
    read_withReturns text⟩

theorem sameReport_of_relaid_rule : ∃ number, number 4 = some 5 ∧
    SameReport number
      (readLines ["*filter", ":INPUT ACCEPT", "COMMIT", "-A INPUT -j nowhere"])
      (readLines ["# tables", "", "  *filter", ":INPUT ACCEPT", "-A\t\tINPUT -j nowhere"]) ∧
    read (Text.withReturns "*filter\n-A x\n") = read "*filter\n-A x\n" := by
  have hIndented : Respaced "*filter" "  *filter" := by
    have hNone : Text.IsGap "" := by decide
    have hSome : Text.IsGap "  " := by decide
    exact .ends "*filter" hNone hSome hNone hNone
  have hTabs : Respaced ("-A" ++ " " ++ "INPUT -j nowhere") ("-A" ++ "\t\t" ++ "INPUT -j nowhere") := by
    have hGap : Text.IsGap " " := by decide
    have hGap' : Text.IsGap "\t\t" := by decide
    exact .inside hGap (by decide) hGap' (by decide) (by decide)
  have hComment : ∀ mark ∈ marks, ¬Begins mark "# tables" := by decide
  have hEmpty : ∀ mark ∈ marks, ¬Begins mark "" := by decide
  have hCommit : ∀ mark ∈ marks, ¬Begins mark "COMMIT" := by decide
  have hFilter := Relaid.respaced [] [":INPUT ACCEPT", "COMMIT", "-A INPUT -j nowhere"] hIndented
  have hTitled := Relaid.inserted []
    ["  *filter", ":INPUT ACCEPT", "COMMIT", "-A INPUT -j nowhere"] hComment
  have hParted := Relaid.inserted ["# tables"]
    ["  *filter", ":INPUT ACCEPT", "COMMIT", "-A INPUT -j nowhere"] hEmpty
  have hOpen := Relaid.deleted ["# tables", "", "  *filter", ":INPUT ACCEPT"]
    ["-A INPUT -j nowhere"] hCommit
  have hRule := Relaid.respaced ["# tables", "", "  *filter", ":INPUT ACCEPT"] [] hTabs
  obtain ⟨hReport, -, hReturns⟩ := sameReport_of_relaid
    ((((hFilter.trans hTitled).trans hParted).trans hOpen).trans hRule) "*filter\n-A x\n"
  exact ⟨_, rfl, hReport, hReturns⟩

end PacketFlow.Dump
