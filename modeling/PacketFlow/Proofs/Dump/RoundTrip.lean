import PacketFlow.Proofs.Dump.Section
import PacketFlow.Proofs.Dump.Session

/-!
Reading what was written. A dump that writes well-formed tables is read without a warning, and the
tables that are read are the tables that were written: the same tables, chains and rules, in the same
order, and every target is the one that was named.
-/
namespace PacketFlow

namespace Ruleset

variable {rs : Ruleset}

/-- What the tables say, in order of their creation. -/
def contents (rs : Ruleset) : List TableContent :=
  rs.tables.toList.map rs.tableContent

theorem getElem?_contents (rs : Ruleset) (i : Nat) : rs.contents[i]? = rs.content? ⟨i⟩ := by
  rw [contents, List.getElem?_map, Array.getElem?_toList]
  rfl

theorem contents_eq_iff {contents : List TableContent} :
    rs.contents = contents ↔ ∀ t, rs.content? t = contents[t.index]? := by
  rw [List.ext_getElem?_iff]
  constructor
  · intro hSame t
    rw [← hSame, getElem?_contents]
  · intro hSame i
    rw [getElem?_contents, hSame]

theorem length_contents (rs : Ruleset) : rs.contents.length = rs.tables.size := by
  rw [contents, List.length_map, Array.length_toList]

theorem tableNamed?_eq_none_of_contents (h : rs.Consistent) {name : String}
    (hOther : ∀ content ∈ rs.contents, Text.fold content.name ≠ Text.fold name) :
    rs.tableNamed? name = none := by
  cases hFound : rs.tableNamed? name with
  | none => rfl
  | some t =>
      obtain ⟨table, hTable, hName⟩ := h.fold_eq_of_tableNamed?_eq_some hFound
      have hContent : rs.contents[t.index]? = some (rs.tableContent table) := by
        rw [getElem?_contents, content?, hTable, Option.map_some]
      exact absurd hName (hOther _ (List.mem_of_getElem? hContent))

theorem contents_withTable (rs : Ruleset) (name : String) :
    (rs.withTable name).contents = rs.contents ++ [⟨name, []⟩] := by
  rw [contents_eq_iff]
  intro t
  rw [content?_withTable]
  split
  next hNew => rw [hNew, ← length_contents, List.getElem?_concat_length]
  next hOld =>
    have hIndex : t.index ≠ rs.contents.length := by
      rw [length_contents]
      exact fun hSame => hOld (congrArg TableId.mk hSame)
    rw [List.getElem?_append, ← getElem?_contents]
    split
    next => rfl
    next hLast =>
      rw [List.getElem?_eq_none (Nat.le_of_not_lt hLast), List.getElem?_eq_none]
      simp only [List.length_singleton]
      omega

/-- What is done to the last table changes the last of the contents. -/
theorem Changes.contents_eq {later : Ruleset} {before : List TableContent} {content : TableContent}
    {change : TableContent → TableContent} (hChanges : rs.Changes later ⟨before.length⟩ change)
    (hContents : rs.contents = before ++ [content]) :
    later.contents = before ++ [change content] := by
  rw [contents_eq_iff] at hContents ⊢
  intro t
  rw [hChanges.content, hContents]
  by_cases hLast : t = ⟨before.length⟩
  · subst hLast
    simp
  · have hIndex : t.index ≠ before.length := fun hSame => hLast (congrArg TableId.mk hSame)
    simp only [hLast, if_false, Option.map_id']
    rw [List.getElem?_append, List.getElem?_append]
    split
    next => rfl
    next hBehind =>
      rw [List.getElem?_eq_none, List.getElem?_eq_none] <;>
        · simp only [List.length_singleton]
          omega

end Ruleset

namespace Dump

theorem ofLine_of_isAside {line : String} (hAside : isAside line = true) :
    Directive.ofLine line = .nothing := by
  simp only [isAside] at hAside
  simp only [Directive.ofLine]
  generalize (Text.trim line).toList = cs at hAside ⊢
  split at hAside
  · rfl
  · rfl
  · obtain rfl := beq_iff_eq.1 hAside
    rfl

namespace Session

variable {s : Session}

theorem readLine_of_isAside {line : String} (hAside : isAside line = true) :
    s.readLine line = { s with line := s.line + 1 } := by
  rw [readLine, ofLine_of_isAside hAside]
  rfl

theorem foldl_readLine_of_isAside {lines : List String}
    (hAside : ∀ line ∈ lines, isAside line = true) :
    lines.foldl readLine s = { s with line := s.line + lines.length } := by
  induction lines generalizing s with
  | nil => rfl
  | cons line lines ih =>
      obtain ⟨hLine, hRest⟩ := List.forall_mem_cons.1 hAside
      rw [List.foldl_cons, ih hRest, readLine_of_isAside hLine, List.length_cons,
        Nat.add_right_comm, Nat.add_assoc]

/-- The last of the tables is open, and these are the contents of the tables. -/
structure Filling (s : Session) (before : List TableContent) (content : TableContent) : Prop where
  sound : s.Sound
  current : s.current = some ⟨before.length⟩
  contents : s.ruleset.contents = before ++ [content]

/-- A line without fault changes the content of the open table, and raises no warning. -/
theorem Filling.obey {before : List TableContent} {content : TableContent} {directive : Directive}
    (hFilling : s.Filling before content) (hOpened : directive.opened? = none)
    (hFaults : content.faults directive = []) :
    (s.obey directive).Filling before (content.after directive) ∧
      (s.obey directive).warnings = s.warnings := by
  have hContent : s.ruleset.content? ⟨before.length⟩ = some content := by
    rw [Ruleset.contents_eq_iff.1 hFilling.contents, List.getElem?_concat_length]
  obtain ⟨table, hTable, rfl⟩ := Ruleset.content?_eq_some_iff.1 hContent
  have hOpen := openTable?_eq_some_iff.2 ⟨hFilling.current, hTable⟩
  obtain ⟨next, hObey, hChanges⟩ := hFilling.sound.exists_obey_eq hOpen hOpened
  rw [hFaults, warnAll_nil] at hObey
  have hSound := (hFilling.sound.obey_spec directive).1
  rw [hObey] at hSound ⊢
  exact ⟨⟨hSound, hFilling.current, hChanges.contents_eq hFilling.contents⟩, rfl⟩

/-- Lines that the open table takes bring it to its later content, and raise no warning. -/
theorem Filling.foldl_readLine {before : List TableContent} {content later : TableContent}
    {lines : List String} (hFilling : s.Filling before content)
    (hTakes : content.Takes ((lines.filter fun line => !isAside line).map Directive.ofLine) later) :
    (lines.foldl readLine s).Filling before later ∧
      (lines.foldl readLine s).warnings = s.warnings := by
  induction lines generalizing s content with
  | nil =>
      cases hTakes
      exact ⟨hFilling, rfl⟩
  | cons line lines ih =>
      have hNext : Filling { s with line := s.line + 1 } before content :=
        ⟨hFilling.sound.atLine _, hFilling.current, hFilling.contents⟩
      rw [List.foldl_cons]
      by_cases hAside : isAside line = true
      · rw [List.filter_cons_of_neg (by simp [hAside])] at hTakes
        rw [readLine_of_isAside hAside]
        exact ih hNext hTakes
      · rw [List.filter_cons_of_pos (by simp [hAside]), List.map_cons] at hTakes
        cases hTakes with
        | cons hOpened hFaults hRest =>
            obtain ⟨hRead, hQuiet⟩ := hNext.obey hOpened hFaults
            obtain ⟨hLater, hSilent⟩ := ih hRead hRest
            exact ⟨hLater, hSilent.trans hQuiet⟩

/-- The line that names a new table opens it, and the table is empty. -/
theorem Sound.filling_openTable (hSound : s.Sound) {name : String}
    (hFree : ∀ content ∈ s.ruleset.contents, Text.fold content.name ≠ Text.fold name) :
    (s.openTable name).Filling s.ruleset.contents ⟨name, []⟩ ∧
      (s.openTable name).warnings = s.warnings := by
  have hNone := Ruleset.tableNamed?_eq_none_of_contents hSound.built.consistent hFree
  have hOpens : s.openTable name =
      { s with ruleset := s.ruleset.withTable name, current := some ⟨s.ruleset.contents.length⟩ } := by
    rw [openTable, Ruleset.openTable_of_free hNone, Ruleset.length_contents]
  have hLater := (hSound.obey_spec (.openTable name)).1
  rw [obey, hOpens] at hLater
  rw [hOpens]
  exact ⟨⟨hLater, rfl, s.ruleset.contents_withTable name⟩, rfl⟩

/-- Sections that write well-formed tables of new names add these tables, and raise no warning. -/
theorem Sound.foldl_readLine_of_writes {done rest : List TableEntry} {sections : List (List String)}
    {lines : List String} (hSections : List.Forall₂ TableEntry.Writes rest sections)
    (hLines : lines.filter (fun line => !isAside line) = sections.flatten)
    (hTables : WellFormed (done ++ rest)) (hSound : s.Sound)
    (hContents : s.ruleset.contents = done.map TableEntry.content) :
    (lines.foldl readLine s).Sound ∧ (lines.foldl readLine s).warnings = s.warnings ∧
      (lines.foldl readLine s).ruleset.contents = (done ++ rest).map TableEntry.content := by
  induction hSections generalizing s done lines with
  | nil =>
      have hAside : ∀ line ∈ lines, isAside line = true := by
        simpa using List.filter_eq_nil_iff.1 hLines
      rw [foldl_readLine_of_isAside hAside, List.append_nil]
      exact ⟨hSound.atLine _, rfl, hContents⟩
  | @cons entry section_ rest sections hSection hSections ih =>
      have hMem : entry ∈ done ++ entry :: rest := List.mem_append_right _ List.mem_cons_self
      obtain ⟨-, tail, rfl, hTakes⟩ := hSection.exists_takes (hTables.each entry hMem)
      rw [List.flatten_cons, List.filter_eq_append_iff] at hLines
      obtain ⟨here, later, rfl, hHere, hLater⟩ := hLines
      obtain ⟨asides, body, rfl, hAsides, -, hBody⟩ := List.filter_eq_cons_iff.1 hHere
      have hAside : ∀ line ∈ asides, isAside line = true := by simpa using hAsides
      have hFree : ∀ content ∈ s.ruleset.contents, Text.fold content.name ≠ Text.fold entry.name := by
        have hDistinct := hTables.distinct
        rw [Distinct, List.map_map, List.map_append, List.nodup_append] at hDistinct
        rw [hContents, List.forall_mem_map]
        exact fun earlier hEarlier =>
          hDistinct.2.2 _ (List.mem_map_of_mem hEarlier) _ List.mem_cons_self
      obtain ⟨hOpen, hQuiet⟩ :=
        (hSound.atLine (s.line + asides.length + 1)).filling_openTable hFree
      rw [← hBody] at hTakes
      obtain ⟨hFilled, hSilent⟩ := hOpen.foldl_readLine hTakes
      have hShift : done ++ entry :: rest = (done ++ [entry]) ++ rest := by simp
      rw [hShift] at hTables ⊢
      have hNow := hFilled.contents
      rw [hContents, ← List.map_singleton, ← List.map_append] at hNow
      obtain ⟨hLast, hMute, hAll⟩ := ih hLater hTables hFilled.sound hNow
      rw [List.foldl_append, List.foldl_append, List.foldl_cons, foldl_readLine_of_isAside hAside,
        readLine, ofLine_table (hTables.each entry (hShift ▸ hMem)).name_trimmed]
      exact ⟨hLast, hMute.trans (hSilent.trans hQuiet), hAll⟩

end Session

theorem isLine_of_writes {tables : List TableEntry} {sections : List (List String)}
    (hSections : List.Forall₂ TableEntry.Writes tables sections)
    (hTables : ∀ entry ∈ tables, entry.WellFormed) : ∀ line ∈ sections.flatten, Text.IsLine line := by
  induction hSections with
  | nil => simp
  | cons hSection hSections ih =>
      obtain ⟨hEntry, hRest⟩ := List.forall_mem_cons.1 hTables
      rw [List.flatten_cons, List.forall_mem_append]
      exact ⟨(hSection.exists_takes hEntry).1, ih hRest⟩

/-- Reading a dump that writes well-formed tables raises no warning and gives these tables. -/
theorem read_of_writes {tables : List TableEntry} {text : String} (hTables : WellFormed tables)
    (hWrites : Writes tables text) :
    (read text).warnings = #[] ∧
      (read text).ruleset.contents = tables.map TableEntry.content ∧
      (read text).ruleset.Confined := by
  obtain ⟨sections, lines, hSections, hFilter, hAsides, rfl⟩ := hWrites
  have hLines : ∀ line ∈ lines, Text.IsLine line := by
    intro line hMem
    by_cases hAside : isAside line = true
    · exact hAsides line hMem hAside
    · refine isLine_of_writes hSections hTables.each line ?_
      rw [← hFilter]
      exact List.mem_filter.2 ⟨hMem, by simp [hAside]⟩
  rw [read, Text.lines_unlines hLines]
  obtain ⟨hSound, hWarnings, hContents⟩ := @Session.Sound.foldl_readLine_of_writes .start []
    tables sections lines hSections hFilter hTables .start rfl
  exact ⟨hWarnings, hContents, hSound.confined⟩

/-- A table in which packets to the outside are masked. -/
def masking : List TableEntry :=
  [⟨"nat", [
    ⟨"POSTROUTING", "ACCEPT",
      [⟨some ["to", "-j", "wan"], none, none, none, none, some "eth1", some (.chain "wan"), none⟩]⟩,
    ⟨"wan", "-",
      [⟨none, some "tcp", none, none, none, none, some (.extension "Masquerade"), none⟩]⟩]⟩]

/-- A dump of the table, with a comment before it and its end marked. -/
def maskingLines : List String :=
  ["# saved", "*nat", ":POSTROUTING ACCEPT [0:0]", ":wan - [0:0]",
    "-A POSTROUTING --out-interface eth1 --comment \"to -j wan\" -j wan",
    "-A wan --jump Masquerade -p tcp", "COMMIT"]

theorem wellFormed_masking : WellFormed masking := by
  decide +kernel

theorem writes_masking : Writes masking (Text.unlines maskingLines) := by
  refine ⟨[maskingLines.tail.dropLast], maskingLines, ?_, by decide +kernel, by decide +kernel, rfl⟩
  refine .cons ⟨[[maskingLines[4]], [maskingLines[5]]], ?_, by decide +kernel⟩ .nil
  refine .cons (.cons ⟨[(.outInterface, "--out-interface"), (.comment, "--comment"), (.jump, "-j")],
    ?_, ?_, ?_⟩ .nil) (.cons (.cons ⟨[(.jump, "--jump"), (.protocol, "-p")], ?_, ?_, ?_⟩ .nil) .nil)
  · decide
  · decide
  · decide +kernel
  · decide
  · decide
  · decide +kernel

theorem read_of_writes_masking :
    (WellFormed masking ∧ Writes masking (Text.unlines maskingLines)) ∧
      (read (Text.unlines maskingLines)).warnings = #[] ∧
      (read (Text.unlines maskingLines)).ruleset.contents = masking.map TableEntry.content ∧
      (read (Text.unlines maskingLines)).ruleset.Confined :=
  ⟨⟨wellFormed_masking, writes_masking⟩, read_of_writes wellFormed_masking writes_masking⟩

end Dump

end PacketFlow
