import PacketFlow.Proofs.Dump.Effect
import PacketFlow.Proofs.Dump.Placement
import PacketFlow.Proofs.Ruleset.Confinement

/-!
Sessions step by step. In a sound session the ruleset is built by the operations and confined, and
the open table exists. Each line keeps a session sound, and what it does to the contents of the
tables and to the warnings is the effect of the line on the open table.
-/
namespace PacketFlow

/-- A later ruleset is built and confined as well, and differs from an earlier one in what one table
says: `change` tells how. -/
structure Ruleset.Changes (rs later : Ruleset) (t : TableId)
    (change : TableContent → TableContent) : Prop where
  built : later.Built
  confined : later.Confined
  keeps : rs.Extends later
  content (u : TableId) : later.content? u =
    (rs.content? u).map fun content => if u = t then change content else content

theorem Ruleset.Changes.congr {rs later : Ruleset} {t : TableId} {table : Table}
    {change change' : TableContent → TableContent} (hChanges : rs.Changes later t change)
    (hTable : rs.table? t = some table)
    (hSame : change (rs.tableContent table) = change' (rs.tableContent table)) :
    rs.Changes later t change' where
  built := hChanges.built
  confined := hChanges.confined
  keeps := hChanges.keeps
  content u := by
    rw [hChanges.content]
    by_cases hHere : u = t
    · subst hHere
      simp [content?, hTable, hSame]
    · simp only [hHere, if_false]

namespace Dump.Session

variable {s : Session}

/-- A session as lines leave it. -/
structure Sound (s : Session) : Prop where
  built : s.ruleset.Built
  confined : s.ruleset.Confined
  current {id : TableId} (hCurrent : s.current = some id) :
    ∃ table, s.ruleset.table? id = some table

theorem Sound.start : start.Sound where
  built := Ruleset.Built.empty
  confined := Ruleset.Confined.empty
  current hCurrent := by cases hCurrent

theorem openTable?_eq_some_iff {id : TableId} {table : Table} :
    s.openTable? = some (id, table) ↔ s.current = some id ∧ s.ruleset.table? id = some table := by
  simp [openTable?, Option.bind_eq_some_iff]

/-- A table is open in a sound session unless none has been opened. -/
theorem Sound.current_eq_none (hSound : s.Sound) (hClosed : s.openTable? = none) :
    s.current = none := by
  cases hCurrent : s.current with
  | none => rfl
  | some id =>
      obtain ⟨table, hTable⟩ := hSound.current hCurrent
      simp [openTable?, hCurrent, hTable] at hClosed

section Declarations

variable {id : TableId} {table : Table} {name : String} (policy : String)

theorem declareChain_of_closed (hClosed : s.current = none) :
    s.declareChain (some name) policy = s.warn (.noCurrentTable s!":{name}") := by
  simp only [declareChain, hClosed]

theorem declareChain_of_taken (hCurrent : s.current = some id)
    (hTable : s.ruleset.table? id = some table) {taken : ChainId}
    (hTaken : s.ruleset.chainNamed? id name = some taken) :
    s.declareChain (some name) policy = s.warn (.duplicateChain table.name name) := by
  simp only [declareChain, hCurrent, Ruleset.declareChain_of_taken policy hTable hTaken]

theorem declareChain_of_free (hCurrent : s.current = some id)
    (hTable : s.ruleset.table? id = some table) (hFree : s.ruleset.chainNamed? id name = none) :
    s.declareChain (some name) policy =
      { s with ruleset := s.ruleset.withChain id name policy } := by
  simp only [declareChain, hCurrent, Ruleset.declareChain_of_free policy hTable hFree]

end Declarations

theorem Sound.atLine (hSound : s.Sound) (line : Nat) : Sound { s with line := line } :=
  ⟨hSound.built, hSound.confined, hSound.current⟩

section Placement

variable {id : TableId} {table : Table} (rule : RuleLine)

/-- A new extension leaves the tables as they were. -/
theorem Sound.ready (hSound : s.Sound) :
    (rule.ready s.ruleset).Built ∧ (rule.ready s.ruleset).Confined ∧
      (rule.ready s.ruleset).content? = s.ruleset.content? := by
  have h := hSound.built.consistent
  cases hExtension : rule.extension? with
  | none =>
      rw [RuleLine.ready_of_extension?_eq_none hExtension]
      exact ⟨hSound.built, hSound.confined, rfl⟩
  | some name =>
      have hGrows : s.ruleset.Grows (s.ruleset.withExtension name) := .extension name
      rw [RuleLine.ready_of_extension? hExtension]
      refine ⟨hSound.built.grows hGrows, hSound.confined.extends hGrows.extends rfl, ?_⟩
      funext t
      exact Ruleset.content?_withExtension h hSound.confined.targetsExist name t

/-- A rule stays within its table, since its targets are looked up there. -/
theorem Sound.keepsWithin_body (hSound : s.Sound) (id : TableId) :
    (rule.ready s.ruleset).KeepsWithin id
      (rule.body (rule.target? s.ruleset id .jump) (rule.target? s.ruleset id .goto)) := by
  have hNamed {c : ChainId} {name? : Option String}
      (hFound : name?.bind (s.ruleset.chainNamed? id) = some c) :
      ∃ chain, (rule.ready s.ruleset).chain? c = some chain ∧ chain.table = some id := by
    obtain ⟨name, -, hFound⟩ := Option.bind_eq_some_iff.1 hFound
    obtain ⟨chain, hChain, hPlace, -⟩ := hSound.built.consistent.chainNamed?_eq_some_iff.1 hFound
    exact ⟨chain, rule.chain?_ready_of_some hChain, hPlace⟩
  intro transfer c hTarget
  cases transfer with
  | goto =>
      obtain ⟨chain, hChain, hPlace⟩ := hNamed hTarget
      exact ⟨chain, hChain, Or.inl hPlace⟩
  | jump =>
      cases hExtension : rule.extension? with
      | none =>
          change rule.target? s.ruleset id .jump = some c at hTarget
          rw [RuleLine.target?_of_extension?_eq_none hExtension] at hTarget
          obtain ⟨chain, hChain, hPlace⟩ := hNamed hTarget
          exact ⟨chain, hChain, Or.inl hPlace⟩
      | some name =>
          change rule.target? s.ruleset id .jump = some c at hTarget
          rw [RuleLine.target?_of_extension? hExtension] at hTarget
          obtain rfl := Option.some.inj hTarget
          rw [RuleLine.ready_of_extension? hExtension]
          exact ⟨_, Ruleset.chain?_withExtension_new name, Or.inr ⟨rfl, rfl⟩⟩

variable (hTable : s.ruleset.table? id = some table)

include hTable

theorem targetFaults_tableContent (hSound : s.Sound) (transfer : Transfer) (name? : Option String) :
    (s.ruleset.tableContent table).targetFaults transfer name? =
      (name?.filter (s.ruleset.lacks id)).toList.map (.unresolvedTarget table.name transfer) := by
  cases name? with
  | none => rfl
  | some name =>
      have hSome := hSound.built.consistent.isSome_chainNamed?_tableContent hTable name
      rw [TableContent.targetFaults, hSome, Option.filter_some, Ruleset.lacks]
      cases s.ruleset.chainNamed? id name with
      | some c => simp
      | none =>
          by_cases hVerdict : isVerdict name
          · simp [hVerdict]
          · simp [hVerdict]

/-- Which targets are lost is told by the content of the table. -/
theorem Sound.map_lostTargets (hSound : s.Sound) :
    ((rule.lostTargets s.ruleset id).map fun lost =>
        .unresolvedTarget table.name lost.1 lost.2) =
      (s.ruleset.tableContent table).jumpFaults (rule.targetName? .jump) ++
        (s.ruleset.tableContent table).targetFaults .goto (rule.targetName? .goto) := by
  have hJump : (s.ruleset.tableContent table).jumpFaults (rule.targetName? .jump) =
      ((rule.soughtName? .jump).filter (s.ruleset.lacks id)).toList.map
        (.unresolvedTarget table.name .jump) := by
    cases hExtension : rule.extension? with
    | some name =>
        rw [RuleLine.soughtName?_jump_of_extension? hExtension]
        rw [RuleLine.extension?] at hExtension
        simp [TableContent.jumpFaults, hExtension]
    | none =>
        rw [RuleLine.soughtName?_of_extension?_eq_none hExtension,
          ← targetFaults_tableContent hTable hSound]
        rw [RuleLine.extension?] at hExtension
        simp [TableContent.jumpFaults, hExtension]
  rw [hJump, targetFaults_tableContent hTable hSound]
  simp [RuleLine.lostTargets, RuleLine.soughtName?, Function.comp_def]

/-- What the targets stand for is told by the content of the table. -/
theorem Sound.destinations_eq (hSound : s.Sound) :
    (rule.target? s.ruleset id .jump).bind (rule.ready s.ruleset).destination? =
        (s.ruleset.tableContent table).jumpOf? (rule.targetName? .jump) ∧
      (rule.target? s.ruleset id .goto).bind (rule.ready s.ruleset).destination? =
        (s.ruleset.tableContent table).destinationOf? (rule.targetName? .goto) := by
  obtain ⟨hBuilt, -, hContents⟩ := hSound.ready rule
  have hReadyTable : (rule.ready s.ruleset).table? id = some table := by
    rw [rule.table?_ready, hTable]
  have hSameContent : (rule.ready s.ruleset).tableContent table = s.ruleset.tableContent table := by
    have hSame := congrFun hContents id
    rw [Ruleset.content?, Ruleset.content?, hReadyTable, hTable] at hSame
    exact Option.some.inj hSame
  have hNamed (name? : Option String) :
      (name?.bind (s.ruleset.chainNamed? id)).bind (rule.ready s.ruleset).destination? =
        (s.ruleset.tableContent table).destinationOf? name? := by
    rw [← rule.chainNamed?_ready hSound.built.consistent, TableContent.destinationOf?,
      ← hSameContent, Option.bind_assoc]
    simp only [hBuilt.consistent.destination?_of_chainNamed? hReadyTable]
  refine ⟨?_, hNamed (rule.targetName? .goto)⟩
  cases hExtension : rule.extension? with
  | none =>
      rw [RuleLine.target?_of_extension?_eq_none hExtension, hNamed]
      rw [RuleLine.extension?] at hExtension
      simp [TableContent.jumpOf?, hExtension]
  | some name =>
      rw [RuleLine.target?_of_extension? hExtension, RuleLine.ready_of_extension? hExtension,
        Option.bind_some, Ruleset.destination?, Ruleset.chain?_withExtension_new]
      rw [RuleLine.extension?] at hExtension
      simp [TableContent.jumpOf?, hExtension]

/-- A rule is placed at the end of its chain, whatever becomes of its targets. -/
theorem Sound.exists_placeRule_eq (hSound : s.Sound) {name : String} {chain : ChainId}
    (hChain : s.ruleset.chainNamed? id name = some chain) :
    ∃ next, s.placeRule id table chain rule =
        { s.warnAll ((s.ruleset.tableContent table).jumpFaults (rule.targetName? .jump) ++
            (s.ruleset.tableContent table).targetFaults .goto (rule.targetName? .goto)) with
          ruleset := next } ∧
      s.ruleset.Changes next id (·.place name rule) := by
  have h := hSound.built.consistent
  obtain ⟨owner, hOwner, hInTable, hOwnerName⟩ := h.chainNamed?_eq_some_iff.1 hChain
  obtain ⟨hBuilt, hConfined, hContents⟩ := hSound.ready rule
  obtain ⟨hJump, hGoto⟩ := hSound.destinations_eq rule hTable
  have hReadyOwner := rule.chain?_ready_of_some hOwner
  have hWithin := hSound.keepsWithin_body rule id
  have hGrows := Ruleset.Grows.rule
    (rule.body (rule.target? s.ruleset id .jump) (rule.target? s.ruleset id .goto)) hReadyOwner
  refine ⟨_, ?_, Ruleset.Changes.congr ⟨hBuilt.grows hGrows,
    hConfined.withRule hReadyOwner hInTable hWithin, (rule.extends_ready _).trans hGrows.extends,
    fun t => by rw [Ruleset.content?_withRule hBuilt.consistent hConfined.targetsExist _ hReadyOwner
      hInTable hWithin.targets_exist, hContents]⟩ hTable ?_⟩
  · rw [placeRule_eq h id table hOwner, hSound.map_lostTargets rule hTable]
  · simp only [TableContent.place, RuleLine.body, hJump, hGoto,
      TableContent.addRule_congr _ hOwnerName]
    rfl

end Placement

section Lines

variable {directive : Directive}

/-- The name of the open table in small letters. -/
def owner? (s : Session) : Option String :=
  s.openTable?.map fun opened => Text.fold opened.2.name

/-- While no table is open, a line that opens none changes nothing. -/
theorem obey_of_current_eq_none (hClosed : s.current = none) (hLine : directive.opened? = none) :
    s.obey directive = s.warnAll directive.faultsOutside := by
  have hOpen : s.openTable? = none := by rw [openTable?, hClosed, Option.bind_none]
  cases directive with
  | openTable name => cases hLine
  | declareChain name? policy =>
      cases name? <;>
        simp [obey, declareChain, hClosed, Directive.faultsOutside, warn_eq_warnAll]
  | appendRule rule =>
      cases hName : rule.chainName? <;>
        simp [obey, appendRule, hOpen, hName, Directive.faultsOutside, warn_eq_warnAll]
  | nothing => exact (warnAll_nil s).symm

theorem Sound.changes_self (hSound : s.Sound) (id : TableId) :
    s.ruleset.Changes s.ruleset id fun content => content where
  built := hSound.built
  confined := hSound.confined
  keeps := .refl _
  content t := by simp

/-- A line that opens no table has its effect on the one that is open. -/
theorem Sound.exists_obey_eq (hSound : s.Sound) {id : TableId} {table : Table}
    (hOpen : s.openTable? = some (id, table)) (hLine : directive.opened? = none) :
    ∃ next, s.obey directive =
        { s.warnAll ((s.ruleset.tableContent table).faults directive) with ruleset := next } ∧
      s.ruleset.Changes next id (·.after directive) := by
  have h := hSound.built.consistent
  obtain ⟨hCurrent, hTable⟩ := openTable?_eq_some_iff.1 hOpen
  have hSelf := hSound.changes_self id
  cases directive with
  | openTable name => cases hLine
  | nothing => exact ⟨s.ruleset, by simp [obey, TableContent.faults], hSelf⟩
  | declareChain name? policy =>
      cases name? with
      | none =>
          refine ⟨s.ruleset, ?_, hSelf⟩
          simp [obey, declareChain, TableContent.faults, warn_eq_warnAll, warnAll]
      | some name =>
          have hSome := h.isSome_chainNamed?_tableContent hTable name
          cases hFound : s.ruleset.chainNamed? id name with
          | some taken =>
              refine ⟨s.ruleset, ?_, hSelf.congr hTable ?_⟩
              · simp [obey, declareChain_of_taken policy hCurrent hTable hFound, TableContent.faults, hSome,
                  hFound, warn_eq_warnAll, warnAll]
              · simp [TableContent.after, hSome, hFound]
          | none =>
              have hGrows := Ruleset.Grows.chain policy hTable hFound
              refine ⟨s.ruleset.withChain id name policy, ?_, Ruleset.Changes.congr
                ⟨hSound.built.grows hGrows, hSound.confined.extends hGrows.extends rfl,
                  hGrows.extends, Ruleset.content?_withChain h hSound.confined.targetsExist policy
                    hTable hFound⟩ hTable ?_⟩
              · simp [obey, declareChain_of_free policy hCurrent hTable hFound, TableContent.faults, hSome,
                  hFound]
              · simp [TableContent.after, hSome, hFound]
  | appendRule rule =>
      cases hName : rule.chainName? with
      | none =>
          refine ⟨s.ruleset, ?_, hSelf.congr hTable ?_⟩
          · simp [obey, appendRule, hName, TableContent.faults, warn_eq_warnAll, warnAll]
          · simp [TableContent.after, hName]
      | some name =>
          have hSome := h.isSome_chainNamed?_tableContent hTable name
          cases hFound : s.ruleset.chainNamed? id name with
          | none =>
              rw [hFound, Option.isSome_none, Option.isSome_eq_false_iff, Option.isNone_iff_eq_none]
                at hSome
              refine ⟨s.ruleset, ?_, hSelf.congr hTable ?_⟩
              · simp [obey, appendRule, hOpen, hName, hFound, TableContent.faults, hSome,
                  warn_eq_warnAll, warnAll]
              · simp [TableContent.after, hName, TableContent.place,
                  TableContent.addRule_of_chainNamed?_eq_none hSome]
          | some chain =>
              obtain ⟨next, hPlace, hChanges⟩ := hSound.exists_placeRule_eq rule hTable hFound
              refine ⟨next, ?_, hChanges.congr hTable ?_⟩
              · simp [obey, appendRule, hOpen, hName, hFound, TableContent.faults, hSome, hPlace]
              · simp [TableContent.after, hName]

/-- After a line that opens a table, the table of that name is open. It says what it said before, or
nothing if it is new. -/
theorem Sound.exists_openTable_eq (hSound : s.Sound) (name : String) :
    ∃ id table next, s.openTable name = { s with ruleset := next, current := some id } ∧
      next.Built ∧ next.Confined ∧ s.ruleset.Extends next ∧ next.table? id = some table ∧
      Text.fold table.name = Text.fold name ∧
      ∀ other, next.contentNamed? other = if Text.fold name = Text.fold other then
        TableContent.afterLine? (s.ruleset.contentNamed? other) (.openTable name)
        else s.ruleset.contentNamed? other := by
  have h := hSound.built.consistent
  cases hFound : s.ruleset.tableNamed? name with
  | some id =>
      obtain ⟨table, hTable, hName⟩ := h.fold_eq_of_tableNamed?_eq_some hFound
      refine ⟨id, table, s.ruleset, ?_, hSound.built, hSound.confined, .refl _, hTable, hName, ?_⟩
      · simp [openTable, Ruleset.openTable_of_taken hFound]
      · intro other
        split
        next hSame =>
          rw [← Ruleset.contentNamed?_congr hSame, Ruleset.contentNamed?, hFound, Option.bind_some,
            Ruleset.content?, hTable]
          rfl
        next => rfl
  | none =>
      have hGrows := Ruleset.Grows.table hFound
      refine ⟨⟨s.ruleset.tables.size⟩, ⟨name, []⟩, s.ruleset.withTable name, ?_,
        hSound.built.grows hGrows, hSound.confined.extends hGrows.extends rfl, hGrows.extends, ?_,
        rfl, ?_⟩
      · simp [openTable, Ruleset.openTable_of_free hFound]
      · rw [Ruleset.table?_withTable, if_pos rfl]
      · intro other
        rw [Ruleset.contentNamed?_withTable h hFound]
        split
        next hSame =>
          rw [← Ruleset.contentNamed?_congr hSame, Ruleset.contentNamed?_of_free hFound]
          rfl
        next => rfl

/-- A line keeps the session sound, decides which table is open, and has its effect on that table
alone. -/
theorem Sound.obey_spec (hSound : s.Sound) (directive : Directive) :
    (s.obey directive).Sound ∧ (s.obey directive).owner? = directive.opened?.or s.owner? ∧
      ∀ name, (s.obey directive).ruleset.contentNamed? name =
        if (s.obey directive).owner? = some (Text.fold name) then
          TableContent.afterLine? (s.ruleset.contentNamed? name) directive
        else s.ruleset.contentNamed? name := by
  cases hLine : directive.opened? with
  | some key =>
      obtain ⟨name, rfl, rfl⟩ := exists_of_opened?_eq_some hLine
      obtain ⟨id, table, next, hObey, hBuilt, hConfined, -, hTable, hName, hContents⟩ :=
        hSound.exists_openTable_eq name
      have hOwner : (s.obey (.openTable name)).owner? = some (Text.fold name) := by
        simp [obey, hObey, owner?, openTable?, hTable, hName]
      refine ⟨?_, hOwner, fun other => ?_⟩
      · rw [obey, hObey]
        exact ⟨hBuilt, hConfined, fun hCurrent => by cases hCurrent; exact ⟨table, hTable⟩⟩
      · simp only [hOwner, Option.some.injEq]
        rw [obey, hObey]
        exact hContents other
  | none =>
      rw [Option.none_or]
      cases hOpen : s.openTable? with
      | none =>
          have hObey := obey_of_current_eq_none (hSound.current_eq_none hOpen) hLine
          have hOwner : s.owner? = none := by rw [owner?, hOpen, Option.map_none]
          have hSame : (s.warnAll directive.faultsOutside).owner? = s.owner? := rfl
          rw [hObey, hSame, hOwner]
          exact ⟨⟨hSound.built, hSound.confined, hSound.current⟩, rfl, fun name => rfl⟩
      | some opened =>
          obtain ⟨id, table⟩ := opened
          obtain ⟨hCurrent, hTable⟩ := openTable?_eq_some_iff.1 hOpen
          obtain ⟨next, hObey, hChanges⟩ := hSound.exists_obey_eq hOpen hLine
          obtain ⟨later, hLater, hName, -⟩ := hChanges.keeps.table hTable
          have hOwner : s.owner? = some (Text.fold table.name) := by
            rw [owner?, hOpen, Option.map_some]
          have hSame : (s.obey directive).owner? = s.owner? := by
            rw [hOwner, hObey]
            simp [owner?, openTable?, warnAll, hCurrent, hLater, hName]
          refine ⟨?_, hSame, fun name => ?_⟩
          · rw [hObey]
            refine ⟨hChanges.built, hChanges.confined, fun hStill => ?_⟩
            obtain rfl := Option.some.inj (hCurrent.symm.trans hStill)
            exact ⟨later, hLater⟩
          · have hNamed := Ruleset.contentNamed?_of_content? hSound.built.consistent
              hChanges.built.consistent hTable
              (fun content => content.after_name directive) hChanges.content name
            simp only [hSame, hOwner, Option.some.injEq]
            rw [hObey]
            refine hNamed.trans ?_
            split
            next hHere =>
              have hFound : s.ruleset.contentNamed? name = some (s.ruleset.tableContent table) :=
                hSound.built.consistent.contentNamed?_eq_some_iff.2
                  ⟨id, by rw [Ruleset.content?, hTable, Option.map_some], hHere⟩
              rw [hFound]
              rfl
            next => exact Option.map_id'

end Lines

end Dump.Session

end PacketFlow
