import PacketFlow.Proofs.Dump.Session

/-!
The lines of one table. A line belongs to the table that was named last when it is read. What a
table says after a dump is told by its own lines, whatever stands between them.
-/
namespace PacketFlow.Dump

/-- The table that a line names, in small letters: the text after the star, trimmed. -/
def namedTable? (line : String) : Option String :=
  match (Text.trim line).toList with
  | '*' :: name => some (Text.fold (Text.trim (.ofList name)))
  | _ => none

/-- The lines that belong to a table, where `owner` is the table named last before them. -/
def ownedFrom (key : String) : (owner : Option String) → List String → List String
  | _, [] => []
  | owner, line :: rest =>
    let owner := (namedTable? line).or owner
    if owner = some key then line :: ownedFrom key owner rest else ownedFrom key owner rest

/-- The lines of a dump that belong to a table. -/
def ownedLines (key : String) (lines : List String) : List String :=
  ownedFrom key none lines

/-- What a table says that has been given these lines. -/
def contentOf? (content? : Option TableContent) (lines : List String) : Option TableContent :=
  (lines.map Directive.ofLine).foldl TableContent.afterLine? content?

theorem opened?_ofLine (line : String) : (Directive.ofLine line).opened? = namedTable? line := by
  simp only [Directive.ofLine, namedTable?]
  generalize (Text.trim line).toList = cs
  split
  · rfl
  · unfold Directive.ofDeclaration
    split <;> rfl
  · rfl
  next hTable _ _ =>
    split
    · exact absurd rfl (hTable _)
    · rfl

/-- Reading a line has its effect on the table that the line belongs to. -/
theorem Session.Sound.readLine_spec {s : Session} (hSound : s.Sound) (line : String) :
    (s.readLine line).Sound ∧ (s.readLine line).owner? = (namedTable? line).or s.owner? ∧
      ∀ name, (s.readLine line).ruleset.contentNamed? name =
        if (s.readLine line).owner? = some (Text.fold name) then
          TableContent.afterLine? (s.ruleset.contentNamed? name) (.ofLine line)
        else s.ruleset.contentNamed? name := by
  rw [← opened?_ofLine]
  exact (hSound.atLine (s.line + 1)).obey_spec (.ofLine line)

/-- Reading lines has their effects on the tables that the lines belong to. -/
theorem Session.Sound.readLines_spec {s : Session} (hSound : s.Sound) (lines : List String) :
    (lines.foldl readLine s).Sound ∧
      ∀ name, (lines.foldl readLine s).ruleset.contentNamed? name =
        contentOf? (s.ruleset.contentNamed? name) (ownedFrom (Text.fold name) s.owner? lines) := by
  induction lines generalizing s with
  | nil => exact ⟨hSound, fun name => rfl⟩
  | cons line lines ih =>
      obtain ⟨hNext, hOwner, hContent⟩ := hSound.readLine_spec line
      obtain ⟨hLater, hRest⟩ := ih hNext
      rw [List.foldl_cons]
      refine ⟨hLater, fun name => ?_⟩
      rw [hRest, hContent, ownedFrom, ← hOwner]
      split <;> rfl

theorem sound_readLines (lines : List String) : (readLines lines).Sound :=
  (Session.Sound.start.readLines_spec lines).1

/-- What a table says after a dump is what it says after its own lines. -/
theorem contentNamed?_readLines (lines : List String) (name : String) :
    (readLines lines).ruleset.contentNamed? name =
      contentOf? none (ownedLines (Text.fold name) lines) := by
  have hEmpty : Session.start.ruleset.contentNamed? name = none :=
    Ruleset.contentNamed?_of_free rfl
  rw [readLines, (Session.Sound.start.readLines_spec lines).2, hEmpty]
  rfl

/-- The lines of a table are its lines in themselves: whatever else is left out, each of them is still
read while the table is open. -/
theorem ownedFrom_ownedFrom {key : String} {owner owner' : Option String} (lines : List String)
    (hOwner : owner = some key → owner' = some key) :
    ownedFrom key owner' (ownedFrom key owner lines) = ownedFrom key owner lines := by
  induction lines generalizing owner owner' with
  | nil => rfl
  | cons line lines ih =>
      rw [ownedFrom]
      by_cases hHere : (namedTable? line).or owner = some key
      · have hThere : (namedTable? line).or owner' = some key := by
          cases hNamed : namedTable? line with
          | some name => simpa [hNamed] using hHere
          | none => simpa using hOwner (by simpa [hNamed] using hHere)
        simp only [hHere, if_true, ownedFrom, hThere]
        rw [ih fun _ => rfl]
      · simp only [hHere, if_false]
        exact ih fun hSame => absurd hSame hHere

theorem ownedLines_ownedLines (key : String) (lines : List String) :
    ownedLines key (ownedLines key lines) = ownedLines key lines :=
  ownedFrom_ownedFrom lines id

/-- A line makes sure of the table that it names, and of no other. -/
theorem Session.Sound.isSome_tableNamed?_readLine {s : Session} (hSound : s.Sound) (line : String)
    (name : String) :
    ((s.readLine line).ruleset.tableNamed? name).isSome ↔
      (s.ruleset.tableNamed? name).isSome ∨ namedTable? line = some (Text.fold name) := by
  obtain ⟨hNext, hOwner, hContent⟩ := hSound.readLine_spec line
  rw [← Ruleset.isSome_contentNamed? hNext.built.consistent,
    ← Ruleset.isSome_contentNamed? hSound.built.consistent, hContent name, hOwner]
  cases hFound : s.ruleset.contentNamed? name with
  | some content =>
      simp only [Option.isSome_some, true_or, iff_true]
      split <;> rfl
  | none =>
      simp only [Option.isSome_none, Bool.false_eq_true, false_or]
      cases hNamed : namedTable? line with
      | some key =>
          obtain ⟨opened, hLine, -⟩ :=
            exists_of_opened?_eq_some ((opened?_ofLine line).trans hNamed)
          by_cases hSame : key = Text.fold name
          · simp [hSame, hLine, TableContent.afterLine?]
          · simp [hSame]
      | none =>
          -- Nothing but the opening of a table makes one.
          have hNone : TableContent.afterLine? none (Directive.ofLine line) = none := by
            have hOpened := (opened?_ofLine line).trans hNamed
            cases hLine : Directive.ofLine line with
            | openTable opened => simp [hLine, Directive.opened?] at hOpened
            | declareChain name? policy => rfl
            | appendRule rule => rfl
            | nothing => rfl
          simp [hNone]

/-- The tables after a dump are those that its lines name. -/
theorem isSome_tableNamed?_readLines (lines : List String) (name : String) :
    ((readLines lines).ruleset.tableNamed? name).isSome ↔
      Text.fold name ∈ lines.filterMap namedTable? := by
  have hLines {s : Session} (hSound : s.Sound) :
      ((lines.foldl Session.readLine s).ruleset.tableNamed? name).isSome ↔
        (s.ruleset.tableNamed? name).isSome ∨ Text.fold name ∈ lines.filterMap namedTable? := by
    induction lines generalizing s with
    | nil => simp
    | cons line lines ih =>
        obtain ⟨hNext, -⟩ := hSound.readLine_spec line
        rw [List.foldl_cons, ih hNext, hSound.isSome_tableNamed?_readLine, or_assoc]
        simp only [List.mem_filterMap, List.mem_cons, exists_eq_or_imp]
  have hEmpty : (Session.start.ruleset.tableNamed? name).isSome = false := rfl
  rw [readLines, hLines Session.Sound.start, hEmpty]
  simp

end PacketFlow.Dump
