import PacketFlow.Proofs.Dump.Extension
import PacketFlow.Proofs.Dump.Writing

/-!
What chains are called. The name of every chain is a word, be it declared or an extension. A rule that
leads somewhere leads to the chain that its line names, in whatever case it is written. A flag without
a value gives the name `true`, so it has a target where the open table has a chain of that name, and
only there.
-/
namespace PacketFlow.Dump

open Argument

section Words

/-- All chains have names that are words. -/
def HasWordNames (rs : Ruleset) : Prop :=
  ∀ c chain, rs.chain? c = some chain → Text.IsWord chain.name

theorem isWord_of_ofLine_eq_declareChain {line name policy : String}
    (hLine : Directive.ofLine line = .declareChain (some name) policy) : Text.IsWord name := by
  simp only [Directive.ofLine] at hLine
  split at hLine
  · cases hLine
  next declaration _ =>
    have hMem : name ∈ Text.words (.ofList declaration) := by
      unfold Directive.ofDeclaration at hLine
      split at hLine
      · cases hLine
      next hWords =>
        cases hLine
        simp [hWords]
      next hWords =>
        cases hLine
        simp [hWords]
    exact Text.isWord_of_mem_words hMem
  · cases hLine
  · cases hLine

theorem RuleLine.hasWordNames_ready (rule : RuleLine) {rs : Ruleset} (hWords : HasWordNames rs) :
    HasWordNames (rule.ready rs) := by
  cases hExtension : rule.extension? with
  | none => rwa [ready_of_extension?_eq_none hExtension]
  | some name =>
      rw [ready_of_extension? hExtension]
      intro c chain hChain
      rcases Ruleset.chain?_withExtension_cases hChain with ⟨-, rfl⟩ | hOld
      · exact (isPlainWord_of_isExtensionName (Option.filter_eq_some_iff.1 hExtension).2).toIsWord
      · exact hWords c chain hOld

theorem Session.Reads.hasWordNames {s next : Session} {line : String} (hReads : s.Reads line next)
    (hWords : HasWordNames s.ruleset) : HasWordNames next.ruleset := by
  cases hReads with
  | passed => exact hWords
  | refused => exact hWords
  | opened hLine hTable =>
      rcases hTable with ⟨-, rfl⟩ | ⟨-, -, rfl⟩
      · exact hWords
      · exact hWords
  | declared hLine =>
      intro c chain hChain
      rcases Ruleset.chain?_withChain_cases hChain with ⟨-, rfl⟩ | hOld
      · exact isWord_of_ofLine_eq_declareChain hLine
      · exact hWords c chain hOld
  | @appended rule =>
      intro c chain hChain
      obtain ⟨old, hOld, rfl⟩ := Ruleset.chain?_withRule_cases hChain
      exact rule.hasWordNames_ready hWords c old hOld

theorem hasWordNames_readLines (lines : List String) : HasWordNames (readLines lines).ruleset := by
  induction lines using List.reverseRecOn with
  | nil =>
      intro c chain hChain
      simp [readLines, Session.start, Ruleset.empty, Ruleset.chain?] at hChain
  | append_singleton lines line ih => exact (reads_readLines lines line).hasWordNames ih

/-- No chain is found under a name that is no word. -/
theorem chainNamed?_eq_none_of_not_isWord (lines : List String) (id : TableId) {name : String}
    (hName : ¬Text.IsWord name) : (readLines lines).ruleset.chainNamed? id name = none := by
  refine Option.eq_none_iff_forall_ne_some.2 fun c hFound => hName ?_
  obtain ⟨-, chain, -, -, hChain, hSame⟩ := Ruleset.fold_eq_of_chainNamed?_eq_some hFound
  exact (hasWordNames_readLines lines c chain hChain).of_fold_eq hSame

end Words

section Targets

/-- The first pair of a line that gives a target of that kind. -/
def targetPair? (line : String) (transfer : Transfer) : Option Argument :=
  find? (RuleLine.targetFlags transfer) (arguments (Text.trim line))

/-- The chain has the name that the pair gives, or the name `true` if the pair is a flag alone. -/
inductive Designates (rs : Ruleset) (c : ChainId) (a : Argument) : Prop
  | text {text : String} {chain : Chain} (hText : a.value? = some text)
      (hChain : rs.chain? c = some chain) (hName : Text.fold chain.name = Text.fold text)
  | bare {chain : Chain} (hBare : a.value? = none) (hChain : rs.chain? c = some chain)
      (hName : Text.fold chain.name = "true")

theorem targetName?_eq_map_targetPair? {line : String} {rule : RuleLine}
    (hLine : Directive.ofLine line = .appendRule rule) (transfer : Transfer) :
    rule.targetName? transfer = (targetPair? line transfer).map Argument.reading := by
  rw [RuleLine.targetName?, eq_of_ofLine_eq_appendRule hLine, targetPair?]

theorem designates_of_reading {rs : Ruleset} {c : ChainId} {chain : Chain} {a : Argument}
    (hChain : rs.chain? c = some chain) (hName : Text.fold chain.name = Text.fold a.reading) :
    Designates rs c a := by
  rw [reading] at hName
  cases hText : a.value? with
  | some text => exact .text hText hChain (by rwa [hText] at hName)
  | none =>
      have hTrue : Text.fold "true" = "true" := by decide +kernel
      rw [hText, Option.getD_none, hTrue] at hName
      exact .bare hText hChain hName

theorem RuleLine.target?_body (rule : RuleLine) (rs : Ruleset) (id : TableId) (transfer : Transfer) :
    (rule.body (rule.target? rs id .jump) (rule.target? rs id .goto)).target? transfer =
      rule.target? rs id transfer := by
  cases transfer <;> rfl

/-- What a rule leads to is called what the line of the rule calls it. Without the flag there is no
target, and to a flag without a value only the chain `true` of the open table can be the target. -/
theorem target_designated {lines : List String} {line : String} {rule : Rule}
    (hRule : (readLines (lines ++ [line])).ruleset.rule? ⟨(readLines lines).ruleset.rules.size⟩ =
      some rule) (transfer : Transfer) :
    (∀ c, rule.target? transfer = some c → ∃ a, targetPair? line transfer = some a ∧
        Designates (readLines (lines ++ [line])).ruleset c a) ∧
      (targetPair? line transfer = none → rule.target? transfer = none) ∧
      ∀ a, targetPair? line transfer = some a → a.value? = none → ∃ id table,
        (readLines lines).openTable? = some (id, table) ∧
          rule.target? transfer = (readLines lines).ruleset.chainNamed? id "true" := by
  obtain ⟨ruleLine, id, table, hLine, hOpen, hExtends, hBody⟩ :=
    (reads_readLines lines line).exists_appended (Ruleset.rule?_size _) hRule
  have hName := targetName?_eq_map_targetPair? hLine transfer
  rw [hBody, ruleLine.target?_body]
  refine ⟨fun c hTarget => ?_, fun hNone => ?_, fun a hPair hBare => ?_⟩
  · obtain ⟨name, chain, hGiven, hChain, hSame⟩ := RuleLine.exists_chain_of_target? hTarget
    rw [hName, Option.map_eq_some_iff] at hGiven
    obtain ⟨a, hPair, rfl⟩ := hGiven
    obtain ⟨later, hLater, hLaterName, -⟩ := hExtends.chain hChain
    exact ⟨a, hPair, designates_of_reading hLater (hLaterName ▸ hSame)⟩
  · rw [hNone, Option.map_none] at hName
    refine Option.eq_none_iff_forall_ne_some.2 fun c hTarget => ?_
    obtain ⟨name, -, hGiven, -⟩ := RuleLine.exists_chain_of_target? hTarget
    rw [hName] at hGiven
    cases hGiven
  · have hReading : a.reading = "true" := by rw [reading, hBare, Option.getD_none]
    rw [hPair, Option.map_some, hReading] at hName
    refine ⟨id, table, hOpen, ?_⟩
    -- The word for a missing value is not the name of an extension, so it is looked up in the table.
    have hExtension (hJump : ruleLine.targetName? .jump = some "true") :
        ruleLine.extension? = none := by
      rw [RuleLine.extension?, hJump]
      decide +kernel
    cases transfer with
    | jump => rw [RuleLine.target?_of_extension?_eq_none (hExtension hName), hName, Option.bind_some]
    | goto => rw [RuleLine.target?, RuleLine.soughtName?, hName, Option.bind_some]

/-- An open table with an input chain and a further chain. -/
def lanLines : List String :=
  ["*filter", ":INPUT ACCEPT [0:0]", ":lan - [0:0]"]

theorem target_designated_lan :
    ∃ a, targetPair? "-A INPUT -j log -g lan" .goto = some a ∧
      Designates (readLines (lanLines ++ ["-A INPUT -j log -g lan"])).ruleset ⟨1⟩ a := by
  have hGoto : ((readLines (lanLines ++ ["-A INPUT -j log -g lan"])).ruleset.rule?
      ⟨(readLines lanLines).ruleset.rules.size⟩).bind (·.target? .goto) = some ⟨1⟩ := by
    decide +kernel
  obtain ⟨rule, hRule, hTarget⟩ := Option.bind_eq_some_iff.1 hGoto
  exact (target_designated hRule .goto).1 ⟨1⟩ hTarget

/-- A jump without a name leads to the chain `true`, where there is one. -/
theorem target_of_bare_flag :
    (targetPair? "-A INPUT -j" .jump).map Argument.value? = some none ∧
      ((readLines ["*filter", ":INPUT ACCEPT [0:0]", ":true - [0:0]",
        "-A INPUT -j"]).ruleset.rule? ⟨0⟩).map (·.jump) = some (some ⟨1⟩) := by
  decide +kernel

end Targets

end PacketFlow.Dump
