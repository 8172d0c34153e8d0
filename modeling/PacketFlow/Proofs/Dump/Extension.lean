import PacketFlow.Proofs.Dump.Step

/-!
The extensions of a dump. An extension is added only together with the rule that jumps to it, so each
has exactly one rule that jumps to it, and none that goes to it. Chains are looked up in tables, where
no extension is, so what a name stands for is decided by the catalogue before any table is asked.
-/
namespace PacketFlow

namespace Ruleset

variable {rs : Ruleset}

/-- The rule of that number jumps to the chain. -/
def Jumps (rs : Ruleset) (r : RuleId) (c : ChainId) : Prop :=
  ∃ rule, rs.rule? r = some rule ∧ rule.jump = some c

/-- Every extension has the name of one, and there is exactly one rule that jumps to it. -/
def ExtensionsUsed (rs : Ruleset) : Prop :=
  ∀ c chain, rs.chain? c = some chain → chain.isExtension = true →
    Dump.isExtensionName chain.name = true ∧ ∃! r, rs.Jumps r c

theorem rule?_size (rs : Ruleset) : rs.rule? ⟨rs.rules.size⟩ = none := by
  simp [rule?]

theorem chain?_size (rs : Ruleset) : rs.chain? ⟨rs.chains.size⟩ = none := by
  simp [chain?]

theorem jumps_withRule {id c : ChainId} {body : RuleBody} {position : Nat} {r : RuleId} :
    (rs.withRule id body position).Jumps r c ↔
      (r = ⟨rs.rules.size⟩ ∧ body.jump = some c) ∨ rs.Jumps r c := by
  simp only [Jumps, rule?_withRule]
  by_cases hNew : r = ⟨rs.rules.size⟩
  · subst hNew
    simp [rule?_size]
  · simp [hNew]

/-- A rule that jumps to no extension leaves the extensions their rules. -/
theorem ExtensionsUsed.withRule (hUsed : rs.ExtensionsUsed) (id : ChainId) {body : RuleBody}
    (position : Nat)
    (hJump : ∀ c chain, body.jump = some c → rs.chain? c = some chain → chain.isExtension = false) :
    (rs.withRule id body position).ExtensionsUsed := by
  intro c chain hChain hExtension
  obtain ⟨old, hOld, rfl⟩ := chain?_withRule_cases hChain
  obtain ⟨hName, r, hJumps, hOnly⟩ := hUsed c old hOld hExtension
  refine ⟨hName, r, jumps_withRule.2 (Or.inr hJumps), fun r' hJumps' => ?_⟩
  rcases jumps_withRule.1 hJumps' with ⟨-, hTarget⟩ | hJumps'
  · exact absurd (hJump c old hTarget hOld) (by simpa [listRule] using hExtension)
  · exact hOnly r' hJumps'

/-- A new extension and a rule that jumps to it go together. -/
theorem ExtensionsUsed.withExtension_withRule (hUsed : rs.ExtensionsUsed)
    (hTargets : rs.TargetsExist) {name : String} (hName : Dump.isExtensionName name = true)
    (id : ChainId) {body : RuleBody} (position : Nat)
    (hJump : body.jump = some ⟨rs.chains.size⟩) :
    ((rs.withExtension name).withRule id body position).ExtensionsUsed := by
  intro c chain hChain hExtension
  obtain ⟨old, hOld, rfl⟩ := chain?_withRule_cases hChain
  rcases chain?_withExtension_cases hOld with ⟨rfl, rfl⟩ | hOld
  · -- No rule that was there jumps to a chain that was not.
    refine ⟨hName, ⟨rs.rules.size⟩, jumps_withRule.2 (Or.inl ⟨rfl, hJump⟩), fun r hJumps => ?_⟩
    rcases jumps_withRule.1 hJumps with ⟨rfl, -⟩ | ⟨rule, hRule, hTarget⟩
    · rfl
    · obtain ⟨target, hFound⟩ := hTargets r rule hRule .jump _ hTarget
      rw [chain?_size] at hFound
      cases hFound
  · obtain ⟨hOldName, r, hJumps, hOnly⟩ := hUsed c old hOld hExtension
    refine ⟨hOldName, r, jumps_withRule.2 (Or.inr hJumps), fun r' hJumps' => ?_⟩
    rcases jumps_withRule.1 hJumps' with ⟨-, hTarget⟩ | hJumps'
    · obtain rfl : ⟨rs.chains.size⟩ = c := Option.some.inj (hJump.symm.trans hTarget)
      rw [chain?_size] at hOld
      cases hOld
    · exact hOnly r' hJumps'

/-- An extension belongs to no table, so no rule of a confined ruleset belongs to it. -/
theorem Confined.rules_eq_nil (hConfined : rs.Confined) (h : rs.Consistent) {c : ChainId}
    {chain : Chain} (hChain : rs.chain? c = some chain) (hExtension : chain.isExtension = true) :
    chain.rules = [] := by
  refine List.eq_nil_iff_forall_not_mem.2 fun r hMem => ?_
  obtain ⟨rule, hRule, rfl⟩ := h.rule_of_mem hChain hMem
  obtain ⟨owner, t, hOwner, hTable, -⟩ := hConfined r rule hRule
  obtain rfl : owner = chain := Option.some.inj (hOwner.symm.trans hChain)
  cases hTable.symm.trans ((h.isExtension_iff hChain).1 hExtension)

theorem Confined.goto_ne (hConfined : rs.Confined) (h : rs.Consistent) {c : ChainId} {chain : Chain}
    (hChain : rs.chain? c = some chain) (hExtension : chain.isExtension = true) {r : RuleId}
    {rule : Rule} (hRule : rs.rule? r = some rule) : rule.goto ≠ some c := by
  intro hGoto
  obtain ⟨owner, t, -, -, hWithin⟩ := hConfined r rule hRule
  obtain ⟨target, hTarget, hTable | ⟨hJump, -⟩⟩ := hWithin .goto c hGoto
  · obtain rfl : target = chain := Option.some.inj (hTarget.symm.trans hChain)
    cases hTable.symm.trans ((h.isExtension_iff hChain).1 hExtension)
  · cases hJump

end Ruleset

namespace Dump

namespace Session

variable {s next : Session} {line : String}

/-- Whatever a line does, every extension is left with its one rule. -/
theorem Reads.extensionsUsed (hReads : s.Reads line next) (hSound : s.Sound)
    (hUsed : s.ruleset.ExtensionsUsed) : next.ruleset.ExtensionsUsed := by
  cases hReads with
  | passed => exact hUsed
  | refused => exact hUsed
  | opened hLine hTable =>
      rcases hTable with ⟨-, rfl⟩ | ⟨-, -, rfl⟩
      · exact hUsed
      · exact hUsed
  | declared hLine hOpen hFree =>
      intro c chain hChain hExtension
      rcases Ruleset.chain?_withChain_cases hChain with ⟨-, rfl⟩ | hOld
      · cases hExtension
      · exact hUsed c chain hOld hExtension
  | @appended rule name id table owner _ =>
      cases hExtension : rule.extension? with
      | some extension =>
          rw [RuleLine.ready_of_extension? hExtension]
          exact hUsed.withExtension_withRule hSound.confined.targetsExist
            (Option.filter_eq_some_iff.1 hExtension).2 owner _
            (RuleLine.target?_of_extension? hExtension s.ruleset id)
      | none =>
          rw [RuleLine.ready_of_extension?_eq_none hExtension]
          refine hUsed.withRule owner _ fun c chain hJump hChain => ?_
          simp only [RuleLine.body, RuleLine.target?_of_extension?_eq_none hExtension] at hJump
          obtain ⟨target, -, hNamed⟩ := Option.bind_eq_some_iff.1 hJump
          obtain ⟨found, hFound, hTable, -⟩ :=
            hSound.built.consistent.chainNamed?_eq_some_iff.1 hNamed
          obtain rfl : found = chain := Option.some.inj (hFound.symm.trans hChain)
          exact hSound.built.consistent.isExtension_of_table hFound hTable

/-- A rule that was not there before is the rule of the line. If the line names an extension to jump
to, the rule jumps to that extension. -/
theorem Reads.exists_ruleLine (hReads : s.Reads line next) {r : RuleId} {rule : Rule}
    (hNew : s.ruleset.rule? r = none) (hRule : next.ruleset.rule? r = some rule) :
    ∃ ruleLine, Directive.ofLine line = .appendRule ruleLine ∧
      ∀ name, ruleLine.extension? = some name → ∃ c chain, rule.jump = some c ∧
        next.ruleset.chain? c = some chain ∧ chain.isExtension = true ∧ chain.name = name := by
  obtain ⟨ruleLine, id, -, hLine, -, hExtends, hBody⟩ := hReads.exists_appended hNew hRule
  refine ⟨ruleLine, hLine, fun name hExtension => ?_⟩
  rw [RuleLine.ready_of_extension? hExtension] at hExtends
  obtain ⟨chain, hChain, hName, -, -, hMark, -⟩ :=
    hExtends.chain (Ruleset.chain?_withExtension_new name)
  refine ⟨⟨s.ruleset.chains.size⟩, chain, ?_, hChain, hMark, hName⟩
  rw [hBody]
  exact RuleLine.target?_of_extension? hExtension s.ruleset id

end Session

theorem extensionsUsed_readLines (lines : List String) :
    (readLines lines).ruleset.ExtensionsUsed := by
  induction lines using List.reverseRecOn with
  | nil =>
      intro c chain hChain
      simp [readLines, Session.start, Ruleset.empty, Ruleset.chain?] at hChain
  | append_singleton lines line ih =>
      exact (reads_readLines lines line).extensionsUsed (sound_readLines lines) ih

/-- The rule of that number is not there before the line is read, and is there after it. -/
structure Adds (before : List String) (line : String) (r : RuleId) : Prop where
  new : (readLines before).ruleset.rule? r = none
  added : ((readLines (before ++ [line])).ruleset.rule? r).isSome

/-- Every rule is added by one of the lines. -/
theorem exists_adds {lines : List String} {r : RuleId}
    (hRule : ((readLines lines).ruleset.rule? r).isSome) :
    ∃ before line after, lines = before ++ line :: after ∧ Adds before line r := by
  induction lines using List.reverseRecOn with
  | nil => simp [readLines, Session.start, Ruleset.empty, Ruleset.rule?] at hRule
  | append_singleton lines line ih =>
      cases hOld : (readLines lines).ruleset.rule? r with
      | none => exact ⟨lines, line, [], rfl, hOld, hRule⟩
      | some rule =>
          obtain ⟨before, first, after, rfl, hAdds⟩ := ih (by rw [hOld]; rfl)
          exact ⟨before, first, after ++ [line], by simp, hAdds⟩

/-- A line that adds a rule is a rule line. If it names an extension to jump to, the rule jumps to
that extension, and to no chain of a table, for as long as there is more to read. -/
theorem Adds.exists_ruleLine {before : List String} {line : String} {r : RuleId}
    (hAdds : Adds before line r) (after : List String) :
    ∃ ruleLine rule, Directive.ofLine line = .appendRule ruleLine ∧
      (readLines (before ++ line :: after)).ruleset.rule? r = some rule ∧
      ∀ name, ruleLine.extension? = some name → ∃ c chain, rule.jump = some c ∧
        (readLines (before ++ line :: after)).ruleset.chain? c = some chain ∧
        chain.isExtension = true ∧ chain.name = name := by
  obtain ⟨rule, hRule⟩ := Option.isSome_iff_exists.1 hAdds.added
  obtain ⟨ruleLine, hLine, hJump⟩ :=
    (reads_readLines before line).exists_ruleLine hAdds.new hRule
  have hExtends := extends_readLines_append (before ++ [line]) after
  rw [List.append_assoc, List.singleton_append] at hExtends
  refine ⟨ruleLine, rule, hLine, hExtends.rule hRule, fun name hName => ?_⟩
  obtain ⟨c, chain, hTarget, hChain, hExtension, rfl⟩ := hJump name hName
  obtain ⟨later, hLater, hSameName, -, -, hMark, -⟩ := hExtends.chain hChain
  exact ⟨c, later, hTarget, hLater, hMark.trans hExtension, hSameName⟩

/-- Where the rules of a dump lead. Rules stay within their tables, but for jumps to extensions. The
extensions are the chains that belong to no table. An extension has no rules and the name of an extension, and one rule jumps to it
and none goes to it. A rule whose line names an extension to jump to jumps to that extension, even
where its table has a chain of that name. -/
theorem targets_readLines (lines : List String) :
    (readLines lines).ruleset.Confined ∧
      (∀ c chain, (readLines lines).ruleset.chain? c = some chain →
        (chain.isExtension = true ↔ chain.table = none)) ∧
      (∀ c chain, (readLines lines).ruleset.chain? c = some chain → chain.isExtension = true →
        chain.table = none ∧ chain.rules = [] ∧ isExtensionName chain.name = true ∧
          (∃! r, (readLines lines).ruleset.Jumps r c) ∧
          ∀ r rule, (readLines lines).ruleset.rule? r = some rule → rule.goto ≠ some c) ∧
      ∀ r rule, (readLines lines).ruleset.rule? r = some rule →
        ∃ before line after ruleLine, lines = before ++ line :: after ∧ Adds before line r ∧
          Directive.ofLine line = .appendRule ruleLine ∧
          ∀ name, ruleLine.extension? = some name → ∃ c chain, rule.jump = some c ∧
            (readLines lines).ruleset.chain? c = some chain ∧ chain.isExtension = true ∧
            chain.name = name := by
  have hSound := sound_readLines lines
  have h := hSound.built.consistent
  refine ⟨hSound.confined, fun c chain hChain => ?_, fun c chain hChain hExtension => ?_,
    fun r rule hRule => ?_⟩
  · exact h.isExtension_iff hChain
  · obtain ⟨hName, hJumps⟩ := extensionsUsed_readLines lines c chain hChain hExtension
    exact ⟨(h.isExtension_iff hChain).1 hExtension,
      hSound.confined.rules_eq_nil h hChain hExtension, hName, hJumps,
      fun _ _ => hSound.confined.goto_ne h hChain hExtension⟩
  · obtain ⟨before, line, after, rfl, hAdds⟩ := exists_adds (by rw [hRule]; rfl)
    obtain ⟨ruleLine, found, hLine, hFound, hJump⟩ := hAdds.exists_ruleLine after
    obtain rfl : found = rule := Option.some.inj (hFound.symm.trans hRule)
    exact ⟨before, line, after, ruleLine, rfl, hAdds, hLine, hJump⟩

/-- The jump of the only rule leads past the chain `LOG`, which has the number 1. -/
example : (readLines ["*filter", ":INPUT DROP", ":LOG -", "-A INPUT -j LOG"]).ruleset.rules.map
    (·.jump) = #[some ⟨2⟩] := by
  decide +kernel

end Dump

end PacketFlow
