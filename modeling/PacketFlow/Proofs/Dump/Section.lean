import Mathlib.Data.List.Nodup
import PacketFlow.Proofs.Dump.Writing

/-!
What a table says after its section. The chains are declared first, and have no rules then. Each rule
is put at the end of its chain, and its targets are found, since all chains have been declared. No
line of a section has a fault.
-/
namespace PacketFlow

open Dump

/-- The chain as it is declared, before its rules. -/
def Dump.ChainEntry.declared (entry : ChainEntry) : ChainContent :=
  ⟨entry.name, entry.policy, []⟩

/-- The lines are read as the rules of the chain. -/
def Dump.ChainEntry.ReadAs (entry : ChainEntry) (lines : List Directive) : Prop :=
  List.Forall₂ (fun rule line => ∃ read, line = .appendRule read ∧ rule.ReadAs entry.name read)
    entry.rules lines

namespace TableContent

/-- The table takes these lines without a fault, and is the later one after them. -/
inductive Takes : TableContent → List Directive → TableContent → Prop
  | nil (content : TableContent) : Takes content [] content
  | cons {content later : TableContent} {directive : Directive} {rest : List Directive}
      (hOpened : directive.opened? = none) (hFaults : content.faults directive = [])
      (hRest : Takes (content.after directive) rest later) : Takes content (directive :: rest) later

theorem Takes.append {content between later : TableContent} {first second : List Directive}
    (hFirst : Takes content first between) (hSecond : Takes between second later) :
    Takes content (first ++ second) later := by
  induction hFirst with
  | nil => exact hSecond
  | cons hOpened hFaults hRest ih => exact .cons hOpened hFaults (ih hSecond)

section Chains

theorem chainNamed?_eq_none {content : TableContent} {name : String}
    (hOther : ∀ other ∈ content.chains.map ChainContent.name, Text.fold other ≠ Text.fold name) :
    content.chainNamed? name = none := by
  refine List.find?_eq_none.2 fun chain hMem hSame => ?_
  exact hOther _ (List.mem_map_of_mem hMem) (Text.sameName_iff.1 hSame)

/-- Chains of new names are declared one after the other. -/
theorem takes_chains {entries : List ChainEntry} (content : TableContent)
    (hDistinct : Distinct (content.chains.map ChainContent.name ++ entries.map ChainEntry.name)) :
    Takes content (entries.map fun entry => .declareChain (some entry.name) entry.policy)
      ⟨content.name, content.chains ++ entries.map ChainEntry.declared⟩ := by
  induction entries generalizing content with
  | nil =>
      rw [List.map_nil, List.map_nil, List.append_nil]
      exact .nil content
  | cons entry entries ih =>
      have hNone : content.chainNamed? entry.name = none := by
        refine chainNamed?_eq_none fun other hMem => ?_
        rw [Distinct, List.map_append, List.nodup_append] at hDistinct
        exact hDistinct.2.2 _ (List.mem_map_of_mem hMem) _ List.mem_cons_self
      have hAfter : content.after (.declareChain (some entry.name) entry.policy) =
          content.addChain entry.name entry.policy := by
        simp [after, hNone]
      refine .cons rfl (by simp [faults, hNone]) ?_
      rw [hAfter]
      have hRest := ih (content.addChain entry.name entry.policy) (by simpa [addChain] using hDistinct)
      simpa [addChain, ChainEntry.declared] using hRest

end Chains

section Targets

variable {content : TableContent} (hDistinct : Distinct (content.chains.map ChainContent.name))

include hDistinct

theorem exists_chainNamed?_eq {name : String} (hMem : name ∈ content.chains.map ChainContent.name) :
    ∃ chain, content.chainNamed? name = some chain ∧ chain.name = name := by
  obtain ⟨chain, hChain, hName⟩ := List.mem_map.1 hMem
  have hSome : (content.chainNamed? name).isSome := by
    rw [chainNamed?, List.find?_isSome]
    exact ⟨chain, hChain, Text.sameName_iff.2 (by rw [hName])⟩
  obtain ⟨found, hFound⟩ := Option.isSome_iff_exists.1 hSome
  have hFoundMem := List.mem_map_of_mem (f := ChainContent.name) (List.mem_of_find?_eq_some hFound)
  have hSame := List.find?_some hFound
  exact ⟨found, hFound,
    List.inj_on_of_nodup_map hDistinct hFoundMem hMem (Text.sameName_iff.1 hSame)⟩

theorem target_spec {name? : Option String}
    (hNames : ∀ name, name? = some name → name ∈ content.chains.map ChainContent.name)
    (transfer : Transfer) :
    content.destinationOf? name? = name?.map .chain ∧ content.targetFaults transfer name? = [] := by
  cases name? with
  | none => exact ⟨rfl, rfl⟩
  | some name =>
      obtain ⟨chain, hChain, hName⟩ := exists_chainNamed?_eq hDistinct (hNames name rfl)
      simp [destinationOf?, targetFaults, hChain, hName]

/-- The target of a jump is found, be it an extension or a chain. -/
theorem jump_spec {entry : RuleEntry}
    (hEntry : entry.WellFormed (content.chains.map ChainContent.name)) :
    content.jumpOf? (entry.jump.map Destination.name) = entry.jump ∧
      content.jumpFaults (entry.jump.map Destination.name) = [] := by
  cases hJump : entry.jump with
  | none => exact ⟨rfl, rfl⟩
  | some target =>
      have hTarget := hEntry.jump target hJump
      cases target with
      | extension name =>
          have hKept : (some name).filter isExtensionName = some name :=
            Option.filter_some_pos hTarget
          simp [jumpOf?, jumpFaults, Destination.name, hKept]
      | chain name =>
          obtain ⟨hMem, hExtension⟩ := hTarget
          have hDropped : (some name).filter isExtensionName = none :=
            Option.filter_some_neg hExtension
          have hNames (other : String) (hOther : some name = some other) :
              other ∈ content.chains.map ChainContent.name := by
            rwa [← Option.some.inj hOther]
          obtain ⟨hFound, hFaults⟩ := target_spec hDistinct hNames .jump
          simp [jumpOf?, jumpFaults, Destination.name, hDropped, hFound, hFaults]

/-- The line of a rule puts the rule at the end of its chain. -/
theorem rule_spec {entry : RuleEntry} {chain : String} {rule : RuleLine}
    (hEntry : entry.WellFormed (content.chains.map ChainContent.name))
    (hChain : chain ∈ content.chains.map ChainContent.name) (hRead : entry.ReadAs chain rule) :
    content.faults (.appendRule rule) = [] ∧ content.after (.appendRule rule) =
      content.addRule chain (rule.body none none) entry.jump (entry.goto.map .chain) := by
  obtain ⟨found, hFound, -⟩ := exists_chainNamed?_eq hDistinct hChain
  obtain ⟨hJump, hJumpFaults⟩ := jump_spec hDistinct hEntry
  obtain ⟨hGoto, hGotoFaults⟩ := target_spec hDistinct hEntry.goto .goto
  constructor
  · simp [faults, hRead.chainName, hRead.jumpName, hRead.gotoName, hFound, hJumpFaults, hGotoFaults]
  · simp [after, place, hRead.chainName, hRead.jumpName, hRead.gotoName, hJump, hGoto]

end Targets

section Rules

variable {name : String} {before after : List ChainContent} {chain : ChainContent}

theorem addRule_of_distinct
    (hDistinct : Distinct ((before ++ chain :: after).map ChainContent.name)) (body : RuleBody)
    (jump goto : Option Destination) :
    addRule ⟨name, before ++ chain :: after⟩ chain.name body jump goto =
      ⟨name, before ++ chain.addRule body jump goto :: after⟩ := by
  rw [Distinct, List.map_map, List.map_append, List.map_cons, List.nodup_append,
    List.nodup_cons] at hDistinct
  obtain ⟨-, ⟨hAfter, -⟩, hBefore⟩ := hDistinct
  have hKeep {others : List ChainContent}
      (hOthers : ∀ other ∈ others, Text.fold other.name ≠ Text.fold chain.name) :
      others.map (fun other => if Text.sameName other.name chain.name then
        other.addRule body jump goto else other) = others := by
    refine (List.map_congr_left fun other hMem => ?_).trans (List.map_id others)
    exact if_neg fun hSame => hOthers other hMem (Text.sameName_iff.1 hSame)
  have hFirst := hKeep fun other hMem =>
    hBefore _ (List.mem_map_of_mem hMem) _ List.mem_cons_self
  have hLast := hKeep fun other hMem hSame =>
    hAfter (List.mem_map.2 ⟨other, hMem, hSame⟩)
  rw [addRule, List.map_append, List.map_cons, hFirst, hLast, if_pos (Text.sameName_iff.2 rfl)]

/-- The lines of the rules of a chain put them at its end, in order. -/
theorem takes_rules {chainName policy : String} {done : List RuleContent} {rules : List RuleEntry}
    {lines : List Directive}
    (hLines : List.Forall₂ (fun rule line => ∃ read, line = .appendRule read ∧
      rule.ReadAs chainName read) rules lines)
    (hDistinct : Distinct ((before ++ ⟨chainName, policy, done⟩ :: after).map ChainContent.name))
    (hRules : ∀ rule ∈ rules,
      rule.WellFormed ((before ++ ⟨chainName, policy, done⟩ :: after).map ChainContent.name)) :
    Takes ⟨name, before ++ ⟨chainName, policy, done⟩ :: after⟩ lines
      ⟨name, before ++ ⟨chainName, policy,
        done ++ RuleEntry.contents (done.length + 1) rules⟩ :: after⟩ := by
  induction hLines generalizing done with
  | nil =>
      simp only [RuleEntry.contents, List.append_nil]
      exact .nil _
  | @cons rule line rules lines hLine hLines ih =>
      obtain ⟨read, rfl, hRead⟩ := hLine
      obtain ⟨hRule, hRest⟩ := List.forall_mem_cons.1 hRules
      have hMem : chainName ∈
          (before ++ ⟨chainName, policy, done⟩ :: after).map ChainContent.name := by
        simp
      obtain ⟨hFaults, hAfter⟩ := @rule_spec ⟨name, before ++ ⟨chainName, policy, done⟩ :: after⟩
        hDistinct rule chainName read hRule hMem hRead
      refine .cons rfl hFaults ?_
      rw [hAfter, addRule_of_distinct hDistinct, ChainContent.addRule, hRead.content]
      -- The chain keeps its name, so the names are the same for the rules to come.
      have hNames (added : List RuleContent) :
          (before ++ ⟨chainName, policy, added⟩ :: after).map ChainContent.name =
            (before ++ ⟨chainName, policy, done⟩ :: after).map ChainContent.name := by
        simp
      have hLater := @ih (done ++ [rule.content (done.length + 1)]) (by rwa [hNames])
        (by rwa [hNames])
      simpa [RuleEntry.contents] using hLater

end Rules

section Sections

/-- The lines of the rules, chain by chain, give every chain its rules. -/
theorem takes_chainRules {name : String} {done rest : List ChainEntry} {lines : List (List Directive)}
    (hLines : List.Forall₂ ChainEntry.ReadAs rest lines)
    (hDistinct : Distinct ((done ++ rest).map ChainEntry.name))
    (hChains : ∀ chain ∈ rest, chain.WellFormed ((done ++ rest).map ChainEntry.name)) :
    Takes ⟨name, done.map ChainEntry.content ++ rest.map ChainEntry.declared⟩ lines.flatten
      ⟨name, (done ++ rest).map ChainEntry.content⟩ := by
  induction hLines generalizing done with
  | nil =>
      simp only [List.map_nil, List.append_nil, List.flatten_nil]
      exact .nil _
  | @cons chain lines rest later hLine hLines ih =>
      obtain ⟨hChain, hRest⟩ := List.forall_mem_cons.1 hChains
      have hNames : (done.map ChainEntry.content ++ chain.declared ::
            rest.map ChainEntry.declared).map ChainContent.name =
          (done ++ chain :: rest).map ChainEntry.name := by
        simp [ChainEntry.content, ChainEntry.declared, Function.comp_def]
      have hHere : Takes
          ⟨name, done.map ChainEntry.content ++ chain.declared :: rest.map ChainEntry.declared⟩ lines
          ⟨name, done.map ChainEntry.content ++ chain.content :: rest.map ChainEntry.declared⟩ := by
        have hRules := hChain.rules
        rw [← hNames] at hRules
        exact takes_rules hLine (hNames ▸ hDistinct) hRules
      have hShift : done ++ chain :: rest = (done ++ [chain]) ++ rest := by simp
      rw [hShift] at hDistinct hRest ⊢
      have hLater := ih hDistinct hRest
      rw [List.map_append, List.append_assoc, List.map_singleton, List.singleton_append] at hLater
      rw [List.map_cons, List.flatten_cons]
      exact hHere.append hLater

end Sections

end TableContent

namespace Dump

theorem ChainEntry.Writes.readAs {chains : List String} {entry : ChainEntry} {lines : List String}
    (hWrites : entry.Writes lines) (hEntry : entry.WellFormed chains)
    (hChains : ∀ name ∈ chains, IsPlainWord name) :
    (∀ line ∈ lines, Text.IsLine line) ∧ entry.ReadAs (lines.map Directive.ofLine) := by
  have hName := hEntry.name
  have hRules := hEntry.rules
  rw [ChainEntry.ReadAs]
  rw [ChainEntry.Writes] at hWrites
  generalize entry.rules = rules at hWrites hRules ⊢
  induction hWrites with
  | nil => exact ⟨by simp, .nil⟩
  | @cons rule line rules lines hWrite hWrites ih =>
      obtain ⟨hRule, hRest⟩ := List.forall_mem_cons.1 hRules
      obtain ⟨hLine, hRead⟩ := hRule.exists_ofLine_eq hChains hName hWrite
      obtain ⟨hLines, hLater⟩ := ih hRest
      exact ⟨List.forall_mem_cons.2 ⟨hLine, hLines⟩, .cons hRead hLater⟩

theorem readAs_of_forall₂_writes {names : List String} {chains : List ChainEntry}
    {rules : List (List String)} (hWrites : List.Forall₂ ChainEntry.Writes chains rules)
    (hChains : ∀ chain ∈ chains, chain.WellFormed names) (hNames : ∀ name ∈ names, IsPlainWord name) :
    (∀ line ∈ rules.flatten, Text.IsLine line) ∧
      List.Forall₂ ChainEntry.ReadAs chains (rules.map (·.map Directive.ofLine)) := by
  induction hWrites with
  | nil => exact ⟨by simp, .nil⟩
  | cons hWrite hWrites ih =>
      obtain ⟨hChain, hRest⟩ := List.forall_mem_cons.1 hChains
      obtain ⟨hLines, hRead⟩ := hWrite.readAs hChain hNames
      obtain ⟨hLater, hReads⟩ := ih hRest
      rw [List.flatten_cons]
      exact ⟨List.forall_mem_append.2 ⟨hLines, hLater⟩, .cons hRead hReads⟩

/-- A section opens its table, and takes it from an empty one to the table that it writes. -/
theorem TableEntry.Writes.exists_takes {entry : TableEntry} {lines : List String}
    (hWrites : entry.Writes lines) (hEntry : entry.WellFormed) :
    (∀ line ∈ lines, Text.IsLine line) ∧ ∃ rest, lines = ("*" ++ entry.name) :: rest ∧
      TableContent.Takes ⟨entry.name, []⟩ (rest.map Directive.ofLine) entry.content := by
  obtain ⟨rules, hRules, rfl⟩ := hWrites
  have hPlain : ∀ name ∈ entry.chains.map ChainEntry.name, IsPlainWord name := by
    intro name hMem
    obtain ⟨chain, hChain, rfl⟩ := List.mem_map.1 hMem
    exact (hEntry.chains chain hChain).name
  obtain ⟨hLines, hReads⟩ := readAs_of_forall₂_writes hRules hEntry.chains hPlain
  refine ⟨?_, _, rfl, ?_⟩
  · rw [List.forall_mem_cons, List.forall_mem_append, List.forall_mem_map]
    exact ⟨hEntry.isLine, fun chain hMem => (hEntry.chains chain hMem).isLine, hLines⟩
  · have hDeclared : (entry.chains.map ChainEntry.line).map Directive.ofLine =
        entry.chains.map fun chain => .declareChain (some chain.name) chain.policy := by
      rw [List.map_map]
      refine List.map_congr_left fun chain hMem => ?_
      rw [Function.comp_apply, (hEntry.chains chain hMem).ofLine_line]
    have hFirst : TableContent.Takes ⟨entry.name, []⟩
        (entry.chains.map fun chain => .declareChain (some chain.name) chain.policy)
        ⟨entry.name, entry.chains.map ChainEntry.declared⟩ := by
      refine TableContent.takes_chains _ ?_
      rw [List.map_nil, List.nil_append]
      exact hEntry.distinct
    have hSecond : TableContent.Takes ⟨entry.name, entry.chains.map ChainEntry.declared⟩
        (rules.map (·.map Directive.ofLine)).flatten entry.content := by
      have hStart : [] ++ entry.chains = entry.chains := List.nil_append _
      exact @TableContent.takes_chainRules entry.name [] _ _ hReads (hStart ▸ hEntry.distinct)
        (hStart ▸ hEntry.chains)
    rw [List.map_append, hDeclared, List.map_flatten]
    exact hFirst.append hSecond

end Dump

end PacketFlow
