import PacketFlow.Proofs.Flow.Builtin
import PacketFlow.Proofs.Ruleset.Lookup

/-!
The expansion of chains, one level at a time. What comes of a visit, of a stop and of the rules of a
chain is said without recursion, in terms of the visits one level further in. The expansion succeeds
wherever all targets of rules exist.
-/
namespace PacketFlow.Ruleset

variable {rs : Ruleset}

/-- A chain that has rules. -/
def HasRules (rs : Ruleset) (c : ChainId) : Prop :=
  ∃ chain, rs.chain? c = some chain ∧ chain.rules ≠ []

instance (c : ChainId) : Decidable (rs.HasRules c) :=
  inferInstanceAs (Decidable (∃ chain ∈ rs.chain? c, chain.rules ≠ []))

/-- A chain that stands for an extension. -/
def IsExtension (rs : Ruleset) (c : ChainId) : Prop :=
  ∃ chain, rs.chain? c = some chain ∧ chain.isExtension = true

instance (c : ChainId) : Decidable (rs.IsExtension c) :=
  inferInstanceAs (Decidable (∃ chain ∈ rs.chain? c, chain.isExtension = true))

/-- A chain whose rules are shown where a packet comes to it: a chain of a table that has rules and
whose rules are not being shown around the place. -/
def Expands (rs : Ruleset) (path : List ChainId) (c : ChainId) : Prop :=
  ∃ chain, rs.chain? c = some chain ∧ chain.isExtension = false ∧ c ∉ path ∧ chain.rules ≠ []

instance (path : List ChainId) (c : ChainId) : Decidable (rs.Expands path c) :=
  match h : rs.chain? c with
  | none => isFalse (by simp [Expands, h])
  | some chain =>
    decidable_of_iff (chain.isExtension = false ∧ c ∉ path ∧ chain.rules ≠ []) (by simp [Expands, h])

theorem expands_iff {path : List ChainId} {c : ChainId} :
    rs.Expands path c ↔ rs.HasRules c ∧ ¬rs.IsExtension c ∧ c ∉ path := by
  cases hChain : rs.chain? c with
  | none => simp [Expands, HasRules, hChain]
  | some chain => simp [Expands, HasRules, IsExtension, hChain, and_left_comm, and_comm]

theorem Consistent.not_isExtension_of_mem_builtinChains (h : rs.Consistent) {origin : Origin}
    {c : ChainId} (hMem : c ∈ rs.builtinChains origin) : ¬rs.IsExtension c := by
  obtain ⟨chain, hChain, hTable⟩ := h.exists_of_mem_builtinChains hMem
  simp [IsExtension, hChain, hTable]

/-- Comes to a rule, with the chains on `path` being shown around it. -/
def stop? (rs : Ruleset) (path : List ChainId) (rule : RuleId × Rule) : Option Stop := do
  let label ← rs.ruleLabel? rule.1
  let visits ← rule.2.targets.mapM fun (transfer, target) => do
    let visit ← rs.visit? path target
    return (transfer, visit)
  return ⟨.rule label rule.1, visits⟩

theorem visit?_eq (path : List ChainId) (c : ChainId) :
    rs.visit? path c =
      (rs.chainLabel? c).bind fun label => (rs.chain? c).bind fun chain =>
        if chain.isExtension || path.contains c || chain.rules.isEmpty then
          some ⟨.chain label c chain.isExtension (path.contains c), none⟩
        else
          (rs.innerGraph? (c :: path) c).map fun inner =>
            ⟨.chain label c chain.isExtension (path.contains c),
              some (.rules s!"rules: {label}" c inner)⟩ := by
  rw [visit?]
  cases rs.chainLabel? c with
  | none => rfl
  | some label =>
      simp only [Option.bind_eq_bind, Option.bind_some]
      split
      next hNone => simp [hNone]
      next chain hChain =>
        simp only [hChain, Option.bind_some]
        split
        · rfl
        · cases rs.innerGraph? (c :: path) c <;> rfl

theorem stop?_eq (path : List ChainId) (rule : RuleId × Rule) :
    rs.stop? path rule = (rs.ruleLabel? rule.1).bind fun label =>
      (rule.2.targets.mapM fun target => (rs.visit? path target.2).map (target.1, ·)).map
        (Stop.mk (.rule label rule.1)) := by
  simp only [stop?, Option.map_eq_bind]
  rfl

theorem innerGraph?_eq (path : List ChainId) (c : ChainId) :
    rs.innerGraph? path c =
      (rs.rulesOf? c).bind fun rules => (rules.mapM (rs.stop? path)).map Stop.level := by
  rw [innerGraph?]
  cases rs.rulesOf? c with
  | none => rfl
  | some rules =>
      change (rules.mapM (rs.stop? path)).bind (fun stops => some (Stop.level stops)) =
        (rules.mapM (rs.stop? path)).map Stop.level
      rw [Option.map_eq_bind]
      rfl

/-- A visit shows the chain, and its rules where the chain expands. -/
theorem visit?_eq_some {path : List ChainId} {c : ChainId} {visit : Visit}
    (hVisit : rs.visit? path c = some visit) :
    ∃ label chain, rs.chainLabel? c = some label ∧ rs.chain? c = some chain ∧
      visit.head = .chain label c chain.isExtension (path.contains c) ∧
      ((rs.Expands path c ∧ ∃ inner, rs.innerGraph? (c :: path) c = some inner ∧
          visit.body = some (.rules s!"rules: {label}" c inner)) ∨
        (¬rs.Expands path c ∧ visit.body = none)) := by
  rw [visit?_eq, Option.bind_eq_some_iff] at hVisit
  obtain ⟨label, hLabel, hVisit⟩ := hVisit
  obtain ⟨chain, hChain, hVisit⟩ := Option.bind_eq_some_iff.1 hVisit
  refine ⟨label, chain, hLabel, hChain, ?_⟩
  split at hVisit
  next hClosed =>
    cases hVisit
    refine ⟨rfl, Or.inr ⟨?_, rfl⟩⟩
    rintro ⟨found, hFound, hTable, hPath, hRules⟩
    obtain rfl : found = chain := Option.some.inj (hFound.symm.trans hChain)
    simp [hTable, hPath, hRules] at hClosed
  next hOpen =>
    obtain ⟨inner, hInner, rfl⟩ := Option.map_eq_some_iff.1 hVisit
    refine ⟨rfl, Or.inl ⟨⟨chain, hChain, ?_⟩, inner, hInner, rfl⟩⟩
    simpa [and_assoc] using hOpen

/-- A stop shows the rule and a visit to each of its targets. -/
theorem stop?_eq_some {path : List ChainId} {r : RuleId} {rule : Rule} {stop : Stop}
    (hStop : rs.stop? path (r, rule) = some stop) :
    ∃ label, rs.ruleLabel? r = some label ∧ stop.rule = .rule label r ∧
      List.Forall₂ (fun target visit => visit.1 = target.1 ∧
        rs.visit? path target.2 = some visit.2) rule.targets stop.visits := by
  rw [stop?_eq, Option.bind_eq_some_iff] at hStop
  obtain ⟨label, hLabel, hStop⟩ := hStop
  obtain ⟨visits, hVisits, rfl⟩ := Option.map_eq_some_iff.1 hStop
  refine ⟨label, hLabel, rfl, (mapM_eq_some_iff.1 hVisits).imp fun target visit hVisit => ?_⟩
  obtain ⟨found, hFound, rfl⟩ := Option.map_eq_some_iff.1 hVisit
  exact ⟨rfl, hFound⟩

/-- The rules of a chain are shown by one stop each. -/
theorem innerGraph?_eq_some {path : List ChainId} {c : ChainId} {g : Graph}
    (hGraph : rs.innerGraph? path c = some g) :
    ∃ rules stops, rs.rulesOf? c = some rules ∧
      List.Forall₂ (fun rule stop => rs.stop? path rule = some stop) rules stops ∧
      g = Stop.level stops := by
  rw [innerGraph?_eq, Option.bind_eq_some_iff] at hGraph
  obtain ⟨rules, hRules, hGraph⟩ := hGraph
  obtain ⟨stops, hStops, rfl⟩ := Option.map_eq_some_iff.1 hGraph
  exact ⟨rules, stops, hRules, mapM_eq_some_iff.1 hStops, rfl⟩

/-- A set of chains that exist, and that no rule of a chain of a table among them leads out of. -/
structure Closed (rs : Ruleset) (S : ChainId → Prop) : Prop where
  found {c : ChainId} (hIn : S c) : ∃ chain, rs.chain? c = some chain
  target {c d : ChainId} {chain : Chain} {r : RuleId} {rule : Rule} {transfer : Transfer}
    (hIn : S c) (hChain : rs.chain? c = some chain) (hTable : chain.isExtension = false)
    (hMem : r ∈ chain.rules) (hRule : rs.rule? r = some rule)
    (hTarget : rule.target? transfer = some d) : S d

/-- Where all targets of rules exist, the chains of the ruleset are closed. -/
theorem TargetsExist.closed (hTargets : rs.TargetsExist) :
    rs.Closed fun c => ∃ chain, rs.chain? c = some chain where
  found hIn := hIn
  target _ _ _ _ hRule hTarget := hTargets _ _ hRule _ _ hTarget

namespace Consistent

variable (h : rs.Consistent)

include h

theorem exists_stop? {path : List ChainId} {r : RuleId} {rule : Rule}
    (hRule : rs.rule? r = some rule)
    (hFound : ∀ transfer c, rule.target? transfer = some c → ∃ chain, rs.chain? c = some chain)
    (hVisit : ∀ transfer c, rule.target? transfer = some c →
      ∃ visit, rs.visit? path c = some visit) :
    ∃ stop, rs.stop? path (r, rule) = some stop := by
  obtain ⟨label, hLabel⟩ := h.exists_ruleLabel?_of_targets hRule hFound
  have hVisits : ∃ visits, (rule.targets.mapM fun target =>
      (rs.visit? path target.2).map (target.1, ·)) = some visits := by
    refine exists_mapM_eq_some ?_
    intro target hMem
    obtain ⟨visit, hVisit⟩ := hVisit target.1 target.2 (RuleBody.mem_targets.1 hMem)
    exact ⟨(target.1, visit), by rw [hVisit, Option.map_some]⟩
  obtain ⟨visits, hVisits⟩ := hVisits
  exact ⟨_, by rw [stop?_eq, hLabel, Option.bind_some, hVisits, Option.map_some]⟩

/-- A packet can come to every chain of a closed set, whatever is being shown around it. The
induction is on the chains off the path, since a chain that expands joins the path. -/
theorem exists_visit? {S : ChainId → Prop} (hClosed : rs.Closed S) (path : List ChainId)
    {c : ChainId} (hIn : S c) : ∃ visit, rs.visit? path c = some visit := by
  induction hOff : rs.offPath path using Nat.strongRecOn generalizing path c with
  | _ off ih =>
      obtain ⟨chain, hChain⟩ := hClosed.found hIn
      obtain ⟨label, hLabel⟩ := h.exists_chainLabel? hChain
      simp only [visit?_eq, hLabel, hChain, Option.bind_some]
      split
      · exact ⟨_, rfl⟩
      next hOpen =>
        have hTable : chain.isExtension = false := by simp_all
        have hPath : c ∉ path := by simp_all
        obtain ⟨rules, hRules⟩ := h.exists_rulesOf? hChain
        obtain ⟨found, hFound, hFirst, hRead⟩ := rulesOf?_eq_some hRules
        obtain rfl := Option.some.inj (hFound.symm.trans hChain)
        have hStops : ∃ stops, rules.mapM (rs.stop? (c :: path)) = some stops := by
          refine exists_mapM_eq_some fun rule hMem => ?_
          have hTarget (transfer : Transfer) (d : ChainId)
              (hTarget : rule.2.target? transfer = some d) : S d :=
            hClosed.target hIn hChain hTable (hFirst ▸ List.mem_map_of_mem hMem) (hRead rule hMem)
              hTarget
          refine h.exists_stop? (hRead rule hMem)
            (fun transfer d hLeads => hClosed.found (hTarget transfer d hLeads)) ?_
          intro transfer d hLeads
          exact ih _ (hOff ▸ offPath_cons_lt hChain hPath) (c :: path) (hTarget transfer d hLeads) rfl
        obtain ⟨stops, hStops⟩ := hStops
        exact ⟨_, by rw [innerGraph?_eq, hRules, Option.bind_some, hStops]; rfl⟩

/-- Packets of an origin have a graph if their built-in chains are in a closed set. -/
theorem exists_traversal?_of_closed {S : ChainId → Prop} (hClosed : rs.Closed S) {origin : Origin}
    (hBuiltin : ∀ c ∈ rs.builtinChains origin, S c) : ∃ g, rs.traversal? origin = some g := by
  have hVisits : ∃ visits, (rs.builtinChains origin).mapM (rs.visit? []) = some visits :=
    exists_mapM_eq_some fun c hMem => h.exists_visit? hClosed [] (hBuiltin c hMem)
  obtain ⟨visits, hVisits⟩ := hVisits
  exact ⟨_, by rw [traversal?, hVisits]; rfl⟩

/-- Packets of every origin have a graph. -/
theorem exists_traversal? (hTargets : rs.TargetsExist) (origin : Origin) :
    ∃ g, rs.traversal? origin = some g :=
  h.exists_traversal?_of_closed hTargets.closed fun _ hMem =>
    (h.exists_of_mem_builtinChains hMem).imp fun _ hChain => hChain.1

end Consistent

end PacketFlow.Ruleset
