import PacketFlow.Proofs.Flow.Expansion

/-!
What stands on one level of a graph. Each vertex has an entry that tells what it stands for: a rule,
a chain with the way in which a packet comes to it, or the rules of such a chain. The entries of a
level are computed from the ruleset and the chains whose rules are being shown, they come in the
order of the vertices, and no two of them are the same.
-/
namespace PacketFlow

/-- How a packet comes to a chain: handed over by a rule, or otherwise as to a built-in chain. -/
abbrev Approach := Option (RuleId × Transfer)

/-- What a vertex stands for on its level. -/
inductive Entry where
  | rule (id : RuleId)
  | chain (approach : Approach) (id : ChainId)
  | rules (approach : Approach) (id : ChainId)
  deriving DecidableEq, Repr

/-- The rule by which a packet comes to what the entry stands for. -/
def Entry.rule? : Entry → Option RuleId
  | rule r => some r
  | chain approach _ => approach.map Prod.fst
  | rules approach _ => approach.map Prod.fst

/-- A rule hands a packet to a chain. -/
structure Call where
  rule : RuleId
  transfer : Transfer
  target : ChainId
  deriving DecidableEq, Repr

namespace Ruleset

variable {rs : Ruleset} {origin : Origin} {path : List ChainId}

/-- The call is made by a rule of that chain. -/
def Calls (rs : Ruleset) (c : ChainId) (call : Call) : Prop :=
  ∃ chain rule, rs.chain? c = some chain ∧ call.rule ∈ chain.rules ∧
    rs.rule? call.rule = some rule ∧ rule.target? call.transfer = some call.target

instance (c : ChainId) (call : Call) : Decidable (rs.Calls c call) :=
  decidable_of_iff (∃ chain ∈ rs.chain? c, call.rule ∈ chain.rules ∧
    ∃ rule ∈ rs.rule? call.rule, rule.target? call.transfer = some call.target) (by simp [Calls])

/-- The entries of a visit: the chain, and its rules where it expands. -/
def visitEntries (rs : Ruleset) (path : List ChainId) (approach : Approach) (c : ChainId) :
    List Entry :=
  .chain approach c :: if rs.Expands path c then [.rules approach c] else []

/-- The entries of a stop: the rule, and a visit to each of its targets. -/
def stopEntries (rs : Ruleset) (path : List ChainId) (rule : RuleId × Rule) : List Entry :=
  .rule rule.1 :: rule.2.targets.flatMap fun target =>
    rs.visitEntries path (some (rule.1, target.1)) target.2

/-- The entries of the level of the first chain on the path; those of the outermost level if the
path is empty. -/
def entries (rs : Ruleset) (origin : Origin) : List ChainId → List Entry
  | [] =>
    (rs.builtinChains origin).map (.chain none) ++
      ((rs.builtinChains origin).filter fun c => rs.Expands [] c).map (.rules none)
  | c :: path => ((rs.rulesOf? c).getD []).flatMap (rs.stopEntries (c :: path))

/-- The level of the first chain on the path; the outermost level if the path is empty. -/
def level? (rs : Ruleset) (origin : Origin) : List ChainId → Option Graph
  | [] => rs.traversal? origin
  | c :: path => rs.innerGraph? (c :: path) c

/-- A vertex is the one that an entry asks for. -/
def Stands (rs : Ruleset) (origin : Origin) (path : List ChainId) (entry : Entry) (v : Vertex) :
    Prop :=
  match entry with
  | .rule r => ∃ label, rs.ruleLabel? r = some label ∧ v = .rule label r
  | .chain _ c => ∃ label chain, rs.chainLabel? c = some label ∧ rs.chain? c = some chain ∧
      v = .chain label c chain.isExtension (path.contains c)
  | .rules _ c => ∃ label inner, rs.chainLabel? c = some label ∧
      rs.level? origin (c :: path) = some inner ∧ v = .rules s!"rules: {label}" c inner

theorem stands_head {approach : Approach} {c : ChainId} {visit : Visit}
    (hVisit : rs.visit? path c = some visit) :
    rs.Stands origin path (.chain approach c) visit.head := by
  obtain ⟨label, chain, hLabel, hChain, hHead, -⟩ := visit?_eq_some hVisit
  exact ⟨label, chain, hLabel, hChain, hHead⟩

theorem stands_visit {approach : Approach} {c : ChainId} {visit : Visit}
    (hVisit : rs.visit? path c = some visit) :
    List.Forall₂ (rs.Stands origin path) (rs.visitEntries path approach c) visit.vertices := by
  refine .cons (stands_head hVisit) ?_
  obtain ⟨label, chain, hLabel, -, -, hBody⟩ := visit?_eq_some hVisit
  rcases hBody with ⟨hExpands, inner, hInner, hBody⟩ | ⟨hClosed, hBody⟩
  · rw [if_pos hExpands, hBody]
    exact .cons ⟨label, inner, hLabel, hInner, rfl⟩ .nil
  · rw [if_neg hClosed, hBody]
    exact .nil

theorem stands_stop {r : RuleId} {rule : Rule} {stop : Stop}
    (hStop : rs.stop? path (r, rule) = some stop) :
    List.Forall₂ (rs.Stands origin path) (rs.stopEntries path (r, rule)) stop.vertices := by
  obtain ⟨label, hLabel, hRule, hVisits⟩ := stop?_eq_some hStop
  refine .cons ⟨label, hLabel, hRule⟩ ?_
  refine List.rel_flatMap hVisits ?_
  rintro target visit ⟨-, hVisit⟩
  exact stands_visit hVisit

/-- The vertices of a level are those of its entries, in the same order. -/
theorem stands_of_level?_eq_some {g : Graph} (hLevel : rs.level? origin path = some g) :
    List.Forall₂ (rs.Stands origin path) (rs.entries origin path) g.vertices := by
  cases path with
  | nil =>
      obtain ⟨visits, hVisits, hGraph⟩ := Option.bind_eq_some_iff.1 hLevel
      cases hGraph
      have hVisits := mapM_eq_some_iff.1 hVisits
      refine List.rel_append ?_ ?_
      · exact List.rel_map (fun _ _ hVisit => stands_head hVisit) hVisits
      · simp only [← List.filterMap_eq_map, ← List.filterMap_eq_filter, List.filterMap_filterMap]
        refine List.rel_filterMap ?_ hVisits
        intro c visit hVisit
        obtain ⟨label, chain, hLabel, -, -, hBody⟩ := visit?_eq_some hVisit
        rcases hBody with ⟨hExpands, inner, hInner, hBody⟩ | ⟨hClosed, hBody⟩
        · simp only [hBody, Option.guard, hExpands]
          exact .some ⟨label, inner, hLabel, hInner, rfl⟩
        · simp only [hBody, Option.guard, hClosed]
          exact .none
  | cons c path =>
      obtain ⟨rules, stops, hRules, hStops, rfl⟩ := innerGraph?_eq_some hLevel
      rw [entries, hRules, Option.getD_some]
      exact List.rel_flatMap hStops fun rule stop hStop => stands_stop hStop

/-- A packet on the level of the first chain on the path comes to a chain in some way: by a call of
that first chain, or as to a built-in chain if the level is the outermost. -/
def Leads (rs : Ruleset) (origin : Origin) : List ChainId → Approach → ChainId → Prop
  | [], none, c => c ∈ rs.builtinChains origin
  | d :: _, some (r, transfer), c => rs.Calls d ⟨r, transfer, c⟩
  | _, _, _ => False

theorem eq_of_mem_visitEntries {approach : Approach} {c : ChainId} {entry : Entry}
    (hMem : entry ∈ rs.visitEntries path approach c) :
    ∃ id, entry = .chain approach id ∨ entry = .rules approach id := by
  rw [visitEntries, List.mem_cons] at hMem
  rcases hMem with rfl | hMem
  · exact ⟨c, Or.inl rfl⟩
  · split at hMem
    · exact ⟨c, Or.inr (List.mem_singleton.1 hMem)⟩
    · cases hMem

theorem rules_mem_visitEntries {approach approach' : Approach} {c d : ChainId} :
    .rules approach c ∈ rs.visitEntries path approach' d ↔
      .chain approach c ∈ rs.visitEntries path approach' d ∧ rs.Expands path c := by
  rw [visitEntries]
  split <;> simp
  · rintro - rfl
    assumption
  · rintro - rfl
    assumption

theorem rule?_of_mem_stopEntries {rule : RuleId × Rule} {entry : Entry}
    (hMem : entry ∈ rs.stopEntries path rule) : entry.rule? = some rule.1 := by
  rw [stopEntries, List.mem_cons, List.mem_flatMap] at hMem
  rcases hMem with rfl | ⟨target, -, hMem⟩
  · rfl
  · obtain ⟨id, rfl | rfl⟩ := eq_of_mem_visitEntries hMem <;> rfl

theorem stopEntries_nodup (rule : RuleId × Rule) : (rs.stopEntries path rule).Nodup := by
  refine List.nodup_cons.2 ⟨?_, List.nodup_flatMap.2 ⟨fun target _ => ?_, ?_⟩⟩
  · rw [List.mem_flatMap]
    rintro ⟨target, -, hMem⟩
    obtain ⟨id, hRule | hRule⟩ := eq_of_mem_visitEntries hMem <;> cases hRule
  · rw [visitEntries]
    split <;> simp
  · refine rule.2.targets_pairwise.imp fun hDistinct entry hFirst hSecond => hDistinct ?_
    obtain ⟨c, rfl | rfl⟩ := eq_of_mem_visitEntries hFirst <;>
      obtain ⟨d, hSame | hSame⟩ := eq_of_mem_visitEntries hSecond <;> simp_all

namespace Consistent

theorem mem_rulesOf? (h : rs.Consistent) {c : ChainId} {r : RuleId} {rule : Rule} :
    (r, rule) ∈ (rs.rulesOf? c).getD [] ↔
      ∃ chain, rs.chain? c = some chain ∧ r ∈ chain.rules ∧ rs.rule? r = some rule := by
  cases hChain : rs.chain? c with
  | none => simp [rulesOf?, hChain]
  | some chain =>
      obtain ⟨rules, hRules⟩ := h.exists_rulesOf? hChain
      obtain ⟨chain', hChain', hFirst, hRead⟩ := rulesOf?_eq_some hRules
      obtain rfl : chain = chain' := Option.some.inj (hChain.symm.trans hChain')
      simp only [hRules, Option.getD_some, Option.some.injEq, exists_eq_left']
      constructor
      · intro hMem
        exact ⟨hFirst ▸ List.mem_map_of_mem hMem, hRead _ hMem⟩
      · rintro ⟨hMem, hRule⟩
        rw [← hFirst, List.mem_map] at hMem
        obtain ⟨pair, hPair, rfl⟩ := hMem
        obtain rfl : pair.2 = rule := Option.some.inj ((hRead _ hPair).symm.trans hRule)
        exact hPair

/-- The rules of the chain of a level stand on it. -/
theorem rule_mem_entries (h : rs.Consistent) {c : ChainId} {r : RuleId} :
    .rule r ∈ rs.entries origin (c :: path) ↔
      ∃ rule, rs.rule? r = some rule ∧ rule.chain = c := by
  simp only [entries, List.mem_flatMap, stopEntries, visitEntries, List.mem_cons, Entry.rule.injEq]
  constructor
  · rintro ⟨⟨r', rule⟩, hMem, rfl | hVisit⟩
    · obtain ⟨chain, hChain, hMem, hRule⟩ := h.mem_rulesOf?.1 hMem
      obtain ⟨rule', hRule', hOwner⟩ := h.rule_of_mem hChain hMem
      exact ⟨rule', hRule', hOwner⟩
    · simp at hVisit
  · rintro ⟨rule, hRule, rfl⟩
    obtain ⟨chain, hChain, hMem⟩ := h.mem_of_rule hRule
    exact ⟨(r, rule), h.mem_rulesOf?.2 ⟨chain, hChain, hMem, hRule⟩, Or.inl rfl⟩

/-- The chains that a packet comes to on a level stand on it. -/
theorem chain_mem_entries (h : rs.Consistent) {approach : Approach} {c : ChainId} :
    .chain approach c ∈ rs.entries origin path ↔ rs.Leads origin path approach c := by
  cases path with
  | nil => cases approach <;> simp [entries, Leads]
  | cons d path =>
      simp only [entries, List.mem_flatMap, stopEntries, List.mem_cons]
      constructor
      · rintro ⟨⟨r, rule⟩, hMem, hRule | ⟨⟨transfer, target⟩, hTarget, hVisit⟩⟩
        · cases hRule
        · obtain ⟨rfl, rfl⟩ : approach = some (r, transfer) ∧ c = target := by
            simpa [visitEntries] using hVisit
          obtain ⟨chain, hChain, hMem, hRule⟩ := h.mem_rulesOf?.1 hMem
          exact ⟨chain, rule, hChain, hMem, hRule, RuleBody.mem_targets.1 hTarget⟩
      · intro hLeads
        obtain _ | ⟨r, transfer⟩ := approach
        · exact hLeads.elim
        · obtain ⟨chain, rule, hChain, hMem, hRule, hTarget⟩ := hLeads
          exact ⟨(r, rule), h.mem_rulesOf?.2 ⟨chain, hChain, hMem, hRule⟩, Or.inr
            ⟨(transfer, c), RuleBody.mem_targets.2 hTarget, List.mem_cons_self ..⟩⟩

/-- The rules of those chains stand there too, where the chains expand. -/
theorem rules_mem_entries (h : rs.Consistent) {approach : Approach} {c : ChainId} :
    .rules approach c ∈ rs.entries origin path ↔
      rs.Leads origin path approach c ∧ rs.Expands path c := by
  rw [← h.chain_mem_entries]
  cases path with
  | nil =>
      simp only [entries, List.mem_append, List.mem_map, List.mem_filter, decide_eq_true_eq]
      constructor
      · rintro (⟨_, _, hOther⟩ | ⟨_, ⟨hMem, hExpands⟩, rfl, rfl⟩)
        · cases hOther
        · exact ⟨Or.inl ⟨c, hMem, rfl⟩, hExpands⟩
      · rintro ⟨⟨_, hMem, rfl, rfl⟩ | ⟨_, _, hOther⟩, hExpands⟩
        · exact Or.inr ⟨c, ⟨hMem, hExpands⟩, rfl⟩
        · cases hOther
  | cons d path =>
      simp only [entries, List.mem_flatMap, stopEntries, List.mem_cons, reduceCtorEq, false_or]
      constructor
      · rintro ⟨rule, hRule, target, hTarget, hVisit⟩
        obtain ⟨hChain, hExpands⟩ := rules_mem_visitEntries.1 hVisit
        exact ⟨⟨rule, hRule, target, hTarget, hChain⟩, hExpands⟩
      · rintro ⟨⟨rule, hRule, target, hTarget, hChain⟩, hExpands⟩
        exact ⟨rule, hRule, target, hTarget, rules_mem_visitEntries.2 ⟨hChain, hExpands⟩⟩

/-- No two vertices of a level stand for the same. -/
theorem entries_nodup (h : rs.Consistent) (origin : Origin) (path : List ChainId) :
    (rs.entries origin path).Nodup := by
  cases path with
  | nil =>
      have hBuiltin := h.builtinChains_nodup origin
      refine List.nodup_append.2 ⟨hBuiltin.map fun _ _ hSame => ?_,
        (hBuiltin.filter _).map fun _ _ hSame => ?_, ?_⟩
      · cases hSame
        rfl
      · cases hSame
        rfl
      · simp only [List.mem_map]
        rintro _ ⟨c, -, rfl⟩ _ ⟨d, -, rfl⟩ hSame
        cases hSame
  | cons d path =>
      refine List.nodup_flatMap.2 ⟨fun rule _ => stopEntries_nodup rule, ?_⟩
      have hDistinct : (((rs.rulesOf? d).getD []).map Prod.fst).Nodup := by
        cases hRules : rs.rulesOf? d with
        | none => exact List.nodup_nil
        | some rules =>
            obtain ⟨chain, hChain, hFirst, -⟩ := rulesOf?_eq_some hRules
            rw [Option.getD_some, hFirst]
            exact h.rules_nodup hChain
      refine (List.pairwise_map.1 hDistinct).imp fun hDistinct e hFirst hSecond => hDistinct ?_
      exact Option.some.inj ((rule?_of_mem_stopEntries hFirst).symm.trans
        (rule?_of_mem_stopEntries hSecond))

end Consistent

end Ruleset

end PacketFlow
