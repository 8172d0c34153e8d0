import PacketFlow.Proofs.Flow.Tree

/-!
What the edges of a level join. A link tells an edge by what stands at its ends. The links between
the rules of a chain and the chains they call are computed without counting positions, and the edges
of the level are these links, with each end in the position of its entry.
-/
namespace PacketFlow

/-- An edge, told by what stands at its ends. -/
structure Link where
  source : Entry
  target : Entry
  kind : EdgeKind
  deriving DecidableEq, Repr

namespace Link

/-- The edge of a link on a level with these entries. -/
def edge (entries : List Entry) (link : Link) : Edge :=
  ⟨entries.idxOf link.source, entries.idxOf link.target, link.kind⟩

/-- On a level with these entries, the edge joins what the link says. -/
def Tells (entries : List Entry) (link : Link) (e : Edge) : Prop :=
  entries[e.source]? = some link.source ∧ entries[e.target]? = some link.target ∧
    e.kind = link.kind

theorem Tells.edge_eq {entries : List Entry} {link : Link} {e : Edge} (hTells : link.Tells entries e)
    (hNodup : entries.Nodup) : link.edge entries = e := by
  obtain ⟨hSource, hTarget, hKind⟩ := hTells
  obtain ⟨hLt, hSource⟩ := List.getElem?_eq_some_iff.1 hSource
  obtain ⟨hLt', hTarget⟩ := List.getElem?_eq_some_iff.1 hTarget
  rw [edge, ← hSource, ← hTarget, ← hKind, hNodup.idxOf_getElem, hNodup.idxOf_getElem]

end Link

/-- A run of entries stands on a level from a position on. -/
def StandFrom (entries : List Entry) (position : Nat) (run : List Entry) : Prop :=
  run <+: entries.drop position

namespace StandFrom

variable {entries : List Entry} {position : Nat} {entry : Entry} {first second : List Entry}

theorem head (hRun : StandFrom entries position (entry :: first)) :
    entries[position]? = some entry := by
  obtain ⟨rest, hRest⟩ := hRun
  rw [← Nat.add_zero position, ← List.getElem?_drop, ← hRest]
  rfl

theorem left (hRun : StandFrom entries position (first ++ second)) :
    StandFrom entries position first :=
  (List.prefix_append first second).trans hRun

theorem right (hRun : StandFrom entries position (first ++ second)) :
    StandFrom entries (position + first.length) second := by
  obtain ⟨rest, hRest⟩ := hRun
  exact ⟨rest, by rw [← List.drop_drop, ← hRest, List.append_assoc, List.drop_left]⟩

theorem tail (hRun : StandFrom entries position (entry :: first)) :
    StandFrom entries (position + 1) first := by
  have hSplit : StandFrom entries position ([entry] ++ first) := hRun
  exact hSplit.right

end StandFrom

namespace Ruleset

variable {rs : Ruleset} {origin : Origin} {path : List ChainId} {entries : List Entry}
  {position : Nat}

/-- The link of a visit: from the chain into its rules, where it expands. -/
def visitLinks (rs : Ruleset) (path : List ChainId) (approach : Approach) (c : ChainId) :
    List Link :=
  if rs.Expands path c then [⟨.chain approach c, .rules approach c, .rules⟩] else []

/-- The links of a rule: to each of its targets, and the links of the visits to them. -/
def transferLinks (rs : Ruleset) (path : List ChainId) (r : RuleId)
    (targets : List (Transfer × ChainId)) : List Link :=
  targets.flatMap fun target =>
    ⟨.rule r, .chain (some (r, target.1)) target.2, .transfer target.1⟩ ::
      rs.visitLinks path (some (r, target.1)) target.2

/-- The links of rules one after the other, behind the rule `previous` if there is one. -/
def levelLinks (rs : Ruleset) (path : List ChainId) :
    (previous : Option RuleId) → List (RuleId × Rule) → List Link
  | _, [] => []
  | previous, rule :: rest =>
    previous.toList.map (⟨.rule ·, .rule rule.1, .next⟩) ++
      rs.transferLinks path rule.1 rule.2.targets ++ rs.levelLinks path (some rule.1) rest

/-- The links on the level of a chain. -/
def links (rs : Ruleset) (path : List ChainId) (c : ChainId) : List Link :=
  rs.levelLinks path none ((rs.rulesOf? c).getD [])

section Edges

theorem tells_visit {approach : Approach} {c : ChainId} {visit : Visit}
    (hVisit : rs.visit? path c = some visit)
    (hRun : StandFrom entries position (rs.visitEntries path approach c)) :
    List.Forall₂ (Link.Tells entries) (rs.visitLinks path approach c) (visit.edges position) := by
  obtain ⟨label, chain, -, -, -, hBody⟩ := visit?_eq_some hVisit
  rcases hBody with ⟨hExpands, inner, -, hBody⟩ | ⟨hClosed, hBody⟩
  · rw [visitEntries, if_pos hExpands] at hRun
    rw [visitLinks, if_pos hExpands, Visit.edges, hBody]
    exact .cons ⟨hRun.head, hRun.tail.head, rfl⟩ .nil
  · rw [visitLinks, if_neg hClosed, Visit.edges, hBody]
    exact .nil

theorem tells_transfers {r : RuleId} {rule : Nat} {targets : List (Transfer × ChainId)}
    {visits : List (Transfer × Visit)}
    (hVisits : List.Forall₂ (fun target visit => visit.1 = target.1 ∧
      rs.visit? path target.2 = some visit.2) targets visits)
    (hRule : entries[rule]? = some (.rule r))
    (hRun : StandFrom entries position
      (targets.flatMap fun target => rs.visitEntries path (some (r, target.1)) target.2)) :
    List.Forall₂ (Link.Tells entries) (rs.transferLinks path r targets)
      (Stop.transferEdges rule position visits) := by
  induction hVisits generalizing position with
  | nil => exact .nil
  | @cons target visit targets visits hHead hTail ih =>
      obtain ⟨transfer, visit⟩ := visit
      obtain ⟨rfl, hVisit⟩ := hHead
      have hStands : List.Forall₂ (rs.Stands .outside path)
          (rs.visitEntries path (some (r, target.1)) target.2) visit.vertices := stands_visit hVisit
      rw [List.flatMap_cons] at hRun
      have hRest := hStands.length_eq ▸ hRun.right
      rw [Stop.transferEdges, transferLinks, List.flatMap_cons]
      refine List.rel_append (.cons ⟨hRule, hRun.left.head, rfl⟩ ?_) (ih hRest)
      exact tells_visit hVisit hRun.left

/-- The edges between stops are the links between their rules. -/
theorem tells_level {rules : List (RuleId × Rule)} {stops : List Stop} {previous : Option RuleId}
    {before : Option Nat}
    (hStops : List.Forall₂ (fun rule stop => rs.stop? path rule = some stop) rules stops)
    (hPrevious : List.Forall₂ (fun r rule => entries[rule]? = some (.rule r))
      previous.toList before.toList)
    (hRun : StandFrom entries position (rules.flatMap (rs.stopEntries path))) :
    List.Forall₂ (Link.Tells entries) (rs.levelLinks path previous rules)
      (Stop.levelEdges before position stops) := by
  induction hStops generalizing previous before position with
  | nil => exact .nil
  | @cons rule stop rules stops hHead hTail ih =>
      obtain ⟨r, rule⟩ := rule
      obtain ⟨label, -, hRule, hVisits⟩ := stop?_eq_some hHead
      have hStands : List.Forall₂ (rs.Stands .outside path) (rs.stopEntries path (r, rule))
          stop.vertices := stands_stop hHead
      rw [List.flatMap_cons] at hRun
      have hHere := hRun.left.head
      have hRest := hStands.length_eq ▸ hRun.right
      rw [levelLinks, Stop.levelEdges]
      refine List.rel_append (List.rel_append (List.rel_map ?_ hPrevious) ?_) ?_
      · exact fun _ _ hBefore => ⟨hBefore, hHere, rfl⟩
      · exact tells_transfers hVisits hHere hRun.left.tail
      · exact ih (.cons hHere .nil) hRest

/-- The edges on the level of a chain are its links. -/
theorem Consistent.edges_eq (h : rs.Consistent) (origin : Origin) {c : ChainId} {g : Graph}
    (hGraph : rs.innerGraph? (c :: path) c = some g) :
    g.edges = (rs.links (c :: path) c).map (Link.edge (rs.entries origin (c :: path))) := by
  obtain ⟨rules, stops, hRules, hStops, rfl⟩ := innerGraph?_eq_some hGraph
  have hEntries : rs.entries origin (c :: path) = rules.flatMap (rs.stopEntries (c :: path)) := by
    rw [entries, hRules, Option.getD_some]
  have hRun : StandFrom (rs.entries origin (c :: path)) 0
      (rules.flatMap (rs.stopEntries (c :: path))) :=
    ⟨[], by rw [hEntries, List.append_nil, List.drop_zero]⟩
  have hTells : List.Forall₂ (Link.Tells (rs.entries origin (c :: path)))
      (rs.levelLinks (c :: path) none rules) (Stop.levelEdges none 0 stops) :=
    tells_level hStops .nil hRun
  have hNodup := h.entries_nodup origin (c :: path)
  rw [links, hRules, Option.getD_some, eq_comm, ← List.forall₂_eq_eq_eq, List.forall₂_map_left_iff]
  exact hTells.imp fun _ _ hTells => hTells.edge_eq hNodup

end Edges

section Membership

variable {c : ChainId} {source target : Entry}

theorem mem_transferLinks {r : RuleId} {targets : List (Transfer × ChainId)} {link : Link} :
    link ∈ rs.transferLinks path r targets ↔ ∃ target ∈ targets,
      link = ⟨.rule r, .chain (some (r, target.1)) target.2, .transfer target.1⟩ ∨
      (rs.Expands path target.2 ∧ link =
        ⟨.chain (some (r, target.1)) target.2, .rules (some (r, target.1)) target.2, .rules⟩) := by
  simp only [transferLinks, visitLinks, List.mem_flatMap, List.mem_cons, List.mem_ite_nil_right,
    List.not_mem_nil, or_false]

/-- All links of a level but those to a next rule are links of one of its rules. -/
theorem mem_levelLinks {previous : Option RuleId} {rules : List (RuleId × Rule)} {link : Link}
    (hKind : link.kind ≠ .next) :
    link ∈ rs.levelLinks path previous rules ↔
      ∃ rule ∈ rules, link ∈ rs.transferLinks path rule.1 rule.2.targets := by
  induction rules generalizing previous with
  | nil => simp [levelLinks]
  | cons rule rest ih =>
      have hBefore : link ∉ previous.toList.map (⟨.rule ·, .rule rule.1, .next⟩) := by
        rw [List.mem_map]
        rintro ⟨r, -, rfl⟩
        exact hKind rfl
      rw [levelLinks, List.mem_append, List.mem_append, ih, List.exists_mem_cons_iff]
      simp only [hBefore, false_or]

/-- The links from a rule to the next one join each two rules that follow each other. -/
theorem filter_next_levelLinks (previous : Option RuleId) (rules : List (RuleId × Rule)) :
    (rs.levelLinks path previous rules).filter (fun link => link.kind == .next) =
      List.zipWith (fun r next => ⟨.rule r, .rule next, .next⟩)
        (previous.toList ++ rules.map Prod.fst) (previous.toList ++ rules.map Prod.fst).tail := by
  induction rules generalizing previous with
  | nil => cases previous <;> rfl
  | cons rule rest ih =>
      have hOther : (rs.transferLinks path rule.1 rule.2.targets).filter
          (fun link => link.kind == .next) = [] := by
        rw [List.filter_eq_nil_iff]
        intro link hMem
        obtain ⟨target, -, rfl | ⟨-, rfl⟩⟩ := mem_transferLinks.1 hMem <;> simp
      rw [levelLinks, List.filter_append, List.filter_append, hOther, ih, List.append_nil]
      cases previous <;> rfl

namespace Consistent

variable (h : rs.Consistent)

include h

theorem calls_iff {r : RuleId} {transfer : Transfer} {d : ChainId} :
    rs.Calls c ⟨r, transfer, d⟩ ↔
      ∃ rule, (r, rule) ∈ (rs.rulesOf? c).getD [] ∧ (transfer, d) ∈ rule.targets := by
  simp only [h.mem_rulesOf?, RuleBody.mem_targets, Calls]
  constructor
  · rintro ⟨chain, rule, hChain, hMem, hRule, hTarget⟩
    exact ⟨rule, ⟨chain, hChain, hMem, hRule⟩, hTarget⟩
  · rintro ⟨rule, ⟨chain, hChain, hMem, hRule⟩, hTarget⟩
    exact ⟨chain, rule, hChain, hMem, hRule, hTarget⟩

/-- There is a link under a transfer for every call, from the rule to the chain that it calls. -/
theorem transfer_mem_links {transfer : Transfer} :
    ⟨source, target, .transfer transfer⟩ ∈ rs.links path c ↔
      ∃ r d, rs.Calls c ⟨r, transfer, d⟩ ∧ source = .rule r ∧
        target = .chain (some (r, transfer)) d := by
  rw [links, mem_levelLinks (by simp)]
  simp only [mem_transferLinks, h.calls_iff]
  constructor
  · rintro ⟨⟨r, rule⟩, hRule, ⟨transfer', d⟩, hTarget, hLink | ⟨-, hLink⟩⟩
    · cases hLink
      exact ⟨r, d, ⟨rule, hRule, hTarget⟩, rfl, rfl⟩
    · cases hLink
  · rintro ⟨r, d, ⟨rule, hRule, hTarget⟩, rfl, rfl⟩
    exact ⟨(r, rule), hRule, (transfer, d), hTarget, Or.inl rfl⟩

/-- There is a link into the rules of a chain for every call of a chain that expands. -/
theorem rules_mem_links :
    ⟨source, target, .rules⟩ ∈ rs.links path c ↔
      ∃ r transfer d, (rs.Calls c ⟨r, transfer, d⟩ ∧ rs.Expands path d) ∧
        source = .chain (some (r, transfer)) d ∧ target = .rules (some (r, transfer)) d := by
  rw [links, mem_levelLinks (by simp)]
  simp only [mem_transferLinks, h.calls_iff]
  constructor
  · rintro ⟨⟨r, rule⟩, hRule, ⟨transfer, d⟩, hTarget, hLink | ⟨hExpands, hLink⟩⟩
    · cases hLink
    · cases hLink
      exact ⟨r, transfer, d, ⟨⟨rule, hRule, hTarget⟩, hExpands⟩, rfl, rfl⟩
  · rintro ⟨r, transfer, d, ⟨⟨rule, hRule, hTarget⟩, hExpands⟩, rfl, rfl⟩
    exact ⟨(r, rule), hRule, (transfer, d), hTarget, Or.inr ⟨hExpands, rfl⟩⟩

end Consistent

/-- The links from a rule to the next one on the level of a chain. -/
theorem filter_next_links (rs : Ruleset) (path : List ChainId) (c : ChainId) :
    (rs.links path c).filter (fun link => link.kind == .next) =
      List.zipWith (fun r next => ⟨.rule r, .rule next, .next⟩)
        (((rs.rulesOf? c).getD []).map Prod.fst) (((rs.rulesOf? c).getD []).map Prod.fst).tail :=
  filter_next_levelLinks none _

theorem exists_rule_of_next_mem_links (hMem : ⟨source, target, .next⟩ ∈ rs.links path c) :
    ∃ r next, source = .rule r ∧ target = .rule next := by
  have hNext := List.mem_filter (p := fun link : Link => link.kind == .next).2 ⟨hMem, by simp⟩
  rw [filter_next_links] at hNext
  obtain ⟨i, hLt, hLink⟩ := List.mem_iff_getElem.1 hNext
  rw [List.getElem_zipWith] at hLink
  cases hLink
  exact ⟨_, _, rfl, rfl⟩

end Membership

end Ruleset

end PacketFlow
