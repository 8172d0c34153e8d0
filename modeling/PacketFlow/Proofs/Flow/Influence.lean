import PacketFlow.Proofs.Flow.Legibility
import PacketFlow.Proofs.Flow.Reach
import PacketFlow.Proofs.Flow.Rendering
import PacketFlow.Proofs.Ruleset.Listing

/-!
What does not influence the ways of a packet. A request stands aside if it adds no chain of a station
that the packet passes, and no rule to a chain of a table that the packet reaches. Tables, extensions
and all other chains and rules may be added: the graph stays the same, number by number, and so does
what is given out of it in either form.
-/
namespace PacketFlow

variable {rs later : Ruleset} {origin : Origin}

section Drawing

/-! A graph that has been drawn is drawn in the same way when the ruleset has grown. -/

/-- A vertex is drawn again as it has been drawn. -/
def Vertex.StaysDrawn (rs later : Ruleset) (v : Vertex) : Prop :=
  ∀ place statement, v.draw? rs place = some statement → v.draw? later place = some statement

variable {place : List Nat} {drawn : List Dot.Statement}

theorem Vertex.drawFrom?_of_staysDrawn {vs : List Vertex}
    (hVertices : ∀ v ∈ vs, v.StaysDrawn rs later) {position : Nat}
    (hDrawn : Vertex.drawFrom? rs place position vs = some drawn) :
    Vertex.drawFrom? later place position vs = some drawn := by
  induction vs generalizing position drawn with
  | nil => exact hDrawn
  | cons v rest ih =>
      obtain ⟨first, others, hFirst, hOthers, rfl⟩ := Vertex.drawFrom?_cons_eq_some_iff.1 hDrawn
      rw [List.forall_mem_cons] at hVertices
      exact Vertex.drawFrom?_cons_eq_some_iff.2
        ⟨first, others, hVertices.1 _ _ hFirst, ih hVertices.2 hOthers, rfl⟩

theorem Graph.draw?_of_staysDrawn {g : Graph} (hVertices : ∀ v ∈ g.vertices, v.StaysDrawn rs later)
    (hDrawn : g.draw? rs place = some drawn) : g.draw? later place = some drawn := by
  obtain ⟨vertices, edges, hFirst, hEdges, rfl⟩ := Graph.draw?_eq_some_iff.1 hDrawn
  exact Graph.draw?_eq_some_iff.2
    ⟨vertices, edges, Vertex.drawFrom?_of_staysDrawn hVertices hFirst, hEdges, rfl⟩

theorem Ruleset.Extends.staysDrawn (hExtends : rs.Extends later) (v : Vertex) :
    v.StaysDrawn rs later := by
  induction v using Vertex.induction with
  | chain name c isExtension truncated => exact fun _ _ hDrawn => hDrawn
  | rule name r =>
      intro place statement hDrawn
      obtain ⟨rule, hRule, hStatement⟩ := Vertex.draw?_rule_eq_some_iff.1 hDrawn
      exact Vertex.draw?_rule_eq_some_iff.2 ⟨rule, hExtends.rule hRule, hStatement⟩
  | rules name c inner hInner =>
      intro place statement hDrawn
      obtain ⟨body, hBody, hStatement⟩ := Vertex.draw?_rules_eq_some_iff.1 hDrawn
      exact Vertex.draw?_rules_eq_some_iff.2
        ⟨body, Graph.draw?_of_staysDrawn hInner hBody, hStatement⟩

theorem Ruleset.Extends.picture?_of_some (hExtends : rs.Extends later) {g : Graph} {text : String}
    (hText : g.picture? rs origin = some text) : g.picture? later origin = some text := by
  obtain ⟨d, hDiagram, rfl⟩ := Option.map_eq_some_iff.1 hText
  obtain ⟨body, hBody, hSame⟩ := Graph.diagram?_eq_some_iff.1 hDiagram
  have hAgain := Graph.draw?_of_staysDrawn (fun v _ => hExtends.staysDrawn v) hBody
  rw [Graph.picture?, Graph.diagram?_eq_some_iff.2 ⟨body, hAgain, hSame⟩, Option.map_some]

end Drawing

namespace Ruleset

/-- A later ruleset has all that was there, and the ways of the packet are as they were: it comes to
the same built-in chains, and the chains of tables that it reaches have the rules that they had. -/
structure SameWays (rs later : Ruleset) (origin : Origin) : Prop where
  extended : rs.Extends later
  builtinChains_eq : later.builtinChains origin = rs.builtinChains origin
  chain {c : ChainId} {chain : Chain} (hReached : rs.Reached origin c)
    (hChain : rs.chain? c = some chain) (hTable : chain.isExtension = false) :
    later.chain? c = some chain

theorem Extends.stop?_of_some (hExtends : rs.Extends later) {path : List ChainId}
    {rule : RuleId × Rule} {stop : Stop}
    (hVisit : ∀ target ∈ rule.2.targets, ∀ visit, rs.visit? path target.2 = some visit →
      later.visit? path target.2 = some visit)
    (hStop : rs.stop? path rule = some stop) : later.stop? path rule = some stop := by
  rw [stop?_eq, Option.bind_eq_some_iff] at hStop ⊢
  obtain ⟨label, hLabel, hStop⟩ := hStop
  obtain ⟨visits, hVisits, rfl⟩ := Option.map_eq_some_iff.1 hStop
  refine ⟨label, hExtends.ruleLabel?_of_some hLabel, Option.map_eq_some_iff.2 ⟨visits, ?_, rfl⟩⟩
  refine mapM_of_some (fun target hMem shown hShown => ?_) hVisits
  obtain ⟨visit, hFound, rfl⟩ := Option.map_eq_some_iff.1 hShown
  rw [hVisit target hMem visit hFound, Option.map_some]

namespace SameWays

theorem refl (rs : Ruleset) (origin : Origin) : rs.SameWays rs origin where
  extended := Extends.refl rs
  builtinChains_eq := rfl
  chain _ hChain _ := hChain

variable (hSame : rs.SameWays later origin)

include hSame

theorem reached {c : ChainId} (hReached : rs.Reached origin c) : later.Reached origin c := by
  induction hReached with
  | builtin hMem => exact .builtin (hSame.builtinChains_eq ▸ hMem)
  | call hReached hTable hCall ih =>
      obtain ⟨chain, rule, hChain, hMem, hRule, hTarget⟩ := hCall
      have hOwned : chain.isExtension = false := by simpa [IsExtension, hChain] using hTable
      have hAgain := hSame.chain hReached hChain hOwned
      exact .call ih (by simp [IsExtension, hAgain, hOwned])
        ⟨chain, rule, hAgain, hMem, hSame.extended.rule hRule, hTarget⟩

theorem trans {latest : Ruleset} (hNext : later.SameWays latest origin) :
    rs.SameWays latest origin where
  extended := hSame.extended.trans hNext.extended
  builtinChains_eq := hNext.builtinChains_eq.trans hSame.builtinChains_eq
  chain hReached hChain hTable :=
    hNext.chain (hSame.reached hReached) (hSame.chain hReached hChain hTable) hTable

theorem innerGraph?_of_some {path : List ChainId} {c : ChainId} {chain : Chain} {g : Graph}
    (hReached : rs.Reached origin c) (hChain : rs.chain? c = some chain)
    (hTable : chain.isExtension = false)
    (hVisit : ∀ d visit, rs.Reached origin d → rs.visit? path d = some visit →
      later.visit? path d = some visit)
    (hGraph : rs.innerGraph? path c = some g) : later.innerGraph? path c = some g := by
  rw [innerGraph?_eq, Option.bind_eq_some_iff] at hGraph ⊢
  obtain ⟨rules, hRules, hGraph⟩ := hGraph
  obtain ⟨stops, hStops, rfl⟩ := Option.map_eq_some_iff.1 hGraph
  obtain ⟨found, hFound, hFirst, hRead⟩ := rulesOf?_eq_some hRules
  obtain rfl := Option.some.inj (hFound.symm.trans hChain)
  refine ⟨rules, ?_, Option.map_eq_some_iff.2 ⟨stops, ?_, rfl⟩⟩
  · rw [rulesOf?, hSame.chain hReached hChain hTable]
    exact mapM_pair_eq_some_iff.2 ⟨hFirst, fun rule hMem => hSame.extended.rule (hRead rule hMem)⟩
  · refine mapM_of_some (fun rule hMem stop hStop => ?_) hStops
    refine hSame.extended.stop?_of_some (fun target hTarget visit => hVisit target.2 visit ?_) hStop
    have hCall : rs.Calls c ⟨rule.1, target.1, target.2⟩ :=
      ⟨found, rule.2, hChain, hFirst ▸ List.mem_map_of_mem hMem, hRead rule hMem,
        RuleBody.mem_targets.1 hTarget⟩
    exact .call hReached (by simp [IsExtension, hChain, hTable]) hCall

/-- A visit to a reached chain shows what it showed. The induction is on the chains off the path, since
a chain that expands joins the path. -/
theorem visit?_of_some {path : List ChainId} {c : ChainId} {visit : Visit}
    (hReached : rs.Reached origin c) (hVisit : rs.visit? path c = some visit) :
    later.visit? path c = some visit := by
  induction hOff : rs.offPath path using Nat.strongRecOn generalizing path c visit with
  | _ off ih =>
      rw [visit?_eq, Option.bind_eq_some_iff] at hVisit
      obtain ⟨label, hLabel, hVisit⟩ := hVisit
      obtain ⟨chain, hChain, hVisit⟩ := Option.bind_eq_some_iff.1 hVisit
      rw [visit?_eq, hSame.extended.chainLabel?_of_some hLabel, Option.bind_some]
      cases hTable : chain.isExtension with
      | true =>
          -- The extension may have got rules, but they are not looked at.
          obtain ⟨after, hAfter, -, -, -, hMark, -⟩ := hSame.extended.chain hChain
          simpa [hAfter, hMark, hTable] using hVisit
      | false =>
          rw [hSame.chain hReached hChain hTable, Option.bind_some]
          split at hVisit
          next hClosed => rwa [if_pos hClosed]
          next hOpen =>
            rw [if_neg hOpen]
            obtain ⟨inner, hInner, rfl⟩ := Option.map_eq_some_iff.1 hVisit
            have hPath : c ∉ path := by simp_all
            have hAgain := hSame.innerGraph?_of_some hReached hChain hTable
              (fun d visit hReached hVisit =>
                ih _ (hOff ▸ offPath_cons_lt hChain hPath) hReached hVisit rfl) hInner
            rw [hAgain, Option.map_some]

theorem traversal?_of_some {g : Graph} (hGraph : rs.traversal? origin = some g) :
    later.traversal? origin = some g := by
  rw [traversal?, Option.bind_eq_bind, Option.bind_eq_some_iff] at hGraph ⊢
  obtain ⟨visits, hVisits, hGraph⟩ := hGraph
  refine ⟨visits, ?_, hGraph⟩
  rw [hSame.builtinChains_eq]
  exact mapM_of_some (fun c hMem visit hVisit => hSame.visit?_of_some (.builtin hMem) hVisit) hVisits

theorem builtinLabels?_of_some {labels : List String}
    (hLabels : rs.builtinLabels? origin = some labels) :
    later.builtinLabels? origin = some labels := by
  rw [builtinLabels?, hSame.builtinChains_eq]
  exact mapM_of_some (fun c _ label hLabel => hSame.extended.chainLabel?_of_some hLabel) hLabels

/-- What has been given out is given out again, in the same form. -/
theorem render?_of_some {format : Format} {text : String}
    (hText : rs.render? origin format = some text) : later.render? origin format = some text := by
  rw [render?, Option.bind_eq_bind, Option.bind_eq_some_iff] at hText ⊢
  obtain ⟨g, hGraph, hText⟩ := hText
  refine ⟨g, hSame.traversal?_of_some hGraph, ?_⟩
  cases format with
  | dot => exact hSame.extended.picture?_of_some hText
  | json =>
      obtain ⟨labels, hLabels, hText⟩ := Option.bind_eq_some_iff.1 hText
      exact Option.bind_eq_some_iff.2 ⟨labels, hSame.builtinLabels?_of_some hLabels, hText⟩

end SameWays

/-- The station has the chain that it had, unless its chain is a new one. -/
theorem Extends.chainAt?_eq (hExtends : rs.Extends later) (h : rs.Consistent)
    (hLater : later.Consistent) {station : Hook × String}
    (hOld : ∀ c, later.chainAt? station = some c → ∃ chain, rs.chain? c = some chain) :
    later.chainAt? station = rs.chainAt? station := by
  ext c
  constructor
  · intro hFound
    obtain ⟨chain, hChain⟩ := hOld c hFound
    obtain ⟨t, table, after, hTable, hTableName, hAfter, hOwner, hName⟩ :=
      hLater.chainAt?_eq_some_iff.1 hFound
    obtain ⟨found, hFound, hChainName, -, hChainOwner, -⟩ := hExtends.chain hChain
    obtain rfl := Option.some.inj (hFound.symm.trans hAfter)
    obtain ⟨old, hOldTable, -⟩ := h.mem_of_chain hChain (hChainOwner.symm.trans hOwner)
    obtain ⟨foundTable, hFoundTable, hOldName, -⟩ := hExtends.table hOldTable
    obtain rfl := Option.some.inj (hFoundTable.symm.trans hTable)
    exact h.chainAt?_eq_some_iff.2 ⟨t, old, chain, hOldTable, hOldName ▸ hTableName, hChain,
      hChainOwner.symm.trans hOwner, hChainName ▸ hName⟩
  · intro hFound
    obtain ⟨t, table, chain, hTable, hTableName, hChain, hOwner, hName⟩ :=
      h.chainAt?_eq_some_iff.1 hFound
    obtain ⟨after, hAfter, hChainName, -, hChainOwner, -⟩ := hExtends.chain hChain
    obtain ⟨afterTable, hAfterTable, hOldName, -⟩ := hExtends.table hTable
    exact hLater.chainAt?_eq_some_iff.2 ⟨t, afterTable, after, hAfterTable, hOldName ▸ hTableName,
      hAfter, hChainOwner.trans hOwner, hChainName ▸ hName⟩

theorem Extends.builtinChains_eq (hExtends : rs.Extends later) (h : rs.Consistent)
    (hLater : later.Consistent)
    (hOld : ∀ station ∈ origin.stations, ∀ c, later.chainAt? station = some c →
      ∃ chain, rs.chain? c = some chain) :
    later.builtinChains origin = rs.builtinChains origin := by
  rw [builtinChains_eq_filterMap, builtinChains_eq_filterMap]
  exact List.filterMap_congr fun station hMem =>
    hExtends.chainAt?_eq h hLater (hOld station hMem)

section Requests

/-- To declare a chain of that name in the table is to add the chain of a station that the packet
passes. Nothing is added to a table that does not exist or has a chain of that name. -/
def AddsStation (rs : Ruleset) (origin : Origin) (id : TableId) (name : String) : Prop :=
  ∃ table, rs.table? id = some table ∧ rs.chainNamed? id name = none ∧
    ∃ station ∈ origin.stations, Text.sameName table.name station.2 = true ∧
      Text.sameName name station.1.name = true

instance (id : TableId) (name : String) : Decidable (rs.AddsStation origin id name) :=
  inferInstanceAs (Decidable (∃ table ∈ rs.table? id, rs.chainNamed? id name = none ∧
    ∃ station ∈ origin.stations, Text.sameName table.name station.2 = true ∧
      Text.sameName name station.1.name = true))

/-- The request stands aside from the ways of the packet. A chain may be declared if it is not the
chain of a station. A rule may be added to an extension, and to every chain that the packet does not
reach, wherever it leads to. -/
def Aside (rs : Ruleset) (origin : Origin) : Operation → Prop
  | .openTable _ => True
  | .declareChain id name _ => ¬rs.AddsStation origin id name
  | .addExtension _ => True
  | .appendRule c _ => rs.IsExtension c ∨ ¬rs.Reached origin c

/-- Each of the requests stands aside when its turn comes. -/
def AllAside (rs : Ruleset) (origin : Origin) : List Operation → Prop
  | [] => True
  | operation :: rest => rs.Aside origin operation ∧ (rs.apply operation).AllAside origin rest

variable {operation : Operation}

/-- A chain of a station was there before the request. -/
theorem Aside.exists_chain? (hAside : rs.Aside origin operation)
    (hLater : (rs.apply operation).Consistent) {station : Hook × String}
    (hStation : station ∈ origin.stations) {c : ChainId}
    (hFound : (rs.apply operation).chainAt? station = some c) :
    ∃ chain, rs.chain? c = some chain := by
  obtain ⟨t, table, chain, hTable, hTableName, hChain, hOwner, hName⟩ :=
    hLater.chainAt?_eq_some_iff.1 hFound
  cases operation with
  | openTable name =>
      exact ⟨chain, by rwa [chain?_apply_openTable] at hChain⟩
  | declareChain id name policy =>
      rcases rs.apply_declareChain_cases id name policy with hApply | ⟨hFree, hApply⟩
      · exact ⟨chain, by rwa [hApply] at hChain⟩
      rw [hApply] at hChain hTable
      rcases chain?_withChain_cases hChain with ⟨-, rfl⟩ | hOld
      · obtain rfl := Option.some.inj hOwner
        obtain ⟨old, hOldTable, rfl⟩ := table?_withChain_cases hTable
        exact absurd ⟨old, hOldTable, hFree, station, hStation, Text.sameName_iff.2 hTableName,
          Text.sameName_iff.2 hName⟩ hAside
      · exact ⟨chain, hOld⟩
  | addExtension name =>
      rcases chain?_withExtension_cases hChain with ⟨-, rfl⟩ | hOld
      · cases hOwner
      · exact ⟨chain, hOld⟩
  | appendRule id body =>
      rcases rs.apply_appendRule_cases id body with hApply | ⟨position, hApply⟩
      · exact ⟨chain, by rwa [hApply] at hChain⟩
      rw [hApply] at hChain
      obtain ⟨old, hOld, -⟩ := chain?_withRule_cases hChain
      exact ⟨old, hOld⟩

/-- A chain of a table that is reached has the rules that it had. -/
theorem Aside.chain?_eq (hAside : rs.Aside origin operation) {c : ChainId} {chain : Chain}
    (hReached : rs.Reached origin c) (hChain : rs.chain? c = some chain)
    (hTable : chain.isExtension = false) : (rs.apply operation).chain? c = some chain := by
  cases operation with
  | openTable name => rwa [chain?_apply_openTable]
  | declareChain id name policy =>
      rcases rs.apply_declareChain_cases id name policy with hApply | ⟨-, hApply⟩
      · rwa [hApply]
      · rw [hApply]
        exact chain?_withChain_of_some hChain
  | addExtension name => exact chain?_withExtension_of_some hChain
  | appendRule id body =>
      have hOther : c ≠ id := by
        rintro rfl
        rcases hAside with ⟨found, hFound, hExtension⟩ | hUnreached
        · obtain rfl := Option.some.inj (hFound.symm.trans hChain)
          rw [hTable] at hExtension
          cases hExtension
        · exact hUnreached hReached
      rcases rs.apply_appendRule_cases id body with hApply | ⟨position, hApply⟩
      · rwa [hApply]
      · rw [hApply, chain?_withRule_of_some hChain]
        simp [listRule, hOther]

/-- After a request that stands aside, the ways of the packet are as they were. -/
theorem Aside.sameWays (hAside : rs.Aside origin operation) (hBuilt : rs.Built) :
    rs.SameWays (rs.apply operation) origin where
  extended := extends_apply rs operation
  builtinChains_eq := by
    have hLater := (hBuilt.apply operation).consistent
    exact (extends_apply rs operation).builtinChains_eq hBuilt.consistent hLater
      fun station hStation c hFound => hAside.exists_chain? hLater hStation hFound
  chain := hAside.chain?_eq

/-- After requests that stand aside one after the other, the ways of the packet are as they were. -/
theorem AllAside.sameWays {operations : List Operation} (hAside : rs.AllAside origin operations)
    (hBuilt : rs.Built) : rs.SameWays (operations.foldl apply rs) origin := by
  induction operations generalizing rs with
  | nil => exact SameWays.refl rs origin
  | cons operation rest ih =>
      exact (hAside.1.sameWays hBuilt).trans (ih hAside.2 (hBuilt.apply operation))

end Requests

/-- What a packet does not reach has no influence on what is shown of its ways. Requests that stand
aside leave the graph as it is, and what is given out of it in either form. -/
theorem render?_of_allAside (hBuilt : rs.Built) (hTargets : rs.TargetsExist) {origin : Origin}
    {operations : List Operation} (hAside : rs.AllAside origin operations) :
    ∃ g, rs.traversal? origin = some g ∧
      (operations.foldl apply rs).traversal? origin = some g ∧
      ∀ format, ∃ text, rs.render? origin format = some text ∧
        (operations.foldl apply rs).render? origin format = some text := by
  have h := hBuilt.consistent
  have hSame := hAside.sameWays hBuilt
  obtain ⟨g, hGraph⟩ := h.exists_traversal? hTargets origin
  refine ⟨g, hGraph, hSame.traversal?_of_some hGraph, fun format => ?_⟩
  obtain ⟨text, hText⟩ := h.exists_render? hTargets origin format
  exact ⟨text, hText, hSame.render?_of_some hText⟩

/-- An input chain that logs, and a forward chain that hands packets on to the input chain. -/
def secluded : Ruleset :=
  build [.openTable "filter", .declareChain ⟨0⟩ "INPUT" "DROP", .declareChain ⟨0⟩ "FORWARD" "DROP",
    .addExtension "LOG", .appendRule ⟨0⟩ { RuleBody.empty with jump := some ⟨2⟩ },
    .appendRule ⟨1⟩ { RuleBody.empty with goto := some ⟨0⟩ }]

/-- Requests that do not concern packets for this device: a new table, rules of an extension and of the
forward chain, an extension, a second input chain, which is refused, and a chain of a hook at which
its table is not consulted. -/
def bystanders : List Operation :=
  [.openTable "nat", .appendRule ⟨2⟩ { RuleBody.empty with jump := some ⟨1⟩ },
    .appendRule ⟨1⟩ { RuleBody.empty with jump := some ⟨0⟩ }, .addExtension "SNAT",
    .declareChain ⟨0⟩ "INPUT" "ACCEPT", .declareChain ⟨0⟩ "PREROUTING" "ACCEPT"]

theorem render?_of_allAside_bystanders :
    secluded.TargetsExist ∧ secluded.AllAside .outside bystanders ∧
      ∃ g, secluded.traversal? .outside = some g ∧
        (bystanders.foldl apply secluded).traversal? .outside = some g ∧
        ∀ format, ∃ text, secluded.render? .outside format = some text ∧
          (bystanders.foldl apply secluded).render? .outside format = some text := by
  have hTargets : secluded.TargetsExist := by decide +kernel
  have hBuilt : secluded.Built := ⟨_, rfl⟩
  have hAside : secluded.AllAside .outside bystanders := by
    simp only [bystanders, AllAside, Aside, true_and, and_true]
    refine ⟨Or.inl (by decide +kernel), Or.inr fun hReached => ?_, by decide +kernel,
      by decide +kernel⟩
    have hMem := ((hBuilt.apply _).apply _).consistent.mem_of_reached [⟨0⟩, ⟨2⟩]
      (by decide +kernel) (by decide +kernel) hReached
    revert hMem
    decide
  exact ⟨hTargets, hAside, render?_of_allAside hBuilt hTargets hAside⟩

end Ruleset

end PacketFlow
