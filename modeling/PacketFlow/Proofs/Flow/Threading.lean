import Mathlib.Data.Finset.Basic
import PacketFlow.Proofs.Flow.Expansion

/-!
The expansion of chains as a walk with one set of chains. A chain is put into the set before its rules
are walked through and is taken out behind them, and a graph is filled as the walk goes on, an edge
once both its ends have their places. Behind every rule the set is as it was in front of it, so what
the walk makes of a chain depends on the chains around it alone, and the walk ends with the graph that
the visits have one within the other. Each chain that is entered leaves fewer to enter, which bounds
the depth of the walk.
-/
namespace PacketFlow

namespace Ruleset

variable (rs : Ruleset)

/-- Adds the vertex of a chain, and gives its place. -/
def addChain? (graph : Graph) (c : ChainId) (truncated : Bool) : Option (Nat × Graph) := do
  let label ← rs.chainLabel? c
  let chain ← rs.chain? c
  return graph.pushVertex (.chain label c chain.isExtension truncated)

section Steps

/-! What is done on the way, for any way `inner` of walking through the rules of a chain. -/

variable (inner : ChainId → Finset ChainId → Option (Graph × Finset ChainId))

/-- Walks through the rules of a chain, and adds the vertex that holds them. -/
def walkBody? (graph : Graph) (c : ChainId) (around : Finset ChainId) :
    Option ((Nat × Graph) × Finset ChainId) := do
  let (rules, around) ← inner c around
  let label ← rs.chainLabel? c
  return (graph.pushVertex (.rules s!"rules: {label}" c rules), around)

/-- Comes from a rule to a chain, and walks through the chain's rules unless the walk is within them. -/
def walkTarget? (graph : Graph) (source : Nat) (target : ChainId) (transfer : Transfer)
    (around : Finset ChainId) : Option (Graph × Finset ChainId) := do
  let chain ← rs.chain? target
  let met := decide (target ∈ around)
  let (position, graph) ← rs.addChain? graph target met
  let graph := graph.pushEdge ⟨source, position, .transfer transfer⟩
  if chain.isExtension || met || chain.rules.isEmpty then
    return (graph, around)
  else
    let ((body, graph), around) ← rs.walkBody? inner graph target (insert target around)
    return (graph.pushEdge ⟨position, body, .rules⟩, around.erase target)

/-- Comes to a rule, from the rule before it if there is one, and goes on to the rule's targets. -/
def walkRule? (state : (Graph × Option Nat) × Finset ChainId) (rule : RuleId × Rule) :
    Option ((Graph × Option Nat) × Finset ChainId) := do
  let ((graph, previous), around) := state
  let label ← rs.ruleLabel? rule.1
  let (position, graph) := graph.pushVertex (.rule label rule.1)
  let graph := match previous with
    | some last => graph.pushEdge ⟨last, position, .next⟩
    | none => graph
  let (graph, around) ← rule.2.targets.foldlM (fun (graph, around) (transfer, target) =>
    rs.walkTarget? inner graph position target transfer around) (graph, around)
  return ((graph, some position), around)

end Steps

/-- Walks through the rules of a chain, one after the other. At most `depth` chains are entered one
within the other. -/
def walkRules? : Nat → ChainId → Finset ChainId → Option (Graph × Finset ChainId)
  | 0, _, _ => none
  | depth + 1, c, around => do
    let rules ← rs.rulesOf? c
    let ((graph, _), around) ← rules.foldlM (rs.walkRule? (walkRules? depth))
      ((Graph.empty, none), around)
    return (graph, around)

/-- Adds the vertex of a built-in chain behind those that have their places. -/
def addBuiltin? (state : Graph × List Nat) (c : ChainId) : Option (Graph × List Nat) := do
  let (position, graph) ← rs.addChain? state.1 c false
  return (graph, state.2 ++ [position])

/-- Walks through the rules of the built-in chain at that place, if it has any, and goes on from there
to the next chain, if there is one. The places of all built-in chains are given. -/
def walkBuiltin? (heads : List Nat) (graph : Graph) (chainAt : ChainId × Nat) : Option Graph := do
  let head ← heads[chainAt.2]?
  let chain ← rs.chain? chainAt.1
  let (exit, graph) ← if chain.rules.isEmpty then pure (head, graph) else do
    let ((body, graph), _) ← rs.walkBody? (rs.walkRules? rs.chains.size) graph chainAt.1 {chainAt.1}
    pure (body, graph.pushEdge ⟨head, body, .rules⟩)
  match heads[chainAt.2 + 1]? with
  | some next => return graph.pushEdge ⟨exit, next, .next⟩
  | none => return graph

/-- Walks through the built-in chains, once all of them have their vertices. -/
def walk? (origin : Origin) : Option Graph := do
  let flow := rs.builtinChains origin
  let (graph, heads) ← flow.foldlM rs.addBuiltin? (Graph.empty, [])
  flow.zipIdx.foldlM (rs.walkBuiltin? heads) graph

end Ruleset

/-- A fold of steps that are told by what each of them reads is told by what all of them read. -/
theorem foldlM_eq_map {α β γ δ : Type} (embed : δ → β) (add : δ → γ → δ) {step : β → α → Option β}
    {f : α → Option γ} {xs : List α}
    (hStep : ∀ a ∈ xs, ∀ d, step (embed d) a = (f a).map fun c => embed (add d c)) (d : δ) :
    xs.foldlM step (embed d) = (xs.mapM f).map fun cs => embed (cs.foldl add d) := by
  induction xs generalizing d with
  | nil => rfl
  | cons a xs ih =>
      obtain ⟨hHead, hTail⟩ := List.forall_mem_cons.1 hStep
      rw [List.foldlM_cons, List.mapM_cons, hHead]
      cases f a with
      | none => rfl
      | some c =>
          simp only [Option.map_some, Option.bind_eq_bind, Option.bind_some, ih hTail]
          cases xs.mapM f <;> rfl

/-- Reading in pairs is reading the one half and then the other. -/
theorem mapM_eq_map_zip {α β γ δ : Type} {f : α → Option β} {g : α → Option γ} {both : α → Option δ}
    {pair : β → γ → δ} {xs : List α}
    (hBoth : ∀ a ∈ xs, both a = (f a).bind fun y => (g a).map (pair y)) :
    xs.mapM both = (xs.mapM f).bind fun ys => (xs.mapM g).map fun zs =>
      (ys.zip zs).map fun halves => pair halves.1 halves.2 := by
  induction xs with
  | nil => rfl
  | cons a xs ih =>
      obtain ⟨hHead, hTail⟩ := List.forall_mem_cons.1 hBoth
      simp only [List.mapM_cons, hHead, ih hTail, Option.bind_eq_bind]
      cases f a <;> cases g a <;> cases xs.mapM f <;> cases xs.mapM g <;> rfl

theorem mapM_zipIdx {α β : Type} (f : α → Option β) (xs : List α) (start : Nat) :
    ((xs.zipIdx start).mapM fun a => (f a.1).map (·, a.2)) = (xs.mapM f).map (·.zipIdx start) := by
  induction xs generalizing start with
  | nil => rfl
  | cons a xs ih =>
      simp only [List.zipIdx_cons, List.mapM_cons, ih, Option.bind_eq_bind]
      cases f a <;> cases xs.mapM f <;> rfl

namespace Graph

/-- Adds vertices and edges in the last places. -/
def extend (g : Graph) (vertices : List Vertex) (edges : List Edge) : Graph :=
  ⟨g.vertices ++ vertices, g.edges ++ edges⟩

variable (g : Graph)

theorem pushVertex_eq (v : Vertex) : g.pushVertex v = (g.vertices.length, g.extend [v] []) := by
  simp [pushVertex, extend]

theorem pushEdge_eq (e : Edge) : g.pushEdge e = g.extend [] [e] := by
  simp [pushEdge, extend]

theorem extend_nil : g.extend [] [] = g := by
  simp [extend]

theorem extend_extend (vs ws : List Vertex) (es fs : List Edge) :
    (g.extend vs es).extend ws fs = g.extend (vs ++ ws) (es ++ fs) := by
  simp [extend]

theorem length_vertices_extend (vs : List Vertex) (es : List Edge) :
    (g.extend vs es).vertices.length = g.vertices.length + vs.length := by
  simp [extend]

end Graph

namespace Stop

/-- The graph with a visit that the rule at that place makes. -/
def addVisit (rule : Nat) (g : Graph) (target : Transfer × Visit) : Graph :=
  g.extend target.2.vertices
    (⟨rule, g.vertices.length, .transfer target.1⟩ :: target.2.edges g.vertices.length)

theorem foldl_addVisit (rule : Nat) (g : Graph) (visits : List (Transfer × Visit)) :
    visits.foldl (addVisit rule) g = g.extend (visits.flatMap fun (_, visit) => visit.vertices)
      (transferEdges rule g.vertices.length visits) := by
  induction visits generalizing g with
  | nil => exact g.extend_nil.symm
  | cons target visits ih =>
      obtain ⟨transfer, visit⟩ := target
      rw [List.foldl_cons, ih, addVisit, Graph.extend_extend, Graph.length_vertices_extend]
      rfl

/-- The graph with a stop behind the stop whose rule is at that place, and the place of its own rule. -/
def add (state : Graph × Option Nat) (stop : Stop) : Graph × Option Nat :=
  (state.1.extend stop.vertices
      (state.2.toList.map (⟨·, state.1.vertices.length, .next⟩) ++ stop.edges state.1.vertices.length),
    some state.1.vertices.length)

theorem fst_foldl_add (g : Graph) (previous : Option Nat) (stops : List Stop) :
    (stops.foldl add (g, previous)).1 =
      g.extend (stops.flatMap vertices) (levelEdges previous g.vertices.length stops) := by
  induction stops generalizing g previous with
  | nil => exact g.extend_nil.symm
  | cons stop stops ih =>
      rw [List.foldl_cons, add, ih, Graph.extend_extend, Graph.length_vertices_extend]
      rfl

end Stop

namespace Ruleset

variable {rs : Ruleset} {path : List ChainId}

theorem addChain?_eq (graph : Graph) (c : ChainId) (truncated : Bool) :
    rs.addChain? graph c truncated =
      (rs.chainLabel? c).bind fun label => (rs.chain? c).map fun chain =>
        (graph.vertices.length, graph.extend [.chain label c chain.isExtension truncated] []) := by
  simp only [addChain?, Graph.pushVertex_eq, Option.map_eq_bind]
  rfl

/-- A walk through the rules of a chain makes of them what a visit has within it, and leaves the set as
it was. -/
def Walks (rs : Ruleset) (inner : ChainId → Finset ChainId → Option (Graph × Finset ChainId))
    (path : List ChainId) (c : ChainId) : Prop :=
  inner c path.toFinset = (rs.innerGraph? path c).map (·, path.toFinset)

section Steps

variable {inner : ChainId → Finset ChainId → Option (Graph × Finset ChainId)}
  (hInner : ∀ target ∉ path, ∀ chain, rs.chain? target = some chain →
    rs.Walks inner (target :: path) target)

include hInner

/-- The walk comes to a chain as a visit does, and leaves the set as it was. -/
theorem walkTarget?_eq (graph : Graph) (source : Nat) (target : ChainId) (transfer : Transfer) :
    rs.walkTarget? inner graph source target transfer path.toFinset =
      (rs.visit? path target).map fun visit =>
        (Stop.addVisit source graph (transfer, visit), path.toFinset) := by
  have hMet : decide (target ∈ path.toFinset) = path.contains target := by
    simp [List.contains_eq_mem]
  rw [walkTarget?, visit?_eq, hMet]
  cases hChain : rs.chain? target with
  | none => simp
  | some chain =>
      cases hLabel : rs.chainLabel? target with
      | none => simp [addChain?_eq, hLabel]
      | some label =>
          simp only [addChain?_eq, hLabel, hChain, Option.bind_eq_bind, Option.bind_some,
            Option.map_some, Graph.pushEdge_eq, Graph.extend_extend]
          split
          next hClosed => simp [Stop.addVisit, Visit.vertices, Visit.edges]
          next hOpen =>
            -- What goes into the set was not in it, so that the set is the same once it is taken out.
            have hOutside : target ∉ path := by simp_all
            have hWalks := hInner target hOutside chain hChain
            rw [Walks, List.toFinset_cons] at hWalks
            rw [walkBody?, hWalks]
            cases rs.innerGraph? (target :: path) target with
            | none => simp
            | some rules =>
                simp [hLabel, hOutside, Graph.pushVertex_eq, Graph.extend_extend,
                  Graph.length_vertices_extend, Stop.addVisit, Visit.vertices, Visit.edges]

/-- The walk comes to a rule as a stop does, and leaves the set as it was. -/
theorem walkRule?_eq (state : Graph × Option Nat) (rule : RuleId × Rule) :
    rs.walkRule? inner (state, path.toFinset) rule =
      (rs.stop? path rule).map fun stop => (Stop.add state stop, path.toFinset) := by
  have hTargets (position : Nat) (graph : Graph) :
      rule.2.targets.foldlM (fun (state : Graph × Finset ChainId) target =>
          rs.walkTarget? inner state.1 position target.2 target.1 state.2) (graph, path.toFinset) =
        (rule.2.targets.mapM fun target => (rs.visit? path target.2).map (target.1, ·)).map
          fun visits => (visits.foldl (Stop.addVisit position) graph, path.toFinset) := by
    refine foldlM_eq_map (·, path.toFinset) _ (fun target _ graph => ?_) graph
    rw [walkTarget?_eq hInner, Option.map_map]
    rfl
  obtain ⟨graph, previous⟩ := state
  rw [walkRule?, stop?_eq]
  cases rs.ruleLabel? rule.1 with
  | none => rfl
  | some label =>
      simp only [Option.bind_eq_bind, Option.bind_some, hTargets]
      cases rule.2.targets.mapM fun target => (rs.visit? path target.2).map (target.1, ·) with
      | none => rfl
      | some visits =>
          simp only [Option.map_some, Option.bind_some, Stop.foldl_addVisit]
          cases previous <;>
            simp [Stop.add, Stop.vertices, Stop.edges, Graph.pushVertex_eq, Graph.pushEdge_eq,
              Graph.extend_extend, Graph.length_vertices_extend]

end Steps

/-- Whatever lies within the rules of a chain, the walk through them ends with the set that it began
with. Since a chain that is entered joins the path, the depth is never used up where it is more than the
number of chains off the path. -/
theorem walks {depth : Nat} (hDepth : rs.offPath path < depth) (c : ChainId) :
    rs.Walks (rs.walkRules? depth) path c := by
  induction depth generalizing path c with
  | zero => exact absurd hDepth (Nat.not_lt_zero _)
  | succ depth ih =>
      have hInner (target : ChainId) (hPath : target ∉ path) (chain : Chain)
          (hChain : rs.chain? target = some chain) :
          rs.Walks (rs.walkRules? depth) (target :: path) target := by
        have hLess := offPath_cons_lt hChain hPath
        exact ih (by omega) target
      rw [Walks, walkRules?, innerGraph?_eq]
      cases rs.rulesOf? c with
      | none => rfl
      | some rules =>
          have hStops := foldlM_eq_map (·, path.toFinset) Stop.add
            (fun rule (_ : rule ∈ rules) state => walkRule?_eq hInner state rule)
            (Graph.empty, none)
          simp only [Option.bind_eq_bind, Option.bind_some, hStops]
          cases rules.mapM (rs.stop? path) with
          | none => rfl
          | some stops => simp [Stop.fst_foldl_add, Stop.level, Graph.extend, Graph.empty]

/-- No more chains are entered one within the other than there are. -/
theorem walks_singleton {c : ChainId} {chain : Chain} (hChain : rs.chain? c = some chain) :
    rs.walkRules? rs.chains.size c {c} = (rs.innerGraph? [c] c).map (·, {c}) := by
  have hAll : rs.offPath [] = rs.chains.size := by simp [offPath]
  have hLess := offPath_cons_lt hChain List.not_mem_nil
  rw [hAll] at hLess
  simpa [Walks] using walks hLess c

end Ruleset

namespace Visit

/-- The graph with the vertex of one more chain, and the places of the chains. -/
def addHead (state : Graph × List Nat) (head : Vertex) : Graph × List Nat :=
  (state.1.extend [head] [], state.2 ++ [state.1.vertices.length])

theorem foldl_addHead (g : Graph) (places : List Nat) (heads : List Vertex) :
    heads.foldl addHead (g, places) =
      (g.extend heads [], places ++ List.range' g.vertices.length heads.length) := by
  induction heads generalizing g places with
  | nil => simp [Graph.extend_nil]
  | cons head heads ih =>
      simp [addHead, ih, Graph.extend_extend, Graph.length_vertices_extend, List.range'_succ]

/-- The graph with the rules of the chain at that place, if the chain has any. The chain is followed by
another one unless it is the last. -/
def addBody (count : Nat) (g : Graph) (body : Option Vertex × Nat) : Graph :=
  g.extend body.1.toList
    ((body.1.toList.map fun _ => ⟨body.2, g.vertices.length, .rules⟩) ++
      if body.2 + 1 < count then
        [⟨if body.1.isSome then g.vertices.length else body.2, body.2 + 1, .next⟩]
      else [])

theorem foldl_addBody (g : Graph) (place : Nat) (visits : List Visit) :
    ((visits.map body).zipIdx place).foldl (addBody (place + visits.length)) g =
      g.extend (visits.filterMap body) (levelEdges place g.vertices.length visits) := by
  induction visits generalizing g place with
  | nil => exact g.extend_nil.symm
  | cons visit visits ih =>
      have hCount : place + (visit :: visits).length = place + 1 + visits.length := by
        rw [List.length_cons, Nat.add_assoc, Nat.add_comm 1]
      rw [List.map_cons, List.zipIdx_cons, List.foldl_cons, hCount, ih, addBody, Graph.extend_extend,
        Graph.length_vertices_extend, levelEdges, List.filterMap_cons]
      cases visit.body <;> cases visits <;> simp

theorem foldl_addBody_eq_level {heads : List Vertex} {bodies : List (Option Vertex)}
    (hLength : heads.length = bodies.length) :
    bodies.zipIdx.foldl (addBody heads.length) ⟨heads, []⟩ =
      level ((heads.zip bodies).map fun halves => ⟨halves.1, halves.2⟩) := by
  generalize hVisits : (heads.zip bodies).map (fun halves => Visit.mk halves.1 halves.2) = visits
  have hHeads : visits.map head = heads := by
    rw [← hVisits, List.map_map]
    exact List.map_fst_zip (Nat.le_of_eq hLength)
  have hBodies : visits.map body = bodies := by
    rw [← hVisits, List.map_map]
    exact List.map_snd_zip (Nat.le_of_eq hLength.symm)
  have hCount : visits.length = heads.length := by rw [← hHeads, List.length_map]
  have hFold := foldl_addBody ⟨heads, []⟩ 0 visits
  rw [hBodies, Nat.zero_add, hCount] at hFold
  rw [hFold, level, hHeads, hCount]
  rfl

end Visit

namespace Ruleset

variable {rs : Ruleset}

/-- The vertex of a built-in chain. -/
def builtinHead? (rs : Ruleset) (c : ChainId) : Option Vertex := do
  let label ← rs.chainLabel? c
  let chain ← rs.chain? c
  return .chain label c chain.isExtension false

/-- The vertex that holds the rules of a built-in chain, if the chain has any. -/
def builtinBody? (rs : Ruleset) (c : ChainId) : Option (Option Vertex) := do
  let chain ← rs.chain? c
  if chain.rules.isEmpty then return none else
    let inner ← rs.innerGraph? [c] c
    let label ← rs.chainLabel? c
    return some (.rules s!"rules: {label}" c inner)

theorem visit?_nil {c : ChainId} (hDeclared : ¬rs.IsExtension c) :
    rs.visit? [] c =
      (rs.builtinHead? c).bind fun head => (rs.builtinBody? c).map fun body => ⟨head, body⟩ := by
  rw [visit?_eq, builtinHead?, builtinBody?]
  cases hLabel : rs.chainLabel? c with
  | none => rfl
  | some label =>
      cases hChain : rs.chain? c with
      | none => rfl
      | some chain =>
          have hDeclared : chain.isExtension = false := by simpa [IsExtension, hChain] using hDeclared
          by_cases hRules : chain.rules = []
          · simp [hDeclared, hRules]
          · cases hInner : rs.innerGraph? [c] c <;> simp [hDeclared, hRules]

theorem addBuiltin?_eq (state : Graph × List Nat) (c : ChainId) :
    rs.addBuiltin? state c = (rs.builtinHead? c).map (Visit.addHead state) := by
  rw [addBuiltin?, addChain?_eq, builtinHead?]
  cases rs.chainLabel? c <;> cases rs.chain? c <;> rfl

theorem walkBuiltin?_eq {count : Nat} {chainAt : ChainId × Nat} (hPlace : chainAt.2 < count)
    (graph : Graph) :
    rs.walkBuiltin? (List.range count) graph chainAt =
      ((rs.builtinBody? chainAt.1).map (·, chainAt.2)).map (Visit.addBody count graph) := by
  obtain ⟨c, place⟩ := chainAt
  have hNext : (List.range count)[place + 1]? =
      if place + 1 < count then some (place + 1) else none := by
    split
    next hLess => exact List.getElem?_range hLess
    next hLast => exact List.getElem?_eq_none (by rw [List.length_range]; omega)
  rw [walkBuiltin?, builtinBody?, List.getElem?_range hPlace, hNext, walkBody?]
  cases hChain : rs.chain? c with
  | none => rfl
  | some chain =>
      by_cases hRules : chain.rules = []
      · by_cases hLess : place + 1 < count <;>
          simp [hLess, hRules, Visit.addBody, Graph.pushEdge_eq, Graph.extend_nil]
      · rw [walks_singleton hChain]
        cases rs.innerGraph? [c] c with
        | none => simp [hRules]
        | some rules =>
            cases rs.chainLabel? c with
            | none => simp [hRules]
            | some label =>
                by_cases hLess : place + 1 < count <;>
                  simp [hLess, hRules, Visit.addBody, Graph.pushVertex_eq, Graph.pushEdge_eq,
                    Graph.extend_extend]

theorem foldlM_addBuiltin? (flow : List ChainId) :
    flow.foldlM rs.addBuiltin? (Graph.empty, []) =
      (flow.mapM rs.builtinHead?).map fun heads => (⟨heads, []⟩, List.range heads.length) := by
  have hFold := foldlM_eq_map id Visit.addHead
    (fun c (_ : c ∈ flow) state => rs.addBuiltin?_eq state c) (Graph.empty, [])
  simpa [Visit.foldl_addHead, Graph.extend, Graph.empty, List.range_eq_range'] using hFold

theorem foldlM_walkBuiltin? {flow : List ChainId} {count : Nat} (hLength : flow.length = count)
    (graph : Graph) :
    flow.zipIdx.foldlM (rs.walkBuiltin? (List.range count)) graph =
      (flow.mapM rs.builtinBody?).map fun bodies =>
        bodies.zipIdx.foldl (Visit.addBody count) graph := by
  have hPlace (chainAt : ChainId × Nat) (hMem : chainAt ∈ flow.zipIdx) : chainAt.2 < count := by
    have := List.snd_lt_of_mem_zipIdx hMem
    omega
  have hFold := foldlM_eq_map id (Visit.addBody count)
    (fun chainAt hMem graph => rs.walkBuiltin?_eq (hPlace chainAt hMem) graph) graph
  rw [mapM_zipIdx, Option.map_map] at hFold
  exact hFold

/-- The walk through all built-in chains makes the graph of all ways. -/
theorem Consistent.walk?_eq (h : rs.Consistent) (origin : Origin) :
    rs.walk? origin = rs.traversal? origin := by
  have hVisits := mapM_eq_map_zip fun c (hMem : c ∈ rs.builtinChains origin) =>
    visit?_nil (h.not_isExtension_of_mem_builtinChains hMem)
  rw [walk?, traversal?, hVisits]
  generalize rs.builtinChains origin = flow
  rw [foldlM_addBuiltin?]
  cases hHeads : flow.mapM rs.builtinHead? with
  | none => rfl
  | some heads =>
      have hLength := (mapM_eq_some_iff.1 hHeads).length_eq
      simp only [Option.map_some, Option.bind_eq_bind, Option.bind_some, foldlM_walkBuiltin? hLength]
      cases hBodies : flow.mapM rs.builtinBody? with
      | none => rfl
      | some bodies =>
          have hLength' := (mapM_eq_some_iff.1 hBodies).length_eq
          exact congrArg some (Visit.foldl_addBody_eq_level (hLength.symm.trans hLength'))

end Ruleset

end PacketFlow
