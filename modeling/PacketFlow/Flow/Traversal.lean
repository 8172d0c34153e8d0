import PacketFlow.Flow.Graph
import PacketFlow.Flow.Origin
import PacketFlow.Ruleset.Label

/-!
All ways that a packet of a given origin can take. It comes to the built-in chains of its hooks one
after the other. Whether a rule matches is not asked: every rule that can send the packet elsewhere
may do so, and the rules of the chain it is sent to are shown in their place, once for each way of
getting there. A chain that is met again within its own rules is shown as a mere name, so that every
way is shown up to its first repetition, and the showing ends whatever the rules are.
-/
namespace PacketFlow

/-- The built-in chains that a packet comes to, in order. A table that does not declare the chain of
a hook is passed over there. -/
def Ruleset.builtinChains (rs : Ruleset) (origin : Origin) : List ChainId :=
  origin.hooks.flatMap fun hook =>
    hook.tables.filterMap fun name => do
      let table ← rs.tableNamed? name
      rs.chainNamed? table hook.name

/-- The coming of a packet to a chain: the vertex of the chain, and the vertex that holds its rules
where these are shown. -/
structure Visit where
  head : Vertex
  body : Option Vertex

/-- A rule that a packet comes to, and the chains that the rule can hand it to. -/
structure Stop where
  rule : Vertex
  visits : List (Transfer × Visit)

namespace Visit

/-- The vertices of a visit. -/
def vertices (v : Visit) : List Vertex :=
  v.head :: v.body.toList

/-- The edge of a visit into the chain's rules, if the chain's vertex stands at that position. -/
def edges (v : Visit) (position : Nat) : List Edge :=
  v.body.toList.map fun _ => ⟨position, position + 1, .rules⟩

end Visit

namespace Stop

/-- The vertices of a stop, the rule's own in front. -/
def vertices (s : Stop) : List Vertex :=
  s.rule :: s.visits.flatMap fun (_, visit) => visit.vertices

/-- The edges from a rule to the chains it hands a packet to, and from those into their rules. The
first of these chains stands at `position`. -/
def transferEdges (rule : Nat) : Nat → List (Transfer × Visit) → List Edge
  | _, [] => []
  | position, (transfer, visit) :: rest =>
    ⟨rule, position, .transfer transfer⟩ :: visit.edges position ++
      transferEdges rule (position + visit.vertices.length) rest

/-- The edges of a stop whose rule stands at that position. -/
def edges (s : Stop) (position : Nat) : List Edge :=
  transferEdges position (position + 1) s.visits

/-- The edges of stops one after the other: a packet goes on from each rule to the next. The first
stop begins at `position`, and `previous` is where the rule before it stands. -/
def levelEdges : (previous : Option Nat) → (position : Nat) → List Stop → List Edge
  | _, _, [] => []
  | previous, position, stop :: rest =>
    previous.toList.map (⟨·, position, .next⟩) ++ stop.edges position ++
      levelEdges (some position) (position + stop.vertices.length) rest

/-- The graph that the rules of a chain form. -/
def level (stops : List Stop) : Graph where
  vertices := stops.flatMap vertices
  edges := levelEdges none 0 stops

end Stop

namespace Visit

/-- The edges between visits one after the other. A packet leaves a chain from its rules, or from
the chain itself if it has none. The chain of the first visit stands at `head`, the rules of the
first visit that has any at `body`. -/
def levelEdges : (head body : Nat) → List Visit → List Edge
  | _, _, [] => []
  | head, body, visit :: rest =>
    let into : List Edge := visit.body.toList.map fun _ => ⟨head, body, .rules⟩
    let exit := if visit.body.isSome then body else head
    let onward : List Edge := if rest.isEmpty then [] else [⟨exit, head + 1, .next⟩]
    into ++ onward ++ levelEdges (head + 1) (body + visit.body.toList.length) rest

/-- The graph of visits one after the other: first all chains, then the rules of those that have
any. -/
def level (visits : List Visit) : Graph where
  vertices := visits.map head ++ visits.filterMap body
  edges := levelEdges 0 visits.length visits

end Visit

namespace Ruleset

/-- How many chains are not on a path. -/
def offPath (rs : Ruleset) (path : List ChainId) : Nat :=
  (List.range rs.chains.size).countP fun index => ⟨index⟩ ∉ path

/-- A path that is extended by a chain leaves fewer chains off it. -/
theorem offPath_cons_lt {rs : Ruleset} {path : List ChainId} {id : ChainId} {chain : Chain}
    (hChain : rs.chain? id = some chain) (hPath : id ∉ path) :
    rs.offPath (id :: path) < rs.offPath path := by
  have hIndex := lt_of_chain?_eq_some hChain
  unfold offPath
  generalize rs.chains.size = count at hIndex
  have hLess : (List.range count).countP (fun index => ⟨index⟩ ∉ id :: path) + 1 ≤
      (List.range count).countP (fun index => ⟨index⟩ ∉ path) := by
    induction count with
    | zero => omega
    | succ count ih =>
      rw [List.range_succ, List.countP_append, List.countP_append]
      by_cases hLast : id.index = count
      · have hSame : id = ⟨count⟩ := by rw [← hLast]
        have hLe : (List.range count).countP (fun index => ⟨index⟩ ∉ id :: path) ≤
            (List.range count).countP (fun index => ⟨index⟩ ∉ path) :=
          List.countP_mono_left fun index _ => by simp_all
        subst hSame
        simpa [List.countP_singleton, hPath] using hLe
      · have hLe := ih (by omega)
        have hOther : (⟨count⟩ : ChainId) ≠ id := fun h => hLast (by rw [← h])
        have hStep : [count].countP (fun index => ⟨index⟩ ∉ id :: path) =
            [count].countP (fun index => (⟨index⟩ : ChainId) ∉ path) := by
          simp [List.countP_singleton, hOther]
        omega
  omega

mutual

/-- Comes to a chain, with the chains on `path` being shown around it. There is no answer if the
rules refer to something that does not exist. -/
def visit? (rs : Ruleset) (path : List ChainId) (id : ChainId) : Option Visit := do
  let label ← rs.chainLabel? id
  match _ : rs.chain? id with
  | none => none
  | some chain =>
    let head := Vertex.chain label id chain.isExtension (path.contains id)
    if _ : chain.isExtension || path.contains id || chain.rules.isEmpty then
      return ⟨head, none⟩
    else
      let inner ← rs.innerGraph? (id :: path) id
      return ⟨head, some (.rules s!"rules: {label}" id inner)⟩
termination_by (rs.offPath path, 0)
decreasing_by
  apply Prod.Lex.left
  exact offPath_cons_lt ‹_› (by simp_all)

/-- The graph of a chain's rules, with the chains on `path` being shown around it, this one
included. -/
def innerGraph? (rs : Ruleset) (path : List ChainId) (id : ChainId) : Option Graph := do
  let rules ← rs.rulesOf? id
  let stops ← rules.mapM fun (ruleId, rule) => do
    let label ← rs.ruleLabel? ruleId
    let visits ← rule.targets.mapM fun (transfer, target) => do
      let visit ← rs.visit? path target
      return (transfer, visit)
    return (⟨.rule label ruleId, visits⟩ : Stop)
  return Stop.level stops
termination_by (rs.offPath path, 1)
decreasing_by
  apply Prod.Lex.right
  exact Nat.one_pos

end

/-- The graph of all ways of a packet. There is no answer if the rules on these ways refer to
something that does not exist. -/
def traversal? (rs : Ruleset) (origin : Origin) : Option Graph := do
  let visits ← (rs.builtinChains origin).mapM (rs.visit? [])
  return Visit.level visits

end Ruleset

end PacketFlow
