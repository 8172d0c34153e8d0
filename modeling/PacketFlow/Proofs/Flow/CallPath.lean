import Mathlib.Logic.Equiv.Basic
import PacketFlow.Proofs.Flow.Way

/-!
The call paths of a packet. A call path starts at a built-in chain and goes on by calls from chain to
chain, without coming to a chain twice. The graph shows the rules of a chain once for every call path
that ends at the chain, inside what it shows for the path without its last call.
-/
namespace PacketFlow

namespace Ruleset

variable {rs : Ruleset} {origin : Origin}

/-- Calls one after the other, each made by a rule of the chain that the one before leads to. The
first is made by a rule of `c`. -/
def Linked (rs : Ruleset) : (c : ChainId) → List Call → Prop
  | _, [] => True
  | c, call :: rest => rs.Calls c call ∧ rs.Linked call.target rest

instance decidableLinked (rs : Ruleset) : (c : ChainId) → (calls : List Call) →
    Decidable (rs.Linked c calls)
  | _, [] => isTrue trivial
  | c, call :: rest =>
    have := rs.decidableLinked call.target rest
    inferInstanceAs (Decidable (rs.Calls c call ∧ rs.Linked call.target rest))

/-- A sequence of calls from a built-in chain on. Its chains are distinct and all have rules, and no
call leads to an extension target. -/
@[ext]
structure CallPath (rs : Ruleset) (origin : Origin) where
  start : ChainId
  calls : List Call
  start_mem : start ∈ rs.builtinChains origin
  linked : rs.Linked start calls
  nodup : (start :: calls.map Call.target).Nodup
  hasRules : ∀ c ∈ start :: calls.map Call.target, rs.HasRules c
  not_isExtension : ∀ call ∈ calls, ¬rs.IsExtension call.target

/-- The calls as steps of a way inwards. -/
def callSteps (calls : List Call) : Way :=
  calls.map fun call => (some (call.rule, call.transfer), call.target)

theorem linked_append {c : ChainId} {first second : List Call}
    (hLinked : rs.Linked c (first ++ second)) : rs.Linked c first := by
  induction first generalizing c with
  | nil => trivial
  | cons call first ih => exact ⟨hLinked.1, ih hLinked.2⟩

theorem callSteps_injective : Function.Injective callSteps := by
  refine List.map_injective_iff.2 ?_
  rintro ⟨r, transfer, c⟩ ⟨r', transfer', c'⟩ hSame
  simpa [and_assoc] using hSame

/-- Calls open a way exactly if they are linked, lead to chains that have rules and are no extension
targets, and come to no chain twice. -/
theorem opens_callSteps {c : ChainId} {path : List ChainId} {calls : List Call} :
    rs.Opens origin (c :: path) (callSteps calls) ↔
      rs.Linked c calls ∧ (calls.map Call.target).Nodup ∧
        ∀ call ∈ calls, rs.HasRules call.target ∧ ¬rs.IsExtension call.target ∧
          call.target ∉ c :: path := by
  induction calls generalizing c path with
  | nil => simp [callSteps, Opens, Linked]
  | cons call calls ih =>
      have hStep : rs.Opens origin (c :: path) (callSteps (call :: calls)) ↔
          (rs.Calls c call ∧ rs.Expands (c :: path) call.target) ∧
            rs.Opens origin (call.target :: c :: path) (callSteps calls) := Iff.rfl
      rw [hStep, ih, expands_iff, Linked, List.map_cons, List.nodup_cons, List.forall_mem_cons]
      constructor
      · rintro ⟨⟨hCall, hFirst⟩, hLinked, hNodup, hRest⟩
        refine ⟨⟨hCall, hLinked⟩, ⟨?_, hNodup⟩, hFirst, fun other hMem => ?_⟩
        · rw [List.mem_map]
          rintro ⟨other, hMem, hSame⟩
          exact (hRest other hMem).2.2 (hSame ▸ List.mem_cons_self ..)
        · obtain ⟨hRules, hTable, hFresh⟩ := hRest other hMem
          exact ⟨hRules, hTable, fun hPath => hFresh (List.mem_cons_of_mem _ hPath)⟩
      · rintro ⟨⟨hCall, hLinked⟩, ⟨hNew, hNodup⟩, hFirst, hRest⟩
        refine ⟨⟨hCall, hFirst⟩, hLinked, hNodup, fun other hMem => ?_⟩
        obtain ⟨hRules, hTable, hFresh⟩ := hRest other hMem
        refine ⟨hRules, hTable, fun hPath => ?_⟩
        rcases List.mem_cons.1 hPath with hSame | hPath
        · exact hNew (hSame ▸ List.mem_map_of_mem hMem)
        · exact hFresh hPath

/-- Behind the outermost level every step of an open way is a call. -/
theorem exists_callSteps_of_opens {c : ChainId} {path : List ChainId} {way : Way}
    (hOpens : rs.Opens origin (c :: path) way) : ∃ calls, way = callSteps calls := by
  induction way generalizing c path with
  | nil => exact ⟨[], rfl⟩
  | cons step way ih =>
      obtain ⟨_ | ⟨r, transfer⟩, d⟩ := step
      · exact hOpens.1.1.elim
      · obtain ⟨calls, rfl⟩ := ih hOpens.2
        exact ⟨⟨r, transfer, d⟩ :: calls, rfl⟩

namespace CallPath

/-- The chain that the path ends at. -/
def last (p : rs.CallPath origin) : ChainId :=
  ((p.calls.getLast?).map Call.target).getD p.start

/-- The path without its last call. A path without calls is left as it is. -/
def caller (p : rs.CallPath origin) : rs.CallPath origin where
  start := p.start
  calls := p.calls.dropLast
  start_mem := p.start_mem
  linked := by
    obtain ⟨rest, hCalls⟩ := p.calls.dropLast_prefix
    exact linked_append (hCalls.symm ▸ p.linked)
  nodup := p.nodup.sublist ((p.calls.dropLast_sublist.map _).cons_cons _)
  hasRules c hMem := p.hasRules c (((p.calls.dropLast_sublist.map _).cons_cons _).subset hMem)
  not_isExtension call hMem := p.not_isExtension call (p.calls.dropLast_subset hMem)

/-- The path as a way inwards. -/
def way (p : rs.CallPath origin) : Way :=
  (none, p.start) :: callSteps p.calls

theorem way_injective : Function.Injective (way : rs.CallPath origin → Way) := by
  intro p q hSame
  obtain ⟨hStart, hCalls⟩ := List.cons.inj hSame
  exact CallPath.ext (congrArg Prod.snd hStart) (callSteps_injective hCalls)

theorem opens_way (h : rs.Consistent) (p : rs.CallPath origin) : rs.Opens origin [] p.way := by
  have hStart := h.not_isExtension_of_mem_builtinChains p.start_mem
  have hExpands := expands_iff.2 ⟨p.hasRules _ (List.mem_cons_self ..), hStart, List.not_mem_nil⟩
  obtain ⟨hNew, hNodup⟩ := List.nodup_cons.1 p.nodup
  refine ⟨⟨p.start_mem, hExpands⟩, opens_callSteps.2 ⟨p.linked, hNodup, fun call hMem => ?_⟩⟩
  have hTarget := List.mem_map_of_mem (f := Call.target) hMem
  refine ⟨p.hasRules _ (List.mem_cons_of_mem _ hTarget), p.not_isExtension call hMem, ?_⟩
  rw [List.mem_singleton]
  exact fun hSame => hNew (hSame ▸ hTarget)

theorem exists_way_eq {way : Way} (hOpens : rs.Opens origin [] way) (hSome : way ≠ []) :
    ∃ p : rs.CallPath origin, p.way = way := by
  obtain _ | ⟨⟨_ | ⟨r, transfer⟩, c⟩, rest⟩ := way
  · exact absurd rfl hSome
  · obtain ⟨⟨hStart, hExpands⟩, hRest⟩ := hOpens
    obtain ⟨calls, rfl⟩ := exists_callSteps_of_opens hRest
    obtain ⟨hLinked, hNodup, hTargets⟩ := opens_callSteps.1 hRest
    refine ⟨⟨c, calls, hStart, hLinked, List.nodup_cons.2 ⟨?_, hNodup⟩,
      List.forall_mem_cons.2 ⟨(expands_iff.1 hExpands).1, ?_⟩, fun call hMem =>
      (hTargets call hMem).2.1⟩, rfl⟩
    · rw [List.mem_map]
      rintro ⟨call, hMem, hSame⟩
      exact (hTargets call hMem).2.2 (hSame ▸ List.mem_cons_self ..)
    · rw [List.forall_mem_map]
      exact fun call hMem => (hTargets call hMem).1
  · exact hOpens.1.1.elim

/-- The way of a path enters the last chain of the path at its last step. -/
theorem exists_way_eq_concat (p : rs.CallPath origin) :
    ∃ outer approach, p.way = outer ++ [(approach, p.last)] := by
  obtain hCalls | ⟨calls, call, hCalls⟩ := p.calls.eq_nil_or_concat
  · exact ⟨[], none, by simp [way, last, callSteps, hCalls]⟩
  · refine ⟨(none, p.start) :: callSteps calls, some (call.rule, call.transfer), ?_⟩
    simp [way, last, callSteps, hCalls]

/-- A path with calls goes one step further than the path without the last of them. -/
theorem exists_way_eq_append (p : rs.CallPath origin) (hCalls : p.calls ≠ []) :
    ∃ step, p.way = p.caller.way ++ [step] := by
  refine ⟨(some ((p.calls.getLast hCalls).rule, (p.calls.getLast hCalls).transfer),
    (p.calls.getLast hCalls).target), ?_⟩
  conv_lhs => rw [way, ← List.dropLast_append_getLast hCalls]
  simp [way, caller, callSteps]

/-- The place that the path leads to. -/
def place (p : rs.CallPath origin) : List Nat :=
  rs.placeFrom origin [] p.way

theorem length_place (p : rs.CallPath origin) : p.place.length = p.calls.length + 1 := by
  rw [place, length_placeFrom]
  simp [way, callSteps]

theorem place_dropLast (p : rs.CallPath origin) (hCalls : p.calls ≠ []) :
    p.place.dropLast = p.caller.place := by
  obtain ⟨⟨approach, c⟩, hWay⟩ := p.exists_way_eq_append hCalls
  rw [place, hWay, placeFrom_append, placeFrom, placeFrom, List.dropLast_concat, place]

variable {g : Graph}

theorem rulesAt?_place (h : rs.Consistent) (hGraph : rs.traversal? origin = some g)
    (p : rs.CallPath origin) : g.rulesAt? p.place = some p.last := by
  have hLevel : rs.level? origin [] = some g := hGraph
  obtain ⟨outer, approach, hWay⟩ := p.exists_way_eq_concat
  rw [place, hWay]
  exact h.rulesAt?_placeFrom hLevel (hWay ▸ p.opens_way h)

/-- Wherever rules are shown there is a path that leads to the place. -/
theorem exists_place_eq (h : rs.Consistent) (hGraph : rs.traversal? origin = some g)
    {place : List Nat} {c : ChainId} (hRules : g.rulesAt? place = some c) :
    ∃ p : rs.CallPath origin, p.place = place := by
  have hLevel : rs.level? origin [] = some g := hGraph
  obtain ⟨hSome, inner, hAt⟩ := Graph.exists_levelAt?_of_rulesAt? hRules
  obtain ⟨way, hOpens, -, rfl⟩ := h.exists_way_of_levelAt? hLevel hAt
  obtain ⟨p, rfl⟩ := exists_way_eq hOpens fun hNil => hSome (by rw [hNil]; rfl)
  exact ⟨p, rfl⟩

theorem place_injective (h : rs.Consistent) :
    Function.Injective (place : rs.CallPath origin → List Nat) := by
  intro p q hSame
  exact way_injective (h.placeFrom_inj (p.opens_way h) (q.opens_way h) hSame)

end CallPath

/-- The vertices that hold the rules of chains, over all levels, are one for each call path, however
the chains of the ruleset call each other. The vertex of a path holds the rules of the chain that the
path ends at. It lies on the outermost level if the path has no call, and otherwise directly inside
the vertex of the path without its last call. -/
theorem callPath_equiv_rulesAt (hBuilt : rs.Built) (hTargets : rs.TargetsExist) (origin : Origin) :
    ∃ g, rs.traversal? origin = some g ∧
      ∃ place : rs.CallPath origin ≃ {place : List Nat // (g.rulesAt? place).isSome},
        (∀ p, g.rulesAt? (place p) = some p.last) ∧
        (∀ p, p.calls = [] → (place p).val.length = 1) ∧
        ∀ p, p.calls ≠ [] → (place p).val.dropLast = (place p.caller).val := by
  have h := hBuilt.consistent
  obtain ⟨g, hGraph⟩ := h.exists_traversal? hTargets origin
  have hShown (p : rs.CallPath origin) := CallPath.rulesAt?_place h hGraph p
  refine ⟨g, hGraph, Equiv.ofBijective
    (fun p => ⟨p.place, Option.isSome_iff_exists.2 ⟨p.last, hShown p⟩⟩) ⟨?_, ?_⟩, hShown, ?_, ?_⟩
  · intro p q hSame
    exact CallPath.place_injective h (congrArg Subtype.val hSame)
  · rintro ⟨place, hPlace⟩
    obtain ⟨c, hRules⟩ := Option.isSome_iff_exists.1 hPlace
    obtain ⟨p, rfl⟩ := CallPath.exists_place_eq h hGraph hRules
    exact ⟨p, rfl⟩
  · intro p hCalls
    change p.place.length = 1
    rw [p.length_place, hCalls, List.length_nil]
  · intro p hCalls
    exact p.place_dropLast hCalls

/-- A table whose input chain jumps to two chains that jump to each other, one of them twice over. -/
def crossing : Ruleset :=
  build [.openTable "filter", .declareChain ⟨0⟩ "INPUT" "ACCEPT", .declareChain ⟨0⟩ "a" "-",
    .declareChain ⟨0⟩ "b" "-", .appendRule ⟨0⟩ { RuleBody.empty with jump := some ⟨1⟩ },
    .appendRule ⟨0⟩ { RuleBody.empty with jump := some ⟨2⟩ },
    .appendRule ⟨1⟩ { RuleBody.empty with jump := some ⟨2⟩, goto := some ⟨2⟩ },
    .appendRule ⟨2⟩ { RuleBody.empty with jump := some ⟨1⟩ }]

theorem callPath_equiv_rulesAt_crossing :
    crossing.TargetsExist ∧ ∃ g, crossing.traversal? .outside = some g ∧
      ∃ place : crossing.CallPath .outside ≃ {place : List Nat // (g.rulesAt? place).isSome},
        (∀ p, g.rulesAt? (place p) = some p.last) ∧
        (∀ p, p.calls = [] → (place p).val.length = 1) ∧
        ∀ p, p.calls ≠ [] → (place p).val.dropLast = (place p.caller).val :=
  have hTargets : crossing.TargetsExist := by decide +kernel
  ⟨hTargets, callPath_equiv_rulesAt ⟨_, rfl⟩ hTargets .outside⟩

end Ruleset

end PacketFlow
