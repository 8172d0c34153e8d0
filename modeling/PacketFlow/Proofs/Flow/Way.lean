import Mathlib.Data.List.Nodup
import PacketFlow.Proofs.Flow.Level
import PacketFlow.Proofs.Flow.Place

/-!
Ways inwards through the levels of a graph. A way says at each level which chain's rules are entered
and how a packet comes to that chain there. The ways that are open in a ruleset and the places that
hold a level in its graph are the same: each way leads to one place, and each place is reached by one
way. The path of a level is what its way has entered, so the chains being shown around a place are
the chains of its way and no others.
-/
namespace PacketFlow

/-- The chains whose rules are entered one inside the other, each with the approach to it. -/
abbrev Way := List (Approach × ChainId)

/-- The path within a way that starts within `path`: the chains entered, the innermost first. -/
def Way.path (way : Way) (path : List ChainId) : List ChainId :=
  (way.map Prod.snd).reverse ++ path

@[simp]
theorem Way.path_nil (path : List ChainId) : Way.path [] path = path :=
  rfl

@[simp]
theorem Way.path_cons (approach : Approach) (c : ChainId) (way : Way) (path : List ChainId) :
    Way.path ((approach, c) :: way) path = Way.path way (c :: path) := by
  simp [Way.path]

theorem Way.path_append (first second : Way) (path : List ChainId) :
    Way.path (first ++ second) path = Way.path second (Way.path first path) := by
  simp [Way.path]

namespace Ruleset

variable {rs : Ruleset} {origin : Origin} {path : List ChainId} {g inner : Graph}

/-- The way can be gone from the level of that path: on every level there is the approach, and the
chain expands. -/
def Opens (rs : Ruleset) (origin : Origin) : List ChainId → Way → Prop
  | _, [] => True
  | path, (approach, c) :: rest =>
    (rs.Leads origin path approach c ∧ rs.Expands path c) ∧ rs.Opens origin (c :: path) rest

/-- The place that a way leads to, from the level of that path. -/
def placeFrom (rs : Ruleset) (origin : Origin) : List ChainId → Way → List Nat
  | _, [] => []
  | path, (approach, c) :: rest =>
    (rs.entries origin path).idxOf (.rules approach c) :: rs.placeFrom origin (c :: path) rest

@[simp]
theorem opens_append {first second : Way} :
    rs.Opens origin path (first ++ second) ↔
      rs.Opens origin path first ∧ rs.Opens origin (first.path path) second := by
  induction first generalizing path with
  | nil => simp [Opens]
  | cons step first ih =>
      obtain ⟨approach, c⟩ := step
      simp only [List.cons_append, Opens, ih, Way.path_cons, and_assoc]

theorem placeFrom_append (first second : Way) :
    rs.placeFrom origin path (first ++ second) =
      rs.placeFrom origin path first ++ rs.placeFrom origin (first.path path) second := by
  induction first generalizing path with
  | nil => rfl
  | cons step first ih =>
      obtain ⟨approach, c⟩ := step
      simp only [List.cons_append, placeFrom, ih, Way.path_cons]

theorem length_placeFrom (way : Way) : (rs.placeFrom origin path way).length = way.length := by
  induction way generalizing path with
  | nil => rfl
  | cons step way ih =>
      obtain ⟨approach, c⟩ := step
      simp only [placeFrom, List.length_cons, ih]

/-- Part of the place of a way is the place of part of the way. -/
theorem exists_placeFrom_eq_of_prefix {way : Way} {outer : List Nat}
    (hPrefix : outer <+: rs.placeFrom origin path way) :
    ∃ first rest, way = first ++ rest ∧ rs.placeFrom origin path first = outer := by
  induction way generalizing path outer with
  | nil => exact ⟨[], [], rfl, (List.prefix_nil.1 hPrefix).symm⟩
  | cons step way ih =>
      obtain ⟨approach, c⟩ := step
      cases outer with
      | nil => exact ⟨[], _, rfl, rfl⟩
      | cons position outer =>
          obtain ⟨rfl, hRest⟩ := List.cons_prefix_cons.1 hPrefix
          obtain ⟨first, rest, rfl, rfl⟩ := ih hRest
          exact ⟨(approach, c) :: first, rest, rfl, rfl⟩

/-- A way that enters any chain enters last one that expands within the others. -/
theorem Opens.exists_path_eq_cons {way : Way} (hOpens : rs.Opens origin [] way) (hSome : way ≠ []) :
    ∃ c rest, way.path [] = c :: rest ∧ rs.Expands rest c := by
  obtain rfl | ⟨front, ⟨approach, c⟩, rfl⟩ := way.eq_nil_or_concat
  · exact absurd rfl hSome
  · rw [List.concat_eq_append] at hOpens ⊢
    obtain ⟨-, ⟨-, hExpands⟩, -⟩ := opens_append.1 hOpens
    exact ⟨c, Way.path front [], Way.path_append .., hExpands⟩

/-- The vertex of an entry stands where the entry stands. -/
theorem exists_vertex?_of_mem_entries (hLevel : rs.level? origin path = some g) {entry : Entry}
    (hMem : entry ∈ rs.entries origin path) :
    ∃ v, g.vertex? ((rs.entries origin path).idxOf entry) = some v ∧
      rs.Stands origin path entry v := by
  have hStands := stands_of_level?_eq_some hLevel
  have hIndex := List.getElem?_idxOf hMem
  have hLength : (rs.entries origin path).idxOf entry < g.vertices.length := by
    rw [← hStands.length_eq]
    exact List.idxOf_lt_length_of_mem hMem
  obtain ⟨found, hFound, hVertex⟩ :=
    forall₂_getElem? hStands (List.getElem?_eq_getElem hLength)
  obtain rfl := Option.some.inj (hFound.symm.trans hIndex)
  exact ⟨_, List.getElem?_eq_getElem hLength, hVertex⟩

/-- Every vertex has an entry, which stands where the vertex stands. -/
theorem Consistent.exists_entry_of_vertex? (h : rs.Consistent)
    (hLevel : rs.level? origin path = some g) {position : Nat} {v : Vertex}
    (hVertex : g.vertex? position = some v) :
    ∃ entry ∈ rs.entries origin path, (rs.entries origin path).idxOf entry = position ∧
      rs.Stands origin path entry v := by
  obtain ⟨entry, hEntry, hStands⟩ := forall₂_getElem? (stands_of_level?_eq_some hLevel) hVertex
  obtain ⟨hLt, rfl⟩ := List.getElem?_eq_some_iff.1 hEntry
  exact ⟨_, List.getElem_mem hLt, (h.entries_nodup origin path).idxOf_getElem _ hLt, hStands⟩

section Entry

variable (h : rs.Consistent) (hLevel : rs.level? origin path = some g) {position : Nat}
  {name : String} {c : ChainId}

include h hLevel

/-- The entry of a rule's vertex is that rule. -/
theorem Consistent.entry_of_rule {r : RuleId}
    (hVertex : g.vertex? position = some (.rule name r)) :
    .rule r ∈ rs.entries origin path ∧ (rs.entries origin path).idxOf (.rule r) = position ∧
      rs.ruleLabel? r = some name := by
  obtain ⟨entry, hMem, hPosition, hStands⟩ := h.exists_entry_of_vertex? hLevel hVertex
  cases entry with
  | rule r' =>
      obtain ⟨label, hLabel, hSame⟩ := hStands
      cases hSame
      exact ⟨hMem, hPosition, hLabel⟩
  | chain approach d => obtain ⟨_, _, _, _, hOther⟩ := hStands; cases hOther
  | rules approach d => obtain ⟨_, _, _, _, hOther⟩ := hStands; cases hOther

/-- The entry of a chain's vertex is that chain, and its flags are those of the chain on the path. -/
theorem Consistent.exists_entry_of_chain {isExtension truncated : Bool}
    (hVertex : g.vertex? position = some (.chain name c isExtension truncated)) :
    ∃ approach chain, .chain approach c ∈ rs.entries origin path ∧
      (rs.entries origin path).idxOf (.chain approach c) = position ∧
      rs.chainLabel? c = some name ∧ rs.chain? c = some chain ∧
      isExtension = chain.isExtension ∧ truncated = path.contains c := by
  obtain ⟨entry, hMem, hPosition, hStands⟩ := h.exists_entry_of_vertex? hLevel hVertex
  cases entry with
  | rule r => obtain ⟨_, _, hOther⟩ := hStands; cases hOther
  | chain approach d =>
      obtain ⟨label, chain, hLabel, hChain, hSame⟩ := hStands
      cases hSame
      exact ⟨approach, chain, hMem, hPosition, hLabel, hChain, rfl, rfl⟩
  | rules approach d => obtain ⟨_, _, _, _, hOther⟩ := hStands; cases hOther

/-- The entry of a vertex that holds the rules of a chain is the rules of that chain. -/
theorem Consistent.exists_entry_of_rules (hVertex : g.vertex? position = some (.rules name c inner)) :
    ∃ approach label, .rules approach c ∈ rs.entries origin path ∧
      (rs.entries origin path).idxOf (.rules approach c) = position ∧
      rs.chainLabel? c = some label ∧ name = s!"rules: {label}" ∧
      rs.level? origin (c :: path) = some inner := by
  obtain ⟨entry, hMem, hPosition, hStands⟩ := h.exists_entry_of_vertex? hLevel hVertex
  cases entry with
  | rule r => obtain ⟨_, _, hOther⟩ := hStands; cases hOther
  | chain approach d => obtain ⟨_, _, _, _, hOther⟩ := hStands; cases hOther
  | rules approach d =>
      obtain ⟨label, found, hLabel, hInner, hSame⟩ := hStands
      cases hSame
      exact ⟨approach, label, hMem, hPosition, hLabel, rfl, hInner⟩

end Entry

/-- An open way leads to the level of its path. -/
theorem Consistent.levelAt?_placeFrom (h : rs.Consistent) {way : Way}
    (hLevel : rs.level? origin path = some g) (hOpens : rs.Opens origin path way) :
    ∃ inner, rs.level? origin (way.path path) = some inner ∧
      g.levelAt? (rs.placeFrom origin path way) = some inner := by
  induction way generalizing path g with
  | nil => exact ⟨g, hLevel, rfl⟩
  | cons step way ih =>
      obtain ⟨approach, c⟩ := step
      obtain ⟨hStep, hRest⟩ := hOpens
      obtain ⟨v, hVertex, label, level, -, hInner, rfl⟩ :=
        exists_vertex?_of_mem_entries hLevel (h.rules_mem_entries.2 hStep)
      obtain ⟨inner, hFound, hAt⟩ := ih hInner hRest
      refine ⟨inner, by rwa [Way.path_cons], Graph.levelAt?_cons.2 ?_⟩
      exact ⟨_, _, level, hVertex, hAt⟩

/-- The last step of an open way leads to the vertex that holds the rules of its chain. -/
theorem Consistent.rulesAt?_placeFrom (h : rs.Consistent) {outer : Way} {approach : Approach}
    {c : ChainId} (hLevel : rs.level? origin path = some g)
    (hOpens : rs.Opens origin path (outer ++ [(approach, c)])) :
    g.rulesAt? (rs.placeFrom origin path (outer ++ [(approach, c)])) = some c := by
  obtain ⟨hOuter, hLast, -⟩ := opens_append.1 hOpens
  obtain ⟨around, hAround, hAt⟩ := h.levelAt?_placeFrom hLevel hOuter
  obtain ⟨v, hVertex, label, inner, -, -, rfl⟩ :=
    exists_vertex?_of_mem_entries hAround (h.rules_mem_entries.2 hLast)
  rw [placeFrom_append, Graph.rulesAt?_eq_some_iff]
  refine ⟨s!"rules: {label}", inner, ?_⟩
  rw [placeFrom, placeFrom, Graph.at?_append_singleton, hAt, Option.bind_some, hVertex]

/-- Every level is that of the path of an open way, which leads to its place. -/
theorem Consistent.exists_way_of_levelAt? (h : rs.Consistent) {place : List Nat}
    (hLevel : rs.level? origin path = some g) (hAt : g.levelAt? place = some inner) :
    ∃ way, rs.Opens origin path way ∧ rs.level? origin (way.path path) = some inner ∧
      rs.placeFrom origin path way = place := by
  induction place generalizing path g with
  | nil =>
      obtain rfl : g = inner := Option.some.inj hAt
      exact ⟨[], trivial, hLevel, rfl⟩
  | cons position place ih =>
      obtain ⟨name, c, level, hVertex, hInner⟩ := Graph.levelAt?_cons.1 hAt
      obtain ⟨approach, label, hMem, rfl, -, -, hFound⟩ := h.exists_entry_of_rules hLevel hVertex
      obtain ⟨way, hOpens, hPath, rfl⟩ := ih hFound hInner
      exact ⟨(approach, c) :: way, ⟨h.rules_mem_entries.1 hMem, hOpens⟩, by rwa [Way.path_cons], rfl⟩

/-- Every vertex stands on the level of an open way. -/
theorem Consistent.exists_way_of_at? (h : rs.Consistent) {place : List Nat} {v : Vertex}
    (hLevel : rs.level? origin path = some g) (hAt : g.at? place = some v) :
    ∃ way level position, rs.Opens origin path way ∧ rs.level? origin (way.path path) = some level ∧
      level.vertex? position = some v := by
  obtain ⟨around, level, position, hAround, hVertex⟩ := Graph.exists_at?_iff.1 ⟨place, hAt⟩
  obtain ⟨way, hOpens, hFound, -⟩ := h.exists_way_of_levelAt? hLevel hAround
  exact ⟨way, level, position, hOpens, hFound, hVertex⟩

/-- Different open ways lead to different places. -/
theorem Consistent.placeFrom_inj (h : rs.Consistent) {first second : Way}
    (hFirst : rs.Opens origin path first) (hSecond : rs.Opens origin path second)
    (hSame : rs.placeFrom origin path first = rs.placeFrom origin path second) :
    first = second := by
  induction first generalizing path second with
  | nil =>
      cases second with
      | nil => rfl
      | cons step second => cases hSame
  | cons step first ih =>
      obtain ⟨approach, c⟩ := step
      cases second with
      | nil => cases hSame
      | cons step' second =>
          obtain ⟨approach', c'⟩ := step'
          rw [placeFrom, placeFrom, List.cons.injEq,
            List.idxOf_inj (h.rules_mem_entries.2 hFirst.1)] at hSame
          obtain ⟨hEntry, hRest⟩ := hSame
          cases hEntry
          rw [ih hFirst.2 hSecond.2 hRest]

end Ruleset

end PacketFlow
