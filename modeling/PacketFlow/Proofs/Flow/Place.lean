import PacketFlow.Flow.Graph

/-!
Places in a graph with levels. A place lists the positions that lead to it from the outermost level
inwards, as the names of the nodes in a picture do. All vertices of all levels are the vertices at
the places of the graph.
-/
namespace PacketFlow

/-- What holds of the rules of a chain if it holds of all vertices inside holds of all vertices. -/
theorem Vertex.induction {Holds : Vertex → Prop}
    (chain : ∀ name c isExtension truncated, Holds (.chain name c isExtension truncated))
    (rule : ∀ name r, Holds (.rule name r))
    (rules : ∀ name c (inner : Graph), (∀ v ∈ inner.vertices, Holds v) → Holds (.rules name c inner))
    (v : Vertex) : Holds v :=
  @Vertex.rec Holds (fun inner => ∀ v ∈ inner.vertices, Holds v) (fun vs => ∀ v ∈ vs, Holds v)
    chain rule rules (fun _ _ hVertices => hVertices) (List.forall_mem_nil _)
    (fun _ _ hHead hTail => List.forall_mem_cons.2 ⟨hHead, hTail⟩) v

namespace Graph

/-- The level that is held by the vertex at a place. The empty place is that of the whole graph. -/
def levelAt? (g : Graph) : List Nat → Option Graph
  | [] => some g
  | position :: rest => do
    let v ← g.vertex? position
    let inner ← v.inner?
    levelAt? inner rest

/-- The vertex at a place. -/
def at? (g : Graph) : List Nat → Option Vertex
  | [] => none
  | [position] => g.vertex? position
  | position :: next :: rest => do
    let v ← g.vertex? position
    let inner ← v.inner?
    at? inner (next :: rest)

/-- The chain whose rules the vertex at a place holds. -/
def rulesAt? (g : Graph) (place : List Nat) : Option ChainId :=
  match g.at? place with
  | some (.rules _ c _) => some c
  | _ => none

/-- The chain that the vertex at a place stands for. -/
def chainAt? (g : Graph) (place : List Nat) : Option ChainId :=
  match g.at? place with
  | some (.chain _ c _ _) => some c
  | _ => none

/-- The rule that the vertex at a place stands for. -/
def ruleAt? (g : Graph) (place : List Nat) : Option RuleId :=
  match g.at? place with
  | some (.rule _ r) => some r
  | _ => none

variable {g inner : Graph}

theorem levelAt?_cons {position : Nat} {rest : List Nat} :
    g.levelAt? (position :: rest) = some inner ↔
      ∃ name c level, g.vertex? position = some (.rules name c level) ∧
        levelAt? level rest = some inner := by
  rw [levelAt?, Option.bind_eq_bind, Option.bind_eq_some_iff]
  constructor
  · rintro ⟨v, hVertex, hInner⟩
    obtain ⟨level, hLevel, hInner⟩ := Option.bind_eq_some_iff.1 hInner
    cases v with
    | chain => cases hLevel
    | rule => cases hLevel
    | rules name c held =>
        obtain rfl : held = level := Option.some.inj hLevel
        exact ⟨name, c, held, hVertex, hInner⟩
  · rintro ⟨name, c, level, hVertex, hInner⟩
    exact ⟨_, hVertex, by simpa [Vertex.inner?] using hInner⟩

theorem levelAt?_append (g : Graph) (outer rest : List Nat) :
    g.levelAt? (outer ++ rest) = (g.levelAt? outer).bind (·.levelAt? rest) := by
  induction outer generalizing g with
  | nil => rfl
  | cons first outer ih =>
      simp only [List.cons_append, levelAt?, Option.bind_eq_bind, ih, Option.bind_assoc]

theorem at?_append_singleton (g : Graph) (place : List Nat) (position : Nat) :
    g.at? (place ++ [position]) = (g.levelAt? place).bind (·.vertex? position) := by
  induction place generalizing g with
  | nil => rfl
  | cons first rest ih =>
      have hStep : g.at? (first :: (rest ++ [position])) =
          (g.vertex? first).bind fun v => v.inner?.bind fun inner => inner.at? (rest ++ [position]) := by
        cases rest <;> rfl
      rw [List.cons_append, hStep, levelAt?]
      cases g.vertex? first with
      | none => rfl
      | some v =>
          cases hInner : v.inner? with
          | none => simp [hInner]
          | some inner => simpa [hInner] using ih inner

/-- The places of rules are the places that hold a level. -/
theorem rulesAt?_eq_some_iff {place : List Nat} {c : ChainId} :
    g.rulesAt? place = some c ↔ ∃ name inner, g.at? place = some (.rules name c inner) := by
  unfold rulesAt?
  cases hAt : g.at? place with
  | none => simp
  | some v => cases v <;> simp

theorem chainAt?_eq_some_iff {place : List Nat} {c : ChainId} :
    g.chainAt? place = some c ↔
      ∃ name isExtension truncated, g.at? place = some (.chain name c isExtension truncated) := by
  unfold chainAt?
  cases hAt : g.at? place with
  | none => simp
  | some v => cases v <;> simp

theorem ruleAt?_eq_some_iff {place : List Nat} {r : RuleId} :
    g.ruleAt? place = some r ↔ ∃ name, g.at? place = some (.rule name r) := by
  unfold ruleAt?
  cases hAt : g.at? place with
  | none => simp
  | some v => cases v <;> simp

theorem exists_at?_iff {v : Vertex} :
    (∃ place, g.at? place = some v) ↔
      ∃ around level position, g.levelAt? around = some level ∧ level.vertex? position = some v := by
  constructor
  · intro hShown
    obtain ⟨place, hAt⟩ := hShown
    obtain rfl | ⟨around, position, rfl⟩ := place.eq_nil_or_concat
    · cases hAt
    · rw [List.concat_eq_append, at?_append_singleton, Option.bind_eq_some_iff] at hAt
      obtain ⟨level, hLevel, hVertex⟩ := hAt
      exact ⟨around, level, position, hLevel, hVertex⟩
  · intro hShown
    obtain ⟨around, level, position, hLevel, hVertex⟩ := hShown
    exact ⟨around ++ [position], by rw [at?_append_singleton, hLevel, Option.bind_some, hVertex]⟩

/-- Where rules are shown, there is the level that they are shown on. -/
theorem exists_levelAt?_of_rulesAt? {place : List Nat} {c : ChainId}
    (hRules : g.rulesAt? place = some c) : place ≠ [] ∧ ∃ inner, g.levelAt? place = some inner := by
  obtain ⟨name, inner, hAt⟩ := rulesAt?_eq_some_iff.1 hRules
  obtain rfl | ⟨around, position, rfl⟩ := place.eq_nil_or_concat
  · cases hAt
  · rw [List.concat_eq_append, at?_append_singleton, Option.bind_eq_some_iff] at hAt
    obtain ⟨level, hLevel, hVertex⟩ := hAt
    refine ⟨by simp, inner, ?_⟩
    rw [List.concat_eq_append, levelAt?_append, hLevel, Option.bind_some, levelAt?_cons]
    exact ⟨name, c, inner, hVertex, rfl⟩

end Graph

end PacketFlow
