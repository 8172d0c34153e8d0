import Mathlib.Data.List.Forall2
import PacketFlow.Flow.Picture
import PacketFlow.Proofs.Flow.Edges
import PacketFlow.Proofs.Flow.Expansion

/-!
What a picture shows. Numbers of chains and rules do not appear in it, so two graphs of two rulesets
have one picture if their levels match: the same vertices to the eye, joined by the same edges. A
level that matches any other has a picture.
-/
namespace PacketFlow

variable (rs rs' : Ruleset)

/-- Two vertices that look the same wherever they stand. -/
def Vertex.Matches (v v' : Vertex) : Prop :=
  v.kind = v'.kind ∧
    ∀ place, ∃ statement, v.draw? rs place = some statement ∧ v'.draw? rs' place = some statement

/-- Two levels that look the same. -/
structure Graph.Matches (g g' : Graph) : Prop where
  vertices : List.Forall₂ (Vertex.Matches rs rs') g.vertices g'.vertices
  edges : g.edges = g'.edges
  within : g.EdgesWithin

/-- Two visits that look the same. -/
structure Visit.Matches (v v' : Visit) : Prop where
  head : v.head.Matches rs rs' v'.head
  body : Option.Rel (Vertex.Matches rs rs') v.body v'.body

/-- Two stops that look the same. -/
structure Stop.Matches (s s' : Stop) : Prop where
  rule : s.rule.Matches rs rs' s'.rule
  visits : List.Forall₂ (fun visit visit' => visit.1 = visit'.1 ∧ visit.2.Matches rs rs' visit'.2)
    s.visits s'.visits

variable {rs rs'}

theorem Vertex.matches_chain (name : String) (c c' : ChainId) (isExtension truncated : Bool) :
    (Vertex.chain name c isExtension truncated).Matches rs rs'
      (.chain name c' isExtension truncated) :=
  ⟨rfl, fun place => ⟨_, by rw [draw?], by rw [draw?]⟩⟩

/-- Of a rule the picture shows its interfaces and its comment beside its name. -/
theorem Vertex.matches_rule (name : String) {r r' : RuleId} {rule rule' : Rule}
    (hRule : rs.rule? r = some rule) (hRule' : rs'.rule? r' = some rule')
    (hIn : shownMatch rule.inInterface = shownMatch rule'.inInterface)
    (hOut : shownMatch rule.outInterface = shownMatch rule'.outInterface)
    (hComment : rule.comment = rule'.comment) :
    (Vertex.rule name r).Matches rs rs' (.rule name r') := by
  have hAttributes : ruleAttributes name rule'.toRuleBody = ruleAttributes name rule.toRuleBody := by
    simp only [ruleAttributes, ruleRecord, hIn, hOut, hComment]
  refine ⟨rfl, fun place => ⟨.node (nodeName place) (ruleAttributes name rule.toRuleBody), ?_, ?_⟩⟩
  · rw [draw?, hRule]
    rfl
  · rw [draw?, hRule', ← hAttributes]
    rfl

theorem Vertex.exists_drawFrom? {vs vs' : List Vertex}
    (hSame : List.Forall₂ (Vertex.Matches rs rs') vs vs') (place : List Nat) (position : Nat) :
    ∃ drawn, Vertex.drawFrom? rs place position vs = some drawn ∧
      Vertex.drawFrom? rs' place position vs' = some drawn := by
  induction hSame generalizing position with
  | nil => exact ⟨[], by rw [drawFrom?], by rw [drawFrom?]⟩
  | cons hHead hTail ih =>
      obtain ⟨first, hFirst, hFirst'⟩ := hHead.2 (place ++ [position])
      obtain ⟨others, hOthers, hOthers'⟩ := ih (position + 1)
      refine ⟨first :: others, ?_, ?_⟩
      · rw [drawFrom?, hFirst, hOthers]
        rfl
      · rw [drawFrom?, hFirst', hOthers']
        rfl

private theorem exists_getElem?_of_matches {vs vs' : List Vertex}
    (hSame : List.Forall₂ (Vertex.Matches rs rs') vs vs') {i : Nat} (hLt : i < vs.length) :
    ∃ v v', vs[i]? = some v ∧ vs'[i]? = some v' ∧ v.kind = v'.kind := by
  have hLt' : i < vs'.length := hSame.length_eq ▸ hLt
  exact ⟨_, _, List.getElem?_eq_getElem hLt, List.getElem?_eq_getElem hLt',
    (List.forall₂_iff_get.1 hSame).2 i hLt hLt' |>.1⟩

theorem exists_drawEdge? {vs vs' : List Vertex}
    (hSame : List.Forall₂ (Vertex.Matches rs rs') vs vs') (place : List Nat) {e : Edge}
    (hBelow : e.Below vs.length) :
    ∃ statement, drawEdge? place vs e = some statement ∧ drawEdge? place vs' e = some statement := by
  obtain ⟨source, source', hSource, hSource', hSourceKind⟩ :=
    exists_getElem?_of_matches hSame hBelow.1
  obtain ⟨target, target', hTarget, hTarget', hTargetKind⟩ :=
    exists_getElem?_of_matches hSame hBelow.2
  refine ⟨_, by rw [drawEdge?, hSource, hTarget]; rfl, ?_⟩
  rw [drawEdge?, hSource', hTarget']
  simp only [borderAttribute, hSourceKind, hTargetKind]
  rfl

namespace Graph.Matches

variable {g g' : Graph}

theorem exists_draw? (hMatches : g.Matches rs rs' g') (place : List Nat) :
    ∃ drawn, Graph.draw? rs place g = some drawn ∧ Graph.draw? rs' place g' = some drawn := by
  obtain ⟨vertices, hVertices, hVertices'⟩ := Vertex.exists_drawFrom? hMatches.vertices place 0
  have hEdges : List.Forall₂ (fun e e' => ∃ statement statement',
      drawEdge? place g.vertices e = some statement ∧
      drawEdge? place g'.vertices e' = some statement' ∧ statement = statement')
      g.edges g'.edges := by
    rw [← hMatches.edges]
    refine List.forall₂_same.2 fun e hMem => ?_
    obtain ⟨statement, hDrawn, hDrawn'⟩ :=
      exists_drawEdge? hMatches.vertices place (hMatches.within e hMem)
    exact ⟨statement, statement, hDrawn, hDrawn', rfl⟩
  obtain ⟨edges, edges', hEdges, hEdges', hSame⟩ := exists_mapM_forall₂ hEdges
  obtain rfl : edges = edges' := by rwa [List.forall₂_eq_eq_eq] at hSame
  refine ⟨vertices ++ edges, ?_, ?_⟩
  · obtain ⟨vs, es⟩ := g
    rw [Graph.draw?, hVertices, hEdges]
    rfl
  · obtain ⟨vs, es⟩ := g'
    rw [Graph.draw?, hVertices', hEdges']
    rfl

/-- Levels that match have one picture. -/
theorem exists_picture? (hMatches : g.Matches rs rs' g') (origin : Origin) :
    ∃ text, g.picture? rs origin = some text ∧ g'.picture? rs' origin = some text := by
  obtain ⟨drawn, hDrawn, hDrawn'⟩ := hMatches.exists_draw? []
  refine ⟨_, by rw [picture?, diagram?, hDrawn]; rfl, ?_⟩
  rw [picture?, diagram?, hDrawn']
  rfl

theorem matches_rules (hMatches : g.Matches rs rs' g') (name : String) (c c' : ChainId) :
    (Vertex.rules name c g).Matches rs rs' (.rules name c' g') := by
  refine ⟨rfl, fun place => ?_⟩
  obtain ⟨drawn, hDrawn, hDrawn'⟩ := hMatches.exists_draw? place
  refine ⟨_, by rw [Vertex.draw?, hDrawn]; rfl, ?_⟩
  rw [Vertex.draw?, hDrawn']
  rfl

end Graph.Matches

namespace Visit

theorem Matches.edges_eq {v v' : Visit} (hMatches : v.Matches rs rs' v') (position : Nat) :
    v.edges position = v'.edges position := by
  obtain ⟨head, body⟩ := v
  obtain ⟨head', body'⟩ := v'
  obtain ⟨-, hBody⟩ := hMatches
  cases hBody <;> rfl

theorem Matches.vertices {v v' : Visit} (hMatches : v.Matches rs rs' v') :
    List.Forall₂ (Vertex.Matches rs rs') v.vertices v'.vertices := by
  obtain ⟨head, body⟩ := v
  obtain ⟨head', body'⟩ := v'
  obtain ⟨hHead, hBody⟩ := hMatches
  refine .cons hHead ?_
  cases hBody with
  | none => exact .nil
  | some hBody => exact .cons hBody .nil

theorem levelEdges_eq {visits visits' : List Visit}
    (hSame : List.Forall₂ (Visit.Matches rs rs') visits visits') (head body : Nat) :
    levelEdges head body visits = levelEdges head body visits' := by
  induction hSame generalizing head body with
  | nil => rfl
  | @cons v v' rest rest' hHead hTail ih =>
      have hEmpty : rest.isEmpty = rest'.isEmpty := by
        cases hTail <;> rfl
      obtain ⟨chain, rules⟩ := v
      obtain ⟨chain', rules'⟩ := v'
      obtain ⟨-, hBody⟩ := hHead
      rw [levelEdges, levelEdges, hEmpty, ih]
      cases hBody <;> rfl

theorem matches_level {visits visits' : List Visit}
    (hSame : List.Forall₂ (Visit.Matches rs rs') visits visits') :
    (level visits).Matches rs rs' (level visits') where
  vertices := by
    refine List.rel_append ?_ ?_
    · exact List.rel_map (fun _ _ hVisit => hVisit.head) hSame
    · exact List.rel_filterMap (fun _ _ hVisit => hVisit.body) hSame
  edges := by
    rw [level, level, hSame.length_eq]
    exact levelEdges_eq hSame 0 visits'.length
  within := edgesWithin_level visits

end Visit

namespace Stop

theorem Matches.vertices {s s' : Stop} (hMatches : s.Matches rs rs' s') :
    List.Forall₂ (Vertex.Matches rs rs') s.vertices s'.vertices := by
  refine .cons hMatches.rule ?_
  exact List.rel_flatMap hMatches.visits fun _ _ hVisit => hVisit.2.vertices

theorem transferEdges_eq {visits visits' : List (Transfer × Visit)}
    (hSame : List.Forall₂ (fun visit visit' => visit.1 = visit'.1 ∧
      visit.2.Matches rs rs' visit'.2) visits visits') (rule position : Nat) :
    transferEdges rule position visits = transferEdges rule position visits' := by
  induction hSame generalizing position with
  | nil => rfl
  | @cons visit visit' rest rest' hHead hTail ih =>
      obtain ⟨transfer, v⟩ := visit
      obtain ⟨transfer', v'⟩ := visit'
      obtain ⟨rfl, hVisit⟩ := hHead
      rw [transferEdges, transferEdges, hVisit.edges_eq, hVisit.vertices.length_eq, ih]

theorem levelEdges_eq {stops stops' : List Stop}
    (hSame : List.Forall₂ (Stop.Matches rs rs') stops stops') (previous : Option Nat)
    (position : Nat) : levelEdges previous position stops = levelEdges previous position stops' := by
  induction hSame generalizing previous position with
  | nil => rfl
  | @cons stop stop' rest rest' hHead hTail ih =>
      rw [levelEdges, levelEdges, Stop.edges, Stop.edges, transferEdges_eq hHead.visits,
        hHead.vertices.length_eq, ih]

theorem matches_level {stops stops' : List Stop}
    (hSame : List.Forall₂ (Stop.Matches rs rs') stops stops') :
    (level stops).Matches rs rs' (level stops') where
  vertices := List.rel_flatMap hSame fun _ _ hStop => hStop.vertices
  edges := levelEdges_eq hSame none 0
  within := edgesWithin_level stops

end Stop

end PacketFlow
