import Mathlib.Data.List.Induction
import PacketFlow.Flow.Picture
import PacketFlow.Proofs.Dot.Statement
import PacketFlow.Proofs.Text.Words

/-!
What the names and attributes of a picture tell. They are written as the language has it, whatever the
names in them are. The name of a node tells its position on its level, the attributes of a chain its
name and its two marks, those of a rule all that is shown of it, and those of an edge its kind.
-/
namespace PacketFlow

open Dot

section Names

theorem all_isWordChar_toString (n : Nat) : (toString n).toList.all isWordChar = true := by
  rw [List.all_eq_true]
  intro c hMem
  simp [isWordChar, Char.isAlphanum, Text.isDigit_of_mem_toString hMem]

theorem nodeName_append (place : List Nat) (position : Nat) :
    nodeName (place ++ [position]) = nodeName place ++ "_" ++ toString position := by
  simp [nodeName, toString]

theorem isWord_nodeName (place : List Nat) : IsWord (nodeName place) := by
  induction place using List.reverseRecOn with
  | nil => decide
  | append_singleton place position ih =>
      rw [nodeName_append]
      exact (ih.append (by decide)).append (all_isWordChar_toString position)

theorem isWord_clusterName (place : List Nat) : IsWord (clusterName place) :=
  IsWord.append (by decide) (isWord_nodeName place).2

/-- The name of a node tells its place: the digits behind the last underscore are its position on its
level, and what is before them names the level. -/
theorem nodeName_injective : Function.Injective nodeName := by
  have hDigits (n : Nat) : '_' ∉ (toString n).toList :=
    fun hMem => absurd (Text.isDigit_of_mem_toString hMem) (by decide)
  have hWrite (place : List Nat) (i : Nat) :
      (nodeName (place ++ [i])).toList = (nodeName place).toList ++ '_' :: (toString i).toList := by
    simp [nodeName_append]
  have hNil (place : List Nat) (i : Nat) : nodeName [] ≠ nodeName (place ++ [i]) := by
    intro hSame
    have hMem : '_' ∈ (nodeName []).toList := by simp [hSame, hWrite]
    exact absurd hMem (by decide)
  intro place
  induction place using List.reverseRecOn with
  | nil =>
      intro other hSame
      obtain rfl | ⟨rest, j, rfl⟩ := other.eq_nil_or_concat
      · rfl
      · rw [List.concat_eq_append] at hSame
        exact absurd hSame (hNil rest j)
  | append_singleton place i ih =>
      intro other hSame
      obtain rfl | ⟨rest, j, rfl⟩ := other.eq_nil_or_concat
      · exact absurd hSame.symm (hNil place i)
      · rw [List.concat_eq_append, ← String.toList_inj, hWrite, hWrite] at hSame
        obtain ⟨hPlaces, hPositions⟩ :=
          Text.append_cons_inj_of_not_mem (hDigits i) (hDigits j) hSame
        rw [ih (String.toList_inj.1 hPlaces), Text.toString_injective (String.toList_inj.1 hPositions),
          List.concat_eq_append]

theorem clusterName_injective : Function.Injective clusterName :=
  fun _ _ hSame => nodeName_injective ((String.append_right_inj _).1 hSame)

/-- On one level the name of a node tells its position. -/
theorem nodeName_append_inj {place : List Nat} {i j : Nat}
    (hSame : nodeName (place ++ [i]) = nodeName (place ++ [j])) : i = j := by
  simpa using nodeName_injective hSame

end Names

section Records

variable {name name' : String} {rule rule' : RuleBody}

theorem toList_ruleRecord (name : String) (rule : RuleBody) : (ruleRecord name rule).toList =
    '⇒' :: ((escapeField false (shownMatch rule.inInterface)).toList ++
      '|' :: ((escapeField true name).toList ++
        '|' :: ((escapeField false (shownMatch rule.outInterface)).toList ++ ['⇒']))) := by
  simp [ruleRecord]

theorem sealed_ruleRecord (name : String) (rule : RuleBody) :
    Sealed '"' (ruleRecord name rule).toList := by
  have hBare {c : Char} {rest : List Char} (hOther : c ≠ '"' ∧ c ≠ '\\') (hRest : Sealed '"' rest) :
      Sealed '"' (c :: rest) := .bare hOther.1 hOther.2 hRest
  rw [toList_ruleRecord]
  apply hBare (by decide)
  apply (sealed_escapeField false _).append
  apply hBare (by decide)
  apply (sealed_escapeField true _).append
  apply hBare (by decide)
  apply (sealed_escapeField false _).append
  exact hBare (by decide) .nil

/-- The record of a rule tells its name and its interfaces, whatever bars are in them: the first bare
bar ends the one interface, and the last begins the other. -/
theorem ruleRecord_inj (hSame : ruleRecord name rule = ruleRecord name' rule') :
    name = name' ∧ shownMatch rule.inInterface = shownMatch rule'.inInterface ∧
      shownMatch rule.outInterface = shownMatch rule'.outInterface := by
  have hEnd (rule : RuleBody) :
      Sealed '|' ((escapeField false (shownMatch rule.outInterface)).toList ++ ['⇒']) :=
    (sealed_bar_escapeField _).append (.bare (by decide) (by decide) .nil)
  rw [← String.toList_inj, toList_ruleRecord, toList_ruleRecord] at hSame
  obtain ⟨hIn, hFields⟩ := Sealed.append_inj (by decide) (sealed_bar_escapeField _)
    (sealed_bar_escapeField _) (List.cons.inj hSame).2
  obtain ⟨hName, hOut⟩ := Sealed.append_inj_last (by decide) (sealed_escapeField true _)
    (sealed_escapeField true _) (hEnd rule) (hEnd rule') hFields
  refine ⟨?_, ?_, ?_⟩
  · exact escapeField_injective true (String.toList_inj.1 hName)
  · exact escapeField_injective false (String.toList_inj.1 hIn)
  · exact escapeField_injective false (String.toList_inj.1 (List.append_cancel_right hOut))

end Records

section Attributes

variable {name name' : String} {rule rule' : RuleBody}

theorem legible_word {name text : String} (hWords : IsWord name ∧ IsWord text) :
    (⟨name, .word text⟩ : Attribute).Legible :=
  ⟨hWords.1, hWords.2⟩

theorem legible_attribute {name : String} {value : Value} (hName : IsWord name)
    (hValue : value.Legible) : (⟨name, value⟩ : Attribute).Legible :=
  ⟨hName, hValue⟩

theorem legible_label (text : String) : (⟨"label", .ofText text⟩ : Attribute).Legible :=
  legible_attribute (by decide) (Value.legible_ofText text)

theorem legible_chainAttributes (name : String) (isExtension truncated : Bool) :
    ∀ a ∈ chainAttributes name isExtension truncated, a.Legible := by
  rw [chainAttributes, List.forall_mem_append, List.forall_mem_append, List.forall_mem_singleton,
    List.forall_mem_singleton]
  refine ⟨⟨?_, ?_⟩, legible_label name⟩
  · apply legible_word
    cases isExtension <;> decide
  · cases truncated with
    | true => exact List.forall_mem_singleton.2 (legible_word (by decide))
    | false => exact List.forall_mem_nil _

theorem chainAttributes_inj {isExtension isExtension' truncated truncated' : Bool}
    (hSame : chainAttributes name isExtension truncated =
      chainAttributes name' isExtension' truncated') :
    name = name' ∧ isExtension = isExtension' ∧ truncated = truncated' := by
  cases isExtension <;> cases isExtension' <;> cases truncated <;> cases truncated' <;>
    simp [chainAttributes, Value.ofText_inj] at hSame ⊢ <;> exact hSame

theorem legible_ruleAttributes (name : String) (rule : RuleBody) :
    ∀ a ∈ ruleAttributes name rule, a.Legible := by
  rw [ruleAttributes, List.forall_mem_append, List.forall_mem_map]
  constructor
  · simp only [List.forall_mem_cons]
    exact ⟨legible_word (by decide), legible_word (by decide), legible_word (by decide),
      legible_attribute (by decide) (sealed_ruleRecord name rule), List.forall_mem_nil _⟩
  · exact fun comment _ => legible_attribute (by decide) (Value.legible_ofText comment)

theorem ruleAttributes_inj (hSame : ruleAttributes name rule = ruleAttributes name' rule') :
    name = name' ∧ shownMatch rule.inInterface = shownMatch rule'.inInterface ∧
      shownMatch rule.outInterface = shownMatch rule'.outInterface ∧
        rule.comment = rule'.comment := by
  simp only [ruleAttributes, List.cons_append, List.nil_append, List.cons.injEq, true_and,
    Attribute.mk.injEq, Value.quoted.injEq] at hSame
  obtain ⟨hRecord, hTooltip⟩ := hSame
  obtain ⟨hName, hIn, hOut⟩ := ruleRecord_inj hRecord
  refine ⟨hName, hIn, hOut, ?_⟩
  cases hComment : rule.comment <;> cases hComment' : rule'.comment <;>
    simp [hComment, hComment', Value.ofText_inj] at hTooltip ⊢
  exact hTooltip

/-- Chains and rules have different shapes. -/
theorem chainAttributes_ne_ruleAttributes {isExtension truncated : Bool} :
    chainAttributes name isExtension truncated ≠ ruleAttributes name' rule := by
  cases isExtension <;> simp [chainAttributes, ruleAttributes]

theorem EdgeKind.legible_attributes (kind : EdgeKind) : ∀ a ∈ kind.attributes, a.Legible := by
  cases kind with
  | next => exact List.forall_mem_nil _
  | rules => exact List.forall_mem_singleton.2 (legible_word (by decide))
  | transfer transfer =>
      cases transfer with
      | jump =>
          simp only [attributes, List.forall_mem_cons]
          exact ⟨legible_label _, legible_word (by decide), List.forall_mem_nil _⟩
      | goto =>
          simp only [attributes, List.forall_mem_cons]
          exact ⟨legible_label _, legible_word (by decide), legible_word (by decide),
            List.forall_mem_nil _⟩

theorem EdgeKind.attributes_injective : Function.Injective EdgeKind.attributes := by
  intro kind kind' hSame
  cases kind with
  | next =>
      cases kind' with
      | next => rfl
      | rules => cases hSame
      | transfer transfer => cases transfer <;> cases hSame
  | rules =>
      cases kind' with
      | next => cases hSame
      | rules => rfl
      | transfer transfer => cases transfer <;> simp [attributes] at hSame
  | transfer transfer =>
      cases kind' with
      | next => cases transfer <;> cases hSame
      | rules => cases transfer <;> simp [attributes] at hSame
      | transfer transfer' => cases transfer <;> cases transfer' <;> simp [attributes] at hSame ⊢

theorem legible_borderAttribute {side : String} (hSide : IsWord side) (place : List Nat)
    (v : Vertex) : ∀ a ∈ borderAttribute side place v, a.Legible := by
  rw [borderAttribute]
  split
  · exact List.forall_mem_singleton.2 (legible_word ⟨hSide, isWord_clusterName place⟩)
  · exact List.forall_mem_nil _

end Attributes

end PacketFlow
