import Mathlib.Data.List.Basic
import PacketFlow.Dot.Escape

/-!
Texts behind backslashes. A text is sealed against a mark if the mark stands in it behind backslashes
only, so that the text ends at the first mark that does not. A text that is written with backslashes
is sealed against the characters that are written so, and can be read back.
-/
namespace PacketFlow.Dot

/-- A text in which the mark stands behind backslashes only, and no backslash stands alone. -/
inductive Sealed (mark : Char) : List Char → Prop where
  | nil : Sealed mark []
  | bare {c : Char} {rest : List Char} (hMark : c ≠ mark) (hSlash : c ≠ '\\')
      (hRest : Sealed mark rest) : Sealed mark (c :: rest)
  | escaped (c : Char) {rest : List Char} (hRest : Sealed mark rest) :
      Sealed mark ('\\' :: c :: rest)

namespace Sealed

variable {mark other : Char} {first second : List Char}

theorem append (hFirst : Sealed mark first) (hSecond : Sealed mark second) :
    Sealed mark (first ++ second) := by
  induction hFirst with
  | nil => exact hSecond
  | bare hMark hSlash _ ih => exact .bare hMark hSlash ih
  | escaped c _ ih => exact .escaped c ih

theorem cons_iff {c : Char} (hSlash : c ≠ '\\') :
    Sealed mark (c :: second) ↔ c ≠ mark ∧ Sealed mark second := by
  constructor
  · intro h
    cases h with
    | bare hMark _ hRest => exact ⟨hMark, hRest⟩
    | escaped => exact absurd rfl hSlash
  · rintro ⟨hMark, hRest⟩
    exact .bare hMark hSlash hRest

theorem escaped_iff {c : Char} : Sealed mark ('\\' :: c :: second) ↔ Sealed mark second := by
  constructor
  · intro h
    cases h with
    | bare _ hSlash => exact absurd rfl hSlash
    | escaped _ hRest => exact hRest
  · exact .escaped c

theorem not_singleton_slash : ¬Sealed mark ['\\'] := by
  intro h
  cases h with
  | bare _ hSlash => exact hSlash rfl

/-- A first part in which no backslash stands alone can be taken away. -/
theorem of_append (hFirst : Sealed other first) (h : Sealed mark (first ++ second)) :
    Sealed mark second := by
  induction hFirst with
  | nil => exact h
  | bare _ hSlash _ ih => exact ih ((cons_iff hSlash).1 h).2
  | escaped c _ ih => exact ih (escaped_iff.1 h)

theorem not_cons_mark (hMark : mark ≠ '\\') : ¬Sealed mark (mark :: second) :=
  fun h => ((cons_iff hMark).1 h).1 rfl

/-- A sealed text ends at the first mark that does not stand behind a backslash. -/
theorem append_inj (hMark : mark ≠ '\\') (hFirst : Sealed mark first) (hSecond : Sealed mark second)
    {rest rest' : List Char} (hSame : first ++ mark :: rest = second ++ mark :: rest') :
    first = second ∧ rest = rest' := by
  induction hFirst generalizing second with
  | nil =>
      cases hSecond with
      | nil => exact ⟨rfl, (List.cons.inj hSame).2⟩
      | bare hOther => exact absurd (List.cons.inj hSame).1.symm hOther
      | escaped => exact absurd (List.cons.inj hSame).1 hMark
  | bare hOther hSlash _ ih =>
      cases hSecond with
      | nil => exact absurd (List.cons.inj hSame).1 hOther
      | bare _ _ hTail =>
          obtain ⟨rfl, hTails⟩ := List.cons.inj hSame
          obtain ⟨rfl, hRest⟩ := ih hTail hTails
          exact ⟨rfl, hRest⟩
      | escaped => exact absurd (List.cons.inj hSame).1 hSlash
  | escaped c _ ih =>
      cases hSecond with
      | nil => exact absurd (List.cons.inj hSame).1.symm hMark
      | bare _ hSlash => exact absurd (List.cons.inj hSame).1.symm hSlash
      | escaped d hTail =>
          obtain ⟨rfl, hTails⟩ := List.cons.inj (List.cons.inj hSame).2
          obtain ⟨rfl, hRest⟩ := ih hTail hTails
          exact ⟨rfl, hRest⟩

/-- A part that is sealed against the mark has no other mark in it at which the parts before it could
be divided. -/
theorem not_divided (hMark : mark ≠ '\\') (hFirst : Sealed other first) {rest last : List Char}
    (hLonger : Sealed other (first ++ mark :: rest)) : ¬Sealed mark (rest ++ mark :: last) := by
  intro h
  have hRest : Sealed other rest := ((cons_iff hMark).1 (hFirst.of_append hLonger)).2
  exact not_cons_mark hMark (hRest.of_append h)

/-- Where the mark may stand bare in the first part, but not in the second, the parts are divided at
the last mark that stands bare. -/
theorem append_inj_last (hMark : mark ≠ '\\') {first' second' : List Char}
    (hFirst : Sealed other first) (hFirst' : Sealed other first') (hSecond : Sealed mark second)
    (hSecond' : Sealed mark second') (hSame : first ++ mark :: second = first' ++ mark :: second') :
    first = first' ∧ second = second' := by
  rcases List.append_eq_append_iff.1 hSame with ⟨between, rfl, hRest⟩ | ⟨between, rfl, hRest⟩
  · cases between with
    | nil =>
        rw [List.append_nil]
        exact ⟨rfl, (List.cons.inj hRest).2⟩
    | cons c between =>
        obtain ⟨rfl, rfl⟩ := List.cons.inj hRest
        exact absurd hSecond (not_divided hMark hFirst hFirst')
  · cases between with
    | nil =>
        rw [List.append_nil]
        exact ⟨rfl, (List.cons.inj hRest).2.symm⟩
    | cons c between =>
        obtain ⟨rfl, rfl⟩ := List.cons.inj hRest
        exact absurd hSecond' (not_divided hMark hFirst' hFirst)

end Sealed

/-- A text in which neither the mark nor a backslash stands is sealed. -/
theorem sealed_of_all {mark : Char} {text : List Char}
    (hText : text.all (fun c => c != mark && c != '\\') = true) : Sealed mark text := by
  induction text with
  | nil => exact .nil
  | cons c rest ih =>
      rw [List.all_cons, Bool.and_eq_true, Bool.and_eq_true, bne_iff_ne, bne_iff_ne] at hText
      exact .bare hText.1.1 hText.1.2 (ih hText.2)

/-- Takes one level of backslashes away. A backslash is dropped and the character behind it is kept,
whatever it is; a backslash with nothing behind it stays. -/
def unescape : List Char → List Char
  | '\\' :: c :: rest => c :: unescape rest
  | c :: rest => c :: unescape rest
  | [] => []

theorem unescape_cons {c : Char} (hSlash : c ≠ '\\') (rest : List Char) :
    unescape (c :: rest) = c :: unescape rest := by
  rw [unescape]
  rintro - - rfl
  exact absurd rfl hSlash

section Written

variable {special : Char → Bool}

/-- A character that is written as it is differs from every character that is not. -/
theorem ne_of_special {c d : Char} (hPlain : special c = false) (hSpecial : special d = true) :
    c ≠ d := by
  rintro rfl
  rw [hSpecial] at hPlain
  cases hPlain

variable (hSlash : special '\\' = true)

include hSlash

/-- What is written with backslashes is sealed against every character that is written so. -/
theorem sealed_escapeWhere {mark : Char} (hMark : special mark = true) (s : String) :
    Sealed mark (escapeWhere special s).toList := by
  rw [escapeWhere, String.toList_ofList]
  induction s.toList with
  | nil => exact .nil
  | cons c rest ih =>
      rw [List.flatMap_cons]
      cases hSpecial : special c with
      | true => exact .escaped c ih
      | false => exact .bare (ne_of_special hSpecial hMark) (ne_of_special hSpecial hSlash) ih

/-- What is written with backslashes can be read back: one level of them is taken away. -/
theorem unescape_escapeWhere (s : String) : unescape (escapeWhere special s).toList = s.toList := by
  rw [escapeWhere, String.toList_ofList]
  induction s.toList with
  | nil => rfl
  | cons c rest ih =>
      rw [List.flatMap_cons]
      cases hSpecial : special c with
      | true => rw [if_pos rfl, List.cons_append, List.singleton_append, unescape, ih]
      | false =>
          have hBare := ne_of_special hSpecial hSlash
          rw [if_neg Bool.false_ne_true, List.singleton_append, unescape_cons hBare, ih]

theorem escapeWhere_injective : Function.Injective (escapeWhere special) := by
  intro s s' hSame
  rw [← String.toList_inj, ← unescape_escapeWhere hSlash s, hSame, unescape_escapeWhere hSlash s']

end Written

/-- Backslashes can be written before the characters of one class and then before those of another, if
the second pass leaves alone what the first has written: the backslashes and what stands behind them. -/
theorem escapeWhere_escapeWhere {first second : Char → Bool} (hSlash : second '\\' = false)
    (hApart : ∀ c, first c = true → second c = false) (s : String) :
    escapeWhere second (escapeWhere first s) = escapeWhere (fun c => first c || second c) s := by
  rw [escapeWhere, escapeWhere, escapeWhere, String.toList_ofList, List.flatMap_assoc]
  congr 2
  funext c
  cases hFirst : first c with
  | true => simp [hSlash, hApart c hFirst]
  | false => simp

/-- A text is escaped in two passes, the backslashes first. -/
theorem escape_eq_in_turn (s : String) :
    escape s = escapeWhere (· == '"') (escapeWhere (· == '\\') s) := by
  rw [escapeWhere_escapeWhere rfl (by simp), escape]
  congr 1
  funext c
  exact Bool.or_comm _ _

theorem escape_injective : Function.Injective escape :=
  escapeWhere_injective rfl

theorem escapeField_injective (keepBars : Bool) : Function.Injective (escapeField keepBars) :=
  escapeWhere_injective (by cases keepBars <;> rfl)

theorem sealed_escape (s : String) : Sealed '"' (escape s).toList :=
  sealed_escapeWhere rfl rfl s

theorem sealed_escapeField (keepBars : Bool) (s : String) :
    Sealed '"' (escapeField keepBars s).toList :=
  sealed_escapeWhere (by cases keepBars <;> rfl) (by cases keepBars <;> rfl) s

/-- A field in which bars are not kept holds no bare bar. -/
theorem sealed_bar_escapeField (s : String) : Sealed '|' (escapeField false s).toList :=
  sealed_escapeWhere rfl rfl s

end PacketFlow.Dot
