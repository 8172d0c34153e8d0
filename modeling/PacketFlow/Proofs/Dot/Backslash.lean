import Mathlib.Algebra.Ring.Parity
import Mathlib.Data.List.DropRight
import Mathlib.Data.List.Induction
import PacketFlow.Proofs.Dot.Reading

/-!
Runs of backslashes. In a run every second backslash is meant as text, so a character behind it is bare
if the run is of even length. A text is sealed against a mark if no mark stands bare in it and the run
at its end is of even length as well. Both hold of what is written with backslashes, and a character
that is written without one stands bare there as often as it stands in the text.
-/
namespace PacketFlow.Dot

section Runs

/-- How many backslashes a text ends with. -/
def slashesAtEnd (text : List Char) : Nat :=
  (text.rtakeWhile (· == '\\')).length

/-- A mark stands at a position of a text, and the run of backslashes before it is of even length. -/
def BareAt (mark : Char) (text : List Char) (i : Nat) : Prop :=
  text[i]? = some mark ∧ Even (slashesAtEnd (text.take i))

instance (mark : Char) (text : List Char) : DecidablePred (BareAt mark text) :=
  fun _ => inferInstanceAs (Decidable (_ ∧ _))

/-- How often a mark stands bare in a text. -/
def bareCount (mark : Char) (text : List Char) : Nat :=
  (List.range text.length).countP (BareAt mark text ·)

variable {text : List Char}

theorem slashesAtEnd_append_slash (text : List Char) :
    slashesAtEnd (text ++ ['\\']) = slashesAtEnd text + 1 := by
  rw [slashesAtEnd, List.rtakeWhile_concat_pos _ _ _ rfl, List.length_append]
  rfl

theorem slashesAtEnd_append_other {c : Char} (hOther : c ≠ '\\') (text : List Char) :
    slashesAtEnd (text ++ [c]) = 0 := by
  rw [slashesAtEnd, List.rtakeWhile_concat_neg _ _ _ (by simp [hOther]), List.length_nil]

theorem odd_slashesAtEnd (hEven : Even (slashesAtEnd text)) :
    Odd (slashesAtEnd (text ++ ['\\'])) := by
  rw [slashesAtEnd_append_slash]
  exact hEven.add_one

/-- A character behind a backslash leaves a run of even length, be it a backslash or not. -/
theorem even_slashesAtEnd_escaped (hEven : Even (slashesAtEnd text)) (c : Char) :
    Even (slashesAtEnd (text ++ ['\\', c])) := by
  rw [List.append_cons]
  by_cases hSlash : c = '\\'
  · rw [hSlash, slashesAtEnd_append_slash]
    exact (odd_slashesAtEnd hEven).add_one
  · rw [slashesAtEnd_append_other hSlash]
    exact Even.zero

theorem bareCount_append_singleton (mark c : Char) (text : List Char) :
    bareCount mark (text ++ [c]) =
      bareCount mark text + if c = mark ∧ Even (slashesAtEnd text) then 1 else 0 := by
  rw [bareCount, bareCount, List.length_append, List.length_singleton, List.range_succ,
    List.countP_append, List.countP_singleton]
  congr 1
  · apply List.countP_congr
    intro i hMem
    have hBefore := List.mem_range.1 hMem
    rw [decide_eq_true_iff, decide_eq_true_iff, BareAt, BareAt, List.getElem?_append_left hBefore,
      List.take_append_of_le_length hBefore.le]
  · simp [BareAt]

end Runs

section Sealed

variable {mark c : Char} {before rest text : List Char}

/-- In a text that stands behind another, no mark is bare, and the run at the end is of even length. -/
def ClearBehind (mark : Char) (before text : List Char) : Prop :=
  (∀ i, text[i]? = some mark → Odd (slashesAtEnd (before ++ text.take i))) ∧
    Even (slashesAtEnd (before ++ text))

theorem clearBehind_nil : ClearBehind mark before [] ↔ Even (slashesAtEnd before) := by
  simp [ClearBehind]

theorem clearBehind_cons : ClearBehind mark before (c :: rest) ↔
    (c = mark → Odd (slashesAtEnd before)) ∧ ClearBehind mark (before ++ [c]) rest := by
  rw [ClearBehind, ClearBehind, ← Nat.and_forall_add_one, and_assoc]
  simp

theorem sealed_iff_clearBehind (hMark : mark ≠ '\\') (hBefore : Even (slashesAtEnd before)) :
    Sealed mark text ↔ ClearBehind mark before text := by
  -- A backslash is read together with the character behind it, so the run that the text already read
  -- ends with stays of even length.
  induction text using unescape.induct generalizing before with
  | case1 c rest ih =>
      rw [Sealed.escaped_iff, ih (even_slashesAtEnd_escaped hBefore c), clearBehind_cons,
        clearBehind_cons, ← List.append_cons]
      simp [hMark.symm, odd_slashesAtEnd hBefore]
  | case2 c rest hNotEscaped ih =>
      rw [clearBehind_cons]
      by_cases hSlash : c = '\\'
      · have hNil : rest = [] := by
          cases rest with
          | nil => rfl
          | cons d others => exact (hNotEscaped d others hSlash rfl).elim
        rw [hSlash, hNil, clearBehind_nil]
        refine iff_of_false Sealed.not_singleton_slash fun hClear => ?_
        exact Nat.not_even_iff_odd.2 (odd_slashesAtEnd hBefore) hClear.2
      · have hEven : Even (slashesAtEnd (before ++ [c])) := by
          rw [slashesAtEnd_append_other hSlash]
          exact Even.zero
        have hNotOdd : ¬Odd (slashesAtEnd before) := Nat.not_odd_iff_even.2 hBefore
        rw [Sealed.cons_iff hSlash, ih hEven]
        simp [hNotOdd]
  | case3 =>
      rw [clearBehind_nil]
      exact iff_of_true .nil hBefore

/-- A text is sealed if and only if the run of backslashes before every mark in it is of odd length, and
the run at its end is of even length. -/
theorem sealed_iff (hMark : mark ≠ '\\') : Sealed mark text ↔
    (∀ i, text[i]? = some mark → Odd (slashesAtEnd (text.take i))) ∧ Even (slashesAtEnd text) :=
  sealed_iff_clearBehind hMark (show Even (slashesAtEnd []) from Even.zero)

end Sealed

section Written

variable {special : Char → Bool} (hSlash : special '\\' = true)

include hSlash

theorem not_bareAt_escapeWhere {mark : Char} (hMark : special mark = true ∧ mark ≠ '\\')
    (s : String) (i : Nat) : ¬BareAt mark (escapeWhere special s).toList i := by
  rintro ⟨hAt, hEven⟩
  have hOdd := ((sealed_iff hMark.2).1 (sealed_escapeWhere hSlash hMark.1 s)).1 i hAt
  exact Nat.not_even_iff_odd.2 hOdd hEven

variable (hQuote : special '"' = true)

include hQuote

theorem even_slashesAtEnd_escapeWhere (s : String) :
    Even (slashesAtEnd (escapeWhere special s).toList) :=
  ((sealed_iff (by decide)).1 (sealed_escapeWhere hSlash hQuote s)).2

/-- A character that is written as it is stands bare as often as it stands in the text. -/
theorem bareCount_escapeWhere {mark : Char} (hPlain : special mark = false) (s : String) :
    bareCount mark (escapeWhere special s).toList = s.toList.count mark := by
  obtain ⟨cs, rfl⟩ : ∃ cs, s = .ofList cs := ⟨s.toList, String.ofList_toList.symm⟩
  rw [String.toList_ofList]
  induction cs using List.reverseRecOn with
  | nil => rfl
  | append_singleton cs c ih =>
      have hEven := even_slashesAtEnd_escapeWhere hSlash hQuote (.ofList cs)
      have hWrite : (escapeWhere special (.ofList (cs ++ [c]))).toList =
          (escapeWhere special (.ofList cs)).toList ++ if special c then ['\\', c] else [c] := by
        simp [escapeWhere]
      rw [hWrite, List.count_append, ← ih]
      cases hSpecial : special c with
      | true =>
          rw [if_pos rfl, List.append_cons, bareCount_append_singleton, bareCount_append_singleton]
          simp [(ne_of_special hPlain hSlash).symm, (ne_of_special hPlain hSpecial).symm]
      | false =>
          rw [if_neg Bool.false_ne_true, bareCount_append_singleton]
          simp [hEven, List.count_singleton]

end Written

section Strings

/-- What is written shows a text between the quotes of a string. One level of backslashes taken away
gives the text, no quote is bare and the run at the end is of even length, so the string around it ends
at the closing quote. -/
structure Shows (written text : String) : Prop where
  unescape_eq : unescape written.toList = text.toList
  odd_before_quote : ∀ i, written.toList[i]? = some '"' →
    Odd (slashesAtEnd (written.toList.take i))
  even_at_end : Even (slashesAtEnd written.toList)
  tokensOf_eq : ∀ rest, tokensOf ((Value.quoted written).write.toList ++ rest) =
    .quoted written :: tokensOf rest

theorem shows_escapeWhere {special : Char → Bool} (hSlash : special '\\' = true)
    (hQuote : special '"' = true) (s : String) : Shows (escapeWhere special s) s := by
  have hSealed := sealed_escapeWhere hSlash hQuote s
  obtain ⟨hOdd, hEven⟩ := (sealed_iff (by decide)).1 hSealed
  exact ⟨unescape_escapeWhere hSlash s, hOdd, hEven, tokensOf_quoted hSealed⟩

/-- A text is shown by what is written of it in a string, by a pass for its backslashes and one for its
quotes, and by what is written of it in a field of a record. In a field no brace and no angle bracket is
bare. Bars are bare only if they are kept, and then there are as many as in the text. -/
theorem shows_escaped (s : String) :
    escape s = escapeWhere (· == '"') (escapeWhere (· == '\\') s) ∧
      Shows (escape s) s ∧ (∀ keepBars, Shows (escapeField keepBars s) s) ∧
      (∀ c ∈ ['\x7b', '\x7d', '<', '>'], ∀ keepBars i,
        ¬BareAt c (escapeField keepBars s).toList i) ∧
      (∀ i, ¬BareAt '|' (escapeField false s).toList i) ∧
      bareCount '|' (escapeField true s).toList = s.toList.count '|' := by
  refine ⟨escape_eq_in_turn s, shows_escapeWhere rfl rfl s, fun keepBars => ?_,
    fun c hMem keepBars => ?_, not_bareAt_escapeWhere rfl ⟨rfl, by decide⟩ s,
    bareCount_escapeWhere rfl rfl rfl s⟩
  · exact shows_escapeWhere (by cases keepBars <;> rfl) (by cases keepBars <;> rfl) s
  · refine not_bareAt_escapeWhere (by cases keepBars <;> rfl) ?_ s
    simp only [List.mem_cons, List.not_mem_nil, or_false] at hMem
    rcases hMem with rfl | rfl | rfl | rfl <;> exact ⟨by cases keepBars <;> rfl, by decide⟩

example : escapeField true "a\\|\"b|" = "a\\\\|\\\"b|" ∧
    bareCount '|' (escapeField true "a\\|\"b|").toList = 2 := by
  decide

end Strings

end PacketFlow.Dot
