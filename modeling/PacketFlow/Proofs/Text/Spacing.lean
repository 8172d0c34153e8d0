import Mathlib.Data.List.DropRight
import PacketFlow.Proofs.Text.Lines

/-!
White space that does not matter. Trimming removes it at the ends of a text, and to the words of a
text it is all the same how much of it stands between them. A text whose first character is none can
be told by its words from where it begins.
-/
namespace PacketFlow.Text

/-- A text of white space alone. It may be empty. -/
def IsGap (s : String) : Prop :=
  ∀ c ∈ s.toList, isBlank c = true

instance (s : String) : Decidable (IsGap s) :=
  List.decidableBAll (fun c => isBlank c = true) s.toList

section Ends

variable {gap cs : List Char} (hGap : ∀ c ∈ gap, isBlank c = true)

include hGap

theorem trimStart_gap_append : trimStart (gap ++ cs) = trimStart cs :=
  List.dropWhile_append_of_pos hGap

theorem trimEnd_append_gap : trimEnd (cs ++ gap) = trimEnd cs := by
  have hReverse : ∀ c ∈ gap.reverse, isBlank c = true :=
    fun c hMem => hGap c (List.mem_reverse.1 hMem)
  rw [trimEnd, List.reverse_append, trimStart_gap_append hReverse, trimEnd]

/-- What is trimmed at the start is the same whether or not there is a gap at the end, unless there is
nothing else. -/
theorem trimEnd_trimStart_append_gap :
    trimEnd (trimStart (cs ++ gap)) = trimEnd (trimStart cs) := by
  cases hRest : trimStart cs with
  | nil =>
      have hBlank : ∀ c ∈ cs, isBlank c = true := List.dropWhile_eq_nil_iff.1 hRest
      have hNone : trimStart gap = [] := List.dropWhile_eq_nil_iff.2 hGap
      rw [trimStart_gap_append hBlank, hNone]
  | cons c rest =>
      have hLonger : trimStart (cs ++ gap) = trimStart cs ++ gap := by
        rw [trimStart, List.dropWhile_append, ← trimStart, if_neg (by simp [hRest])]
      rw [hLonger, hRest, trimEnd_append_gap hGap]

theorem wordLists_gap_append : wordLists (gap ++ cs) = wordLists cs := by
  induction gap with
  | nil => rfl
  | cons blank gap ih =>
      obtain ⟨hBlank, hRest⟩ := List.forall_mem_cons.1 hGap
      have hNone : wordLists [] = [] := by simp [wordLists]
      have hSplit := wordLists_append_cons [] (gap ++ cs) hBlank
      rw [List.nil_append, hNone, List.nil_append] at hSplit
      rw [List.cons_append, hSplit, ih hRest]

theorem wordLists_append_gap_append (ds : List Char) (hSome : gap ≠ []) :
    wordLists (cs ++ gap ++ ds) = wordLists cs ++ wordLists ds := by
  obtain ⟨blank, rest, rfl⟩ := List.exists_cons_of_ne_nil hSome
  obtain ⟨hBlank, hRest⟩ := List.forall_mem_cons.1 hGap
  rw [List.append_assoc, List.cons_append, wordLists_append_cons _ _ hBlank,
    wordLists_gap_append hRest]

theorem wordLists_append_gap : wordLists (cs ++ gap) = wordLists cs := by
  by_cases hSome : gap = []
  · rw [hSome, List.append_nil]
  · rw [← List.append_nil (cs ++ gap), wordLists_append_gap_append hGap [] hSome]
    simp [wordLists]

end Ends

/-- Trimming removes the white space at the ends, whatever it is. -/
theorem trim_gaps {before after : String} (hBefore : IsGap before) (hAfter : IsGap after)
    (core : String) : trim (before ++ core ++ after) = trim core := by
  rw [trim, String.toList_append, String.toList_append, List.append_assoc,
    trimStart_gap_append hBefore, trimEnd_trimStart_append_gap hAfter, trim]

theorem words_gap {gap : String} (hGap : IsGap gap) (hSome : gap ≠ "") (front rest : String) :
    words (front ++ gap ++ rest) = words front ++ words rest := by
  have hChars : gap.toList ≠ [] := fun hNil => hSome (String.toList_eq_nil_iff.1 hNil)
  rw [words, String.toList_append, String.toList_append, wordLists_append_gap_append hGap _ hChars,
    List.map_append, words, words]

theorem exists_trimEnd_append_gap (cs : List Char) :
    ∃ gap, cs = trimEnd cs ++ gap ∧ ∀ c ∈ gap, isBlank c = true :=
  ⟨cs.rtakeWhile isBlank, List.rdropWhile_append_rtakeWhile.symm,
    fun _ hMem => List.mem_rtakeWhile_imp hMem⟩

/-- When all characters of a kind have been removed at both ends of a text, it begins with none. -/
theorem head?_rdropWhile_dropWhile {p : Char → Bool} {cs : List Char} {c : Char}
    (hFirst : ((cs.dropWhile p).rdropWhile p).head? = some c) : p c = false := by
  have hHead := List.head?_dropWhile_not p cs
  have hSplit : (cs.dropWhile p).rdropWhile p ++ (cs.dropWhile p).rtakeWhile p = cs.dropWhile p :=
    List.rdropWhile_append_rtakeWhile
  rw [← hSplit, List.head?_append, hFirst, Option.some_or] at hHead
  exact hHead

/-- A trimmed text begins with no white space. -/
theorem isBlank_head_trim (s : String) {c : Char} (hFirst : (trim s).toList.head? = some c) :
    isBlank c = false := by
  rw [trim, String.toList_ofList] at hFirst
  exact head?_rdropWhile_dropWhile hFirst

theorem trim_trim (s : String) : trim (trim s) = trim s :=
  trim_eq_self (fun _ hFirst => isBlank_head_trim s hFirst) fun _ hLast => isBlank_getLast_trim s hLast

/-- Trimming removes no words. -/
theorem words_trim (s : String) : words (trim s) = words s := by
  have hStart (cs : List Char) : wordLists (trimStart cs) = wordLists cs := by
    have hGap : ∀ c ∈ cs.takeWhile isBlank, isBlank c = true :=
      fun c hMem => List.mem_takeWhile_imp hMem
    rw [trimStart, ← wordLists_gap_append hGap, List.takeWhile_append_dropWhile]
  have hEnd (cs : List Char) : wordLists (trimEnd cs) = wordLists cs := by
    obtain ⟨gap, hText, hGap⟩ := exists_trimEnd_append_gap cs
    rw [← wordLists_append_gap hGap, ← hText]
  rw [words, trim, String.toList_ofList, hEnd, hStart, words]

/-- A text that begins with no white space begins with its first word. -/
theorem exists_words_eq_cons {s : String} {c : Char} {cs : List Char} (hText : s.toList = c :: cs)
    (hFirst : isBlank c = false) :
    ∃ first rest, words s = first :: words (.ofList rest) ∧ s.toList = first.toList ++ rest ∧
      ∀ d ∈ rest.head?, isBlank d = true := by
  obtain hNone | ⟨front, blank, rest, hSplit, hBlank, hFront⟩ := unbroken_or_first_blank s.toList
  · have hWord : IsWord s := ⟨fun hEmpty => by simp [hEmpty] at hText, hNone⟩
    refine ⟨s, [], ?_, (List.append_nil _).symm, fun d hMem => by cases hMem⟩
    rw [hWord.words_eq, String.ofList_nil, words_empty]
  · have hWord : IsWord (.ofList front) := by
      refine ⟨fun hEmpty => ?_, by rwa [String.toList_ofList]⟩
      rw [String.ofList_eq_empty_iff.1 hEmpty, hText, List.nil_append, List.cons.injEq] at hSplit
      rw [← hSplit.1, hFirst] at hBlank
      cases hBlank
    refine ⟨.ofList front, blank :: rest, ?_, by rwa [String.toList_ofList], fun d hMem => ?_⟩
    · have hGap : ∀ c ∈ [blank], isBlank c = true := List.forall_mem_singleton.2 hBlank
      rw [words_of_toList_eq hSplit hBlank, hWord.words_eq, List.singleton_append]
      congr 1
      rw [words, words, String.toList_ofList, String.toList_ofList]
      exact congrArg _ (wordLists_gap_append hGap).symm
    · obtain rfl := Option.some.inj hMem
      exact hBlank

/-- A text begins with a word if and only if its first word does, provided that there is no white space
in front. -/
theorem isPrefix_iff_words {s mark : String} (hMark : IsWord mark)
    (hStart : ∀ c ∈ s.toList.head?, isBlank c = false) :
    mark.toList <+: s.toList ↔ ∃ first ∈ (words s).head?, mark.toList <+: first.toList := by
  have hSome : mark.toList ≠ [] := fun hNil => hMark.ne_empty (String.toList_eq_nil_iff.1 hNil)
  cases hText : s.toList with
  | nil =>
      have hNone : words s = [] := by rw [String.toList_eq_nil_iff.1 hText, words_empty]
      simp [hNone, hSome]
  | cons c cs =>
      obtain ⟨first, rest, hWords, hSplit, hRest⟩ :=
        exists_words_eq_cons hText (hStart c (by rw [hText]; rfl))
      rw [← hText, hSplit, hWords, List.head?_cons]
      constructor
      · intro hBegins
        refine ⟨first, rfl, ?_⟩
        -- A mark that went on behind the first word would have white space in it.
        rcases List.prefix_or_prefix_of_prefix hBegins (List.prefix_append _ _) with hPrefix | hPrefix
        · exact hPrefix
        · obtain ⟨more, hMore⟩ := hPrefix
          cases more with
          | nil =>
              rw [List.append_nil] at hMore
              exact hMore ▸ List.prefix_refl _
          | cons d more =>
              rw [← hMore, List.prefix_append_right_inj] at hBegins
              obtain ⟨others, rfl⟩ := hBegins
              have hUnbroken := hMark.unbroken d (by simp [← hMore])
              rw [hRest d rfl] at hUnbroken
              cases hUnbroken
      · rintro ⟨word, hWord, hPrefix⟩
        obtain rfl := Option.some.inj hWord
        exact hPrefix.trans (List.prefix_append _ _)

/-- Behind a first character that is no white space, texts of the same words have the same words. -/
theorem words_eq_of_cons {s t : String} {c : Char} {cs ds : List Char} (hFirst : isBlank c = false)
    (hText : s.toList = c :: cs) (hText' : t.toList = c :: ds) (hSame : words s = words t) :
    words (.ofList cs) = words (.ofList ds) := by
  obtain ⟨piece, rest, hSplit⟩ := List.exists_cons_of_ne_nil (List.splitOnP_ne_nil isBlank cs)
  obtain ⟨piece', rest', hSplit'⟩ := List.exists_cons_of_ne_nil (List.splitOnP_ne_nil isBlank ds)
  have hLists : wordLists (c :: cs) = wordLists (c :: ds) := by
    rw [words, words, hText, hText'] at hSame
    exact List.map_injective_iff.2 (fun _ _ => String.ofList_inj.1) hSame
  have hHead {piece : List Char} {rest : List (List Char)} {cs : List Char}
      (hSplit : cs.splitOnP isBlank = piece :: rest) :
      wordLists (c :: cs) = (c :: piece) :: rest.filter (· ≠ []) := by
    simp [wordLists, List.splitOnP_cons_eq_if_modifyHead, hFirst, hSplit]
  rw [hHead hSplit, hHead hSplit', List.cons.injEq, List.cons.injEq] at hLists
  rw [words, words, String.toList_ofList, String.toList_ofList, wordLists, wordLists, hSplit,
    hSplit', hLists.1.2, List.filter_cons, List.filter_cons, hLists.2]

/-- The text with a carriage return before every line feed. -/
def withReturns (text : String) : String :=
  .ofList (text.toList.flatMap fun c => if c = '\n' then ['\r', '\n'] else [c])

/-- The pieces between line feeds get carriage returns at their ends, but for the last piece. -/
theorem splitOnP_withReturns (cs : List Char) :
    (cs.flatMap fun c => if c = '\n' then ['\r', '\n'] else [c]).splitOnP (· == '\n') =
      (cs.splitOnP (· == '\n')).dropLast.map (· ++ ['\r']) ++
        (cs.splitOnP (· == '\n')).getLast?.toList := by
  induction cs with
  | nil => simp
  | cons c cs ih =>
      obtain ⟨piece, rest, hSplit⟩ :=
        List.exists_cons_of_ne_nil (List.splitOnP_ne_nil (· == '\n') cs)
      rw [hSplit] at ih
      rw [List.flatMap_cons, List.splitOnP_cons_eq_if_modifyHead]
      by_cases hBreak : c = '\n'
      · subst hBreak
        simp [List.splitOnP_cons_eq_if_modifyHead, ih, hSplit]
      · rw [if_neg hBreak, if_neg (by simpa using hBreak), hSplit]
        cases rest <;> simp_all [List.splitOnP_cons_eq_if_modifyHead]

theorem trim_dropReturn (line : List Char) :
    trim (.ofList (dropReturn line)) = trim (.ofList line) := by
  rw [dropReturn]
  split
  next hLast =>
    obtain ⟨front, rfl⟩ := List.getLast?_eq_some_iff.1 hLast
    have hGap : IsGap "\r" := by decide
    have hNone : IsGap "" := by decide
    have hTrim := trim_gaps hNone hGap (.ofList front)
    rw [List.dropLast_concat, ← hTrim]
    simp [String.ofList_append]
  next => rfl

/-- Carriage returns before line feeds make no difference to the lines but at their ends. -/
theorem map_trim_lines_withReturns (text : String) :
    (lines (withReturns text)).map trim = (lines text).map trim := by
  have hDrop (piece : List Char) : dropReturn (piece ++ ['\r']) = piece := by simp [dropReturn]
  rw [lines, lines, withReturns, String.toList_ofList, lineLists, lineLists, splitOnP_withReturns]
  obtain hNil | ⟨front, last, hPieces⟩ := List.eq_nil_or_concat' (text.toList.splitOnP (· == '\n'))
  · exact absurd hNil (List.splitOnP_ne_nil _ _)
  · simp [hPieces, hDrop, trim_dropReturn, Function.comp_def]

end PacketFlow.Text
