import Mathlib.Data.List.Basic
import PacketFlow.Text.Blank
import PacketFlow.Text.Fold

/-!
Words and the texts that are made of them. Cutting a text into words undoes the joining of words by
single blanks, and a text whose ends are no white space is left alone by trimming.
-/
namespace PacketFlow.Text

/-- A text that is one word. -/
structure IsWord (s : String) : Prop where
  ne_empty : s ≠ ""
  unbroken : ∀ c ∈ s.toList, isBlank c = false

instance (s : String) : Decidable (IsWord s) :=
  decidable_of_iff (s ≠ "" ∧ s.toList.all (!isBlank ·) = true)
    ⟨fun h => ⟨h.1, by simpa using h.2⟩, fun h => ⟨h.ne_empty, by simpa using h.unbroken⟩⟩

theorem isBlank_toLower (c : Char) : isBlank c.toLower = isBlank c := by
  by_cases hCapital : c.val ≥ 'A'.val ∧ c.val ≤ 'Z'.val
  · have hAll : ∀ code < 128, isBlank (Char.ofNat code).toLower = isBlank (Char.ofNat code) := by
      decide
    have hSmall : c.toNat ≤ 'Z'.toNat := UInt32.le_iff_toNat_le.1 hCapital.2
    rw [← Char.ofNat_toNat c]
    exact hAll c.toNat (Nat.lt_of_le_of_lt hSmall (by decide))
  · have hSame : c.toLower = c := dif_neg hCapital
    rw [hSame]

/-- Whether a name is a word does not depend on the case of its letters. -/
theorem IsWord.of_fold_eq {s t : String} (hName : fold s = fold t) (hWord : IsWord s) : IsWord t := by
  have hLetters : s.toList.map Char.toLower = t.toList.map Char.toLower := by
    simpa [fold] using congrArg String.toList hName
  constructor
  · rintro rfl
    exact hWord.ne_empty (String.toList_eq_nil_iff.1 (by simpa using hLetters))
  · intro c hMem
    have hSmall : c.toLower ∈ s.toList.map Char.toLower := hLetters ▸ List.mem_map_of_mem hMem
    obtain ⟨d, hLetter, hSame⟩ := List.mem_map.1 hSmall
    rw [← isBlank_toLower, ← hSame, isBlank_toLower]
    exact hWord.unbroken d hLetter

theorem wordLists_append_cons (cs ds : List Char) {blank : Char} (hBlank : isBlank blank = true) :
    wordLists (cs ++ blank :: ds) = wordLists cs ++ wordLists ds := by
  rw [wordLists, List.splitOnP_append_cons cs ds hBlank, List.filter_append, wordLists, wordLists]

/-- Of a list that has a mark in it, the parts before and after the last mark are told from the
whole. -/
theorem append_cons_inj_of_not_mem {α : Type} {front front' last last' : List α} {mark : α}
    (hLast : mark ∉ last) (hLast' : mark ∉ last')
    (hSame : front ++ mark :: last = front' ++ mark :: last') : front = front' ∧ last = last' := by
  have hNone {between last last' : List α} (hLast : mark ∉ last)
      (hRest : mark :: last = between ++ mark :: last') : between = [] ∧ last = last' := by
    cases between with
    | nil => exact ⟨rfl, (List.cons.inj hRest).2⟩
    | cons a between =>
        have hMem : mark ∈ last := by simp [(List.cons.inj hRest).2]
        exact absurd hMem hLast
  rcases List.append_eq_append_iff.1 hSame with ⟨between, rfl, hRest⟩ | ⟨between, rfl, hRest⟩
  · obtain ⟨rfl, rfl⟩ := hNone hLast hRest
    exact ⟨(List.append_nil _).symm, rfl⟩
  · obtain ⟨rfl, rfl⟩ := hNone hLast' hRest
    exact ⟨List.append_nil _, rfl⟩

/-- A text that ends in a word after a blank is told apart there. -/
theorem IsWord.append_blank_inj {s t v w : String} (hFirst : IsWord v) (hSecond : IsWord w)
    (hSame : s ++ " " ++ v = t ++ " " ++ w) : s = t ∧ v = w := by
  have hNone {w : String} (hWord : IsWord w) : ' ' ∉ w.toList :=
    fun hMem => absurd (hWord.unbroken _ hMem) (by decide)
  have hChars : s.toList ++ ' ' :: v.toList = t.toList ++ ' ' :: w.toList := by
    simpa using congrArg String.toList hSame
  obtain ⟨hFronts, hWords⟩ := append_cons_inj_of_not_mem (hNone hFirst) (hNone hSecond) hChars
  exact ⟨String.toList_inj.1 hFronts, String.toList_inj.1 hWords⟩

theorem isDigit_of_mem_toString {n : Nat} {c : Char} (hMem : c ∈ (toString n).toList) :
    c.isDigit = true := by
  rw [Nat.toString_eq_repr, Nat.toList_repr] at hMem
  exact Nat.isDigit_of_mem_toDigits (by decide) (by decide) hMem

theorem toString_injective : Function.Injective (toString : Nat → String) := by
  intro m n hSame
  simp only [Nat.toString_eq_repr, ← String.toList_inj, Nat.toList_repr] at hSame
  have hRead := congrArg (Nat.ofDigitChars 10 · 0) hSame
  simpa using hRead

/-- A number is a word. -/
theorem isWord_toString (n : Nat) : IsWord (toString n) where
  ne_empty := by
    rw [Nat.toString_eq_repr]
    exact Nat.repr_ne_empty
  unbroken c hMem := by
    have hDigit := isDigit_of_mem_toString hMem
    have hAll : ∀ code < 58, 48 ≤ code → blankCodes.contains code = false := by decide
    simp only [Char.isDigit, Bool.and_eq_true, decide_eq_true_eq, ge_iff_le] at hDigit
    exact hAll c.toNat (Nat.lt_succ_of_le hDigit.2) hDigit.1

theorem words_append_blank (s t : String) : words (s ++ " " ++ t) = words s ++ words t := by
  have hSplit : (s ++ " " ++ t).toList = s.toList ++ ' ' :: t.toList := by simp
  rw [words, hSplit, wordLists_append_cons _ _ (by decide), List.map_append, words, words]

theorem words_empty : words "" = [] := by
  simp [words, wordLists]

theorem IsWord.words_eq {s : String} (hWord : IsWord s) : words s = [s] := by
  have hSome : s.toList ≠ [] := fun hNil => hWord.ne_empty (String.toList_eq_nil_iff.1 hNil)
  rw [words, wordLists, List.splitOnP_eq_singleton hWord.unbroken]
  simp [hSome]

/-- The words of pieces joined by blanks are the words of the pieces. -/
theorem words_intercalate (pieces : List String) :
    words (" ".intercalate pieces) = pieces.flatMap words := by
  induction pieces with
  | nil => rw [String.intercalate_nil, words_empty, List.flatMap_nil]
  | cons piece rest ih =>
      cases rest with
      | nil => simp
      | cons next rest =>
          rw [String.intercalate_cons_cons, words_append_blank, ih, List.flatMap_cons]
          rfl

theorem IsWord.append {s t : String} (hFirst : IsWord s) (hSecond : IsWord t) : IsWord (s ++ t) where
  ne_empty hEmpty := by
    have hNil := congrArg String.toList hEmpty
    rw [String.toList_append, String.toList_empty, List.append_eq_nil_iff] at hNil
    exact hFirst.ne_empty (String.toList_eq_nil_iff.1 hNil.1)
  unbroken c hMem := by
    rw [String.toList_append, List.mem_append] at hMem
    exact hMem.elim (hFirst.unbroken c) (hSecond.unbroken c)

theorem flatMap_words_of_isWord {ws : List String} (hWords : ∀ w ∈ ws, IsWord w) :
    ws.flatMap words = ws := by
  induction ws with
  | nil => rfl
  | cons w ws ih =>
      obtain ⟨hWord, hRest⟩ := List.forall_mem_cons.1 hWords
      rw [List.flatMap_cons, hWord.words_eq, ih hRest, List.singleton_append]

/-- Cutting a text into words undoes the joining of words by blanks. -/
theorem words_intercalate_of_isWord {ws : List String} (hWords : ∀ w ∈ ws, IsWord w) :
    words (" ".intercalate ws) = ws := by
  rw [words_intercalate, flatMap_words_of_isWord hWords]

theorem isWord_of_mem_words {s w : String} (hMem : w ∈ words s) : IsWord w := by
  have hPieces (cs : List Char) :
      ∀ piece ∈ cs.splitOnP isBlank, ∀ c ∈ piece, isBlank c = false := by
    induction cs with
    | nil => simp
    | cons c cs ih =>
        rw [List.splitOnP_cons_eq_if_modifyHead]
        split
        · rw [List.forall_mem_cons]
          exact ⟨fun _ hMem => absurd hMem List.not_mem_nil, ih⟩
        next hBlank =>
          obtain ⟨piece, rest, hSplit⟩ := List.exists_cons_of_ne_nil (List.splitOnP_ne_nil isBlank cs)
          rw [hSplit, List.forall_mem_cons] at ih
          rw [hSplit, List.modifyHead_cons, List.forall_mem_cons, List.forall_mem_cons]
          exact ⟨⟨Bool.eq_false_iff.2 hBlank, ih.1⟩, ih.2⟩
  obtain ⟨cs, hList, rfl⟩ := List.mem_map.1 hMem
  obtain ⟨hPiece, hSome⟩ := List.mem_filter.1 hList
  constructor
  · intro hEmpty
    rw [String.ofList_eq_empty_iff] at hEmpty
    simp [hEmpty] at hSome
  · rw [String.toList_ofList]
    exact hPieces _ cs hPiece

theorem not_mem_of_mem_words {c : Char} {s w : String} (hChar : c ∉ s.toList)
    (hMem : w ∈ words s) : c ∉ w.toList := by
  have hPieces (cs : List Char) (hNone : c ∉ cs) : ∀ piece ∈ cs.splitOnP isBlank, c ∉ piece := by
    induction cs with
    | nil => simp
    | cons d cs ih =>
        obtain ⟨hHead, hTail⟩ : c ≠ d ∧ c ∉ cs := by simpa using hNone
        rw [List.splitOnP_cons_eq_if_modifyHead]
        split
        · rw [List.forall_mem_cons]
          exact ⟨List.not_mem_nil, ih hTail⟩
        · obtain ⟨piece, rest, hSplit⟩ := List.exists_cons_of_ne_nil (List.splitOnP_ne_nil isBlank cs)
          rw [hSplit, List.forall_mem_cons] at ih
          rw [hSplit, List.modifyHead_cons, List.forall_mem_cons]
          exact ⟨List.not_mem_cons_of_ne_of_not_mem hHead (ih hTail).1, (ih hTail).2⟩
  obtain ⟨cs, hList, rfl⟩ := List.mem_map.1 hMem
  rw [String.toList_ofList]
  exact hPieces _ hChar cs (List.mem_filter.1 hList).1

section Split

variable {s w : String} {cs ds : List Char} {blank : Char}

theorem words_of_toList_eq (hText : s.toList = cs ++ blank :: ds) (hBlank : isBlank blank = true) :
    words s = words (.ofList cs) ++ words (.ofList ds) := by
  simp only [words, hText, wordLists_append_cons _ _ hBlank, List.map_append, String.toList_ofList]

/-- A text is unbroken, or it has a first white space. -/
theorem unbroken_or_first_blank (cs : List Char) :
    (∀ c ∈ cs, isBlank c = false) ∨ ∃ front blank rest, cs = front ++ blank :: rest ∧
      isBlank blank = true ∧ ∀ c ∈ front, isBlank c = false := by
  cases hFind : cs.find? isBlank with
  | none => exact Or.inl (by simpa using hFind)
  | some blank =>
      obtain ⟨hBlank, front, rest, rfl, hFront⟩ := List.find?_eq_some_iff_append.1 hFind
      exact Or.inr ⟨front, blank, rest, rfl, hBlank, by simpa using hFront⟩

/-- A text is unbroken, or it has a last white space. -/
theorem unbroken_or_last_blank (cs : List Char) :
    (∀ c ∈ cs, isBlank c = false) ∨ ∃ front blank rest, cs = front ++ blank :: rest ∧
      isBlank blank = true ∧ ∀ c ∈ rest, isBlank c = false := by
  obtain hNone | ⟨front, blank, rest, hText, hBlank, hFront⟩ := unbroken_or_first_blank cs.reverse
  · exact Or.inl fun c hMem => hNone c (List.mem_reverse.2 hMem)
  · refine Or.inr ⟨rest.reverse, blank, front.reverse, ?_, hBlank, fun c hMem =>
      hFront c (List.mem_reverse.1 hMem)⟩
    rw [← List.reverse_reverse cs, hText]
    simp

theorem IsWord.append_left (hWord : IsWord w) (hUnbroken : ∀ c ∈ s.toList, isBlank c = false) :
    IsWord (s ++ w) := by
  by_cases hEmpty : s = ""
  · rwa [hEmpty, String.empty_append]
  · exact IsWord.append ⟨hEmpty, hUnbroken⟩ hWord

theorem eq_empty_or_words_eq (hUnbroken : ∀ c ∈ s.toList, isBlank c = false) :
    s = "" ∨ words s = [s] := by
  by_cases hEmpty : s = ""
  · exact Or.inl hEmpty
  · exact Or.inr (IsWord.mk hEmpty hUnbroken).words_eq

/-- A word that is put behind a text becomes the end of the text's last word, or a word by itself. -/
theorem exists_words_append (s : String) (hWord : IsWord w) :
    ∃ front last, words (s ++ w) = front ++ [last ++ w] ∧ words s = front ++ words last ∧
      ∀ c ∈ last.toList, isBlank c = false := by
  obtain hNone | ⟨cs, blank, ds, hText, hBlank, hLast⟩ := unbroken_or_last_blank s.toList
  · exact ⟨[], s, (hWord.append_left hNone).words_eq, rfl, hNone⟩
  · have hUnbroken : ∀ c ∈ (String.ofList ds).toList, isBlank c = false := by
      rwa [String.toList_ofList]
    refine ⟨words (.ofList cs), .ofList ds, ?_, words_of_toList_eq hText hBlank, hUnbroken⟩
    have hLonger : (s ++ w).toList = cs ++ blank :: (ds ++ w.toList) := by
      rw [String.toList_append, hText, List.append_assoc, List.cons_append]
    rw [words_of_toList_eq hLonger hBlank, String.ofList_append, String.ofList_toList,
      (hWord.append_left hUnbroken).words_eq]

end Split

/-- Pieces whose words are divided by single blanks can be joined word by word. -/
theorem intercalate_flatMap_words {pieces : List String}
    (hPieces : ∀ piece ∈ pieces, words piece ≠ [] ∧ " ".intercalate (words piece) = piece) :
    " ".intercalate (pieces.flatMap words) = " ".intercalate pieces := by
  induction pieces with
  | nil => rfl
  | cons piece rest ih =>
      obtain ⟨⟨hSome, hPiece⟩, hRest⟩ := List.forall_mem_cons.1 hPieces
      cases rest with
      | nil => rw [List.flatMap_singleton, String.intercalate_singleton, hPiece]
      | cons next rest =>
          have hNext : (next :: rest).flatMap words ≠ [] := by
            rw [List.flatMap_cons]
            exact List.append_ne_nil_of_left_ne_nil (List.forall_mem_cons.1 hRest).1.1 _
          rw [List.flatMap_cons, String.intercalate_append_of_ne_nil hSome hNext, hPiece, ih hRest,
            String.intercalate_cons_cons]

theorem isBlank_getLast_trim (s : String) {c : Char} (hLast : (trim s).toList.getLast? = some c) :
    isBlank c = false := by
  rw [trim, String.toList_ofList, trimEnd, List.getLast?_reverse, trimStart] at hLast
  have hHead := List.head?_dropWhile_not isBlank (trimStart s.toList).reverse
  rw [hLast] at hHead
  simpa using hHead

/-- Trimming leaves a text alone that neither begins nor ends with white space. -/
theorem trim_eq_self {s : String} (hFirst : ∀ c, s.toList.head? = some c → isBlank c = false)
    (hLast : ∀ c, s.toList.getLast? = some c → isBlank c = false) : trim s = s := by
  have hDrop (cs : List Char) (hHead : ∀ c, cs.head? = some c → isBlank c = false) :
      cs.dropWhile isBlank = cs := by
    cases cs with
    | nil => rfl
    | cons c cs => rw [List.dropWhile_cons_of_neg (by simp [hHead c rfl])]
  rw [trim, trimStart, hDrop _ hFirst, trimEnd, trimStart, hDrop _ (by simpa using hLast),
    List.reverse_reverse, String.ofList_toList]

/-- A text that neither begins nor ends with white space, and is not empty. -/
structure IsTrimmed (s : String) : Prop where
  ne_empty : s ≠ ""
  first {c : Char} (hFirst : s.toList.head? = some c) : isBlank c = false
  last {c : Char} (hLast : s.toList.getLast? = some c) : isBlank c = false

theorem IsWord.isTrimmed {s : String} (hWord : IsWord s) : IsTrimmed s where
  ne_empty := hWord.ne_empty
  first hFirst := hWord.unbroken _ (List.mem_of_head? hFirst)
  last hLast := hWord.unbroken _ (List.mem_of_getLast? hLast)

/-- Pieces joined by blanks have nothing to be trimmed if the pieces have not. -/
theorem trim_intercalate {pieces : List String} (hPieces : ∀ piece ∈ pieces, IsTrimmed piece) :
    trim (" ".intercalate pieces) = " ".intercalate pieces := by
  have hSome {piece : String} (hMem : piece ∈ pieces) : piece.toList ≠ [] :=
    fun hNil => (hPieces piece hMem).ne_empty (String.toList_eq_nil_iff.1 hNil)
  refine trim_eq_self (fun c hFirst => ?_) fun c hLast => ?_
  · obtain _ | ⟨first, rest⟩ := pieces
    · simp at hFirst
    · have hMem := List.mem_cons_self (a := first) (l := rest)
      obtain ⟨tail, hText⟩ : ∃ tail, (" ".intercalate (first :: rest)).toList =
          first.toList ++ tail := by
        cases rest with
        | nil => exact ⟨[], by simp⟩
        | cons next rest => exact ⟨_, by rw [String.intercalate_cons_cons, String.append_assoc,
            String.toList_append]⟩
      rw [hText, List.head?_append_of_ne_nil _ (hSome hMem)] at hFirst
      exact (hPieces first hMem).first hFirst
  · obtain rfl | ⟨front, last, rfl⟩ := pieces.eq_nil_or_concat
    · simp at hLast
    · rw [List.concat_eq_append] at hSome hPieces hLast
      have hMem : last ∈ front ++ [last] := List.mem_append_right _ (List.mem_singleton_self last)
      obtain ⟨start, hText⟩ : ∃ start, (" ".intercalate (front ++ [last])).toList =
          start ++ last.toList := by
        by_cases hFront : front = []
        · exact ⟨[], by simp [hFront]⟩
        · exact ⟨_, by rw [String.intercalate_append_of_ne_nil hFront (List.cons_ne_nil _ _),
            String.toList_append, String.intercalate_singleton]⟩
      rw [hText, List.getLast?_append_of_ne_nil _ (hSome hMem)] at hLast
      exact (hPieces last hMem).last hLast

theorem trim_intercalate_of_isWord {ws : List String} (hWords : ∀ w ∈ ws, IsWord w) :
    trim (" ".intercalate ws) = " ".intercalate ws :=
  trim_intercalate fun w hMem => (hWords w hMem).isTrimmed

theorem not_mem_intercalate {c : Char} (hBlank : c ≠ ' ') {ws : List String}
    (hWords : ∀ w ∈ ws, c ∉ w.toList) : c ∉ (" ".intercalate ws).toList := by
  induction ws with
  | nil => simp
  | cons w ws ih =>
      obtain ⟨hWord, hRest⟩ := List.forall_mem_cons.1 hWords
      cases ws with
      | nil => simpa using hWord
      | cons next ws =>
          have hTail := ih hRest
          rw [String.intercalate_cons_cons]
          simp only [String.toList_append, List.mem_append, not_or]
          exact ⟨⟨hWord, by simpa using hBlank⟩, hTail⟩

end PacketFlow.Text
