import PacketFlow.Dump.Directive
import PacketFlow.Proofs.Text.Words

/-!
What the reader of rule lines does from word to word. A flag begins a new pair wherever no quoted run
is open, and a quoted run completes the value that it stands in. Nothing is read but the words of the
line. A value is written as one word, or as a quoted run of words.
-/
namespace PacketFlow.Dump

open Argument

/-- Words that are taken for one value: a word that begins neither with a dash nor with a double
quote, or words that are quoted from the first to the last and not closed before. -/
inductive IsValue : List String → Prop
  | plain {word : String} (hFlag : isFlagWord word = false) (hQuote : opensQuote word = false) :
      IsValue [word]
  | quotedWord {word : String} (hOpens : opensQuote word = true) (hCloses : closesQuote word = true) :
      IsValue [word]
  | quotedRun {first last : String} {between : List String} (hOpens : opensQuote first = true)
      (hFirst : closesQuote first = false) (hBetween : ∀ word ∈ between, closesQuote word = false)
      (hCloses : closesQuote last = true) : IsValue (first :: (between ++ [last]))

theorem isFlagWord_of_opensQuote {word : String} (hOpens : opensQuote word = true) :
    isFlagWord word = false := by
  have hHead : word.toList.head? = some '"' := by simpa [opensQuote] using hOpens
  rw [isFlagWord, hHead]
  rfl

namespace ArgumentReader

/-- The reader after some words, and the pairs that these words complete. -/
def advance : ArgumentReader → List String → ArgumentReader × List Argument
  | reader, [] => (reader, [])
  | reader, word :: rest =>
    let after := advance (reader.step word).1 rest
    (after.1, (reader.step word).2 ++ after.2)

theorem run_append (reader : ArgumentReader) (first second : List String) :
    reader.run (first ++ second) =
      (reader.advance first).2 ++ (reader.advance first).1.run second := by
  induction first generalizing reader with
  | nil => rfl
  | cons word first ih => simp only [List.cons_append, run, ih, advance, List.append_assoc]

theorem advance_append (reader : ArgumentReader) (first second : List String) :
    reader.advance (first ++ second) =
      (((reader.advance first).1.advance second).1,
        (reader.advance first).2 ++ ((reader.advance first).1.advance second).2) := by
  induction first generalizing reader with
  | nil => rfl
  | cons word first ih => simp only [List.cons_append, ih, advance, List.append_assoc]

/-- The reader stands outside quoted runs. -/
def IsOutside : ArgumentReader → Prop
  | quoted .. => False
  | _ => True

section Outside

variable {reader : ArgumentReader} {flag word : String} {words : List String}

theorem IsOutside.step (hOutside : reader.IsOutside)
    (hWord : opensQuote word = true → closesQuote word = true) :
    (reader.step word).1.IsOutside := by
  cases reader with
  | quoted => exact hOutside.elim
  | _ =>
      simp only [ArgumentReader.step, take]
      split_ifs <;> simp_all [IsOutside]

/-- Only a word that opens a quoted run and does not close it leads into one. -/
theorem IsOutside.advance (hOutside : reader.IsOutside)
    (hWords : ∀ word ∈ words, opensQuote word = true → closesQuote word = true) :
    (reader.advance words).1.IsOutside := by
  induction words generalizing reader with
  | nil => exact hOutside
  | cons word rest ih =>
      obtain ⟨hWord, hRest⟩ := List.forall_mem_cons.1 hWords
      exact ih (hOutside.step hWord) hRest

/-- Outside quoted runs a flag begins a new pair, and completes the pair before it as the end of the
line would. -/
theorem IsOutside.step_flag (hOutside : reader.IsOutside) (hFlag : isFlagWord flag = true) :
    reader.step flag = (value flag [], reader.finish) := by
  cases reader with
  | quoted => exact hOutside.elim
  | _ => simp [ArgumentReader.step, finish, hFlag]

end Outside

/-- Inside a quoted run words are kept until one closes the run. -/
theorem advance_open {flag : String} {words : List String} (before : List String)
    (hOpen : ∀ word ∈ words, closesQuote word = false) :
    (quoted flag before).advance words = (quoted flag (before ++ words), []) := by
  induction words generalizing before with
  | nil => rw [advance, List.append_nil]
  | cons word words ih =>
      obtain ⟨hWord, hRest⟩ := List.forall_mem_cons.1 hOpen
      have hStep : (quoted flag before).step word = (quoted flag (before ++ [word]), []) := by
        simp [step, hWord]
      rw [advance, hStep, ih (before ++ [word]) hRest, List.append_assoc]
      rfl

/-- A quoted run completes the value that it stands in. -/
theorem advance_quotedRun {flag first last : String} {before between : List String}
    (hOpens : opensQuote first = true) (hFirst : closesQuote first = false)
    (hBetween : ∀ word ∈ between, closesQuote word = false) (hCloses : closesQuote last = true) :
    (value flag before).advance (first :: (between ++ [last])) =
      (ArgumentReader.between flag, [⟨flag, before ++ first :: (between ++ [last])⟩]) := by
  have hStep : (value flag before).step first = (quoted flag (before ++ [first]), []) := by
    simp [step, take, isFlagWord_of_opensQuote hOpens, hOpens, hFirst]
  rw [advance, hStep, advance_append, advance_open _ hBetween]
  simp [advance, step, hCloses]

/-- The words that the reader keeps for the pairs to come. -/
def kept : ArgumentReader → List String
  | start => []
  | between flag => [flag]
  | value flag words => flag :: words
  | quoted flag words => flag :: words

theorem kept_step_subset (reader : ArgumentReader) (word : String) :
    (reader.step word).1.kept ⊆ reader.kept ++ [word] := by
  cases reader <;> simp only [step, take] <;> split_ifs <;> simp [kept]

theorem words_step_subset {reader : ArgumentReader} {word : String} {a : Argument}
    (hMem : a ∈ (reader.step word).2) : a.flag :: a.words ⊆ reader.kept ++ [word] := by
  revert hMem
  cases reader <;> simp only [step, take] <;> split_ifs <;> simp +contextual [kept]

theorem words_finish_subset {reader : ArgumentReader} {a : Argument} (hMem : a ∈ reader.finish) :
    a.flag :: a.words ⊆ reader.kept := by
  cases reader <;> simp_all [finish, kept]

/-- Flags and values are made of the words that are read. -/
theorem words_run_subset {reader : ArgumentReader} {words : List String} {a : Argument}
    (hMem : a ∈ reader.run words) : a.flag :: a.words ⊆ reader.kept ++ words := by
  induction words generalizing reader with
  | nil =>
      rw [List.append_nil]
      exact words_finish_subset hMem
  | cons word rest ih =>
      have hSplit : reader.kept ++ word :: rest = reader.kept ++ [word] ++ rest := by simp
      rw [hSplit]
      rcases List.mem_append.1 hMem with hMem | hMem
      · exact List.subset_append_of_subset_left _ (words_step_subset hMem)
      · refine List.Subset.trans (ih hMem) (List.append_subset.2 ⟨?_, List.subset_append_right ..⟩)
        exact List.subset_append_of_subset_left _ (kept_step_subset reader word)

end ArgumentReader

/-- The flags of a line are words, and so is what their values are joined of. -/
theorem isWord_of_mem_arguments {line w : String} {a : Argument} (hArg : a ∈ arguments line)
    (hMem : w ∈ a.flag :: a.words) : Text.IsWord w :=
  Text.isWord_of_mem_words (ArgumentReader.words_run_subset hArg hMem)

/-- No flag has an empty text for a value. -/
theorem reading_ne_empty {line : String} {a : Argument} (hArg : a ∈ arguments line) :
    a.reading ≠ "" := by
  rw [reading, value?, isBare]
  split
  · decide
  next hSome =>
    intro hEmpty
    have hWords := Text.words_intercalate_of_isWord fun w hMem =>
      isWord_of_mem_arguments hArg (List.mem_cons_of_mem _ hMem)
    rw [Option.getD_some, value] at hEmpty
    rw [hEmpty, Text.words_empty] at hWords
    simp [← hWords] at hSome

/-- A line of pieces of which the first is `-A` adds a rule. -/
theorem ofLine_intercalate {pieces : List String}
    (hTrim : Text.trim (" ".intercalate ("-A" :: pieces)) = " ".intercalate ("-A" :: pieces)) :
    Directive.ofLine (" ".intercalate ("-A" :: pieces)) =
      .appendRule ⟨arguments (" ".intercalate ("-A" :: pieces))⟩ := by
  obtain ⟨rest, hText⟩ : ∃ rest, (" ".intercalate ("-A" :: pieces)).toList = '-' :: 'A' :: rest := by
    cases pieces with
    | nil => exact ⟨[], by simp⟩
    | cons piece pieces =>
        rw [String.intercalate_cons_cons]
        simp
  simp only [Directive.ofLine, hTrim, hText]

/-- A text in double quotes. -/
def quote (text : String) : String :=
  "\"" ++ text ++ "\""

/-- A text that is taken for one value of a flag. -/
def IsValueText (text : String) : Prop :=
  IsValue (Text.words text) ∧ " ".intercalate (Text.words text) = text

/-- A word that begins neither with a dash nor with a double quote. -/
structure IsPlainWord (s : String) : Prop extends Text.IsWord s where
  notFlag : isFlagWord s = false
  notQuote : opensQuote s = false

instance (s : String) : Decidable (IsPlainWord s) :=
  decidable_of_iff (Text.IsWord s ∧ isFlagWord s = false ∧ opensQuote s = false)
    ⟨fun h => ⟨h.1, h.2.1, h.2.2⟩, fun h => ⟨h.toIsWord, h.notFlag, h.notQuote⟩⟩

theorem IsPlainWord.isValueText {s : String} (hPlain : IsPlainWord s) : IsValueText s := by
  rw [IsValueText, hPlain.toIsWord.words_eq]
  exact ⟨.plain hPlain.notFlag hPlain.notQuote, String.intercalate_singleton⟩

/-- A word that can stand between double quotes. -/
structure IsQuotable (s : String) : Prop extends Text.IsWord s where
  noQuote : '"' ∉ s.toList

instance (s : String) : Decidable (IsQuotable s) :=
  decidable_of_iff (Text.IsWord s ∧ '"' ∉ s.toList)
    ⟨fun h => ⟨h.1, h.2⟩, fun h => ⟨h.toIsWord, h.noQuote⟩⟩

theorem closesQuote_of_noQuote {s : String} (hQuote : '"' ∉ s.toList) : closesQuote s = false := by
  rw [closesQuote, beq_eq_false_iff_ne]
  exact fun hLast => hQuote (List.mem_of_getLast? hLast)

theorem opensQuote_of_noQuote {s : String} (hQuote : '"' ∉ s.toList) : opensQuote s = false := by
  rw [opensQuote, beq_eq_false_iff_ne]
  exact fun hFirst => hQuote (List.mem_of_head? hFirst)

theorem isFlagWord_append {s : String} (hSome : s ≠ "") (t : String) :
    isFlagWord (s ++ t) = isFlagWord s := by
  have hList : s.toList ≠ [] := fun hNil => hSome (String.toList_eq_nil_iff.1 hNil)
  rw [isFlagWord, String.toList_append, List.head?_append_of_ne_nil _ hList, isFlagWord]

theorem isFlagWord_append_quote {s : String} (hFlag : isFlagWord s = false) :
    isFlagWord (s ++ "\"") = false := by
  by_cases hEmpty : s = ""
  · rw [hEmpty]
    decide
  · rwa [isFlagWord_append hEmpty]

theorem isWord_quote : Text.IsWord "\"" := by
  decide

theorem closesQuote_append_quote (s : String) : closesQuote (s ++ "\"") = true := by
  simp [closesQuote]

theorem opensQuote_quote_append (s : String) : opensQuote ("\"" ++ s) = true := by
  simp [opensQuote]

namespace IsQuotable

variable {s : String} (hWord : IsQuotable s)

include hWord

theorem closesQuote_quote_append : closesQuote ("\"" ++ s) = false := by
  have hSome : s.toList ≠ [] := fun hNil => hWord.ne_empty (String.toList_eq_nil_iff.1 hNil)
  have hText : ("\"" ++ s).toList = '"' :: s.toList := by simp
  rw [closesQuote, hText, List.getLast?_cons_of_ne_nil hSome]
  exact closesQuote_of_noQuote hWord.noQuote

end IsQuotable

/-- A comment between double quotes is one value, if there are no further double quotes in it. -/
theorem isValueText_quote {ws : List String} (hWords : ∀ w ∈ ws, IsQuotable w) :
    IsValueText (quote (" ".intercalate ws)) := by
  cases ws with
  | nil =>
      have hWord : Text.IsWord "\"\"" := by decide
      have hText : quote (" ".intercalate []) = "\"\"" := by simp [quote]
      rw [hText, IsValueText, hWord.words_eq]
      exact ⟨.quotedWord (by decide) (by decide), String.intercalate_singleton⟩
  | cons first rest =>
      obtain ⟨hFirst, hRest⟩ := List.forall_mem_cons.1 hWords
      obtain rfl | ⟨between, last, rfl⟩ := rest.eq_nil_or_concat
      · have hWord : Text.IsWord (quote first) :=
          (isWord_quote.append hFirst.toIsWord).append isWord_quote
        rw [String.intercalate_singleton, IsValueText, hWord.words_eq]
        refine ⟨.quotedWord ?_ (closesQuote_append_quote _), String.intercalate_singleton⟩
        rw [quote, String.append_assoc]
        exact opensQuote_quote_append _
      · rw [List.concat_eq_append] at hRest ⊢
        obtain ⟨hBetween, hLast⟩ := List.forall_mem_append.1 hRest
        have hLast := hLast last (List.mem_singleton_self last)
        -- The quotes belong to the first word and to the last.
        have hText : quote (" ".intercalate (first :: (between ++ [last]))) =
            " ".intercalate (("\"" ++ first) :: (between ++ [last ++ "\""])) := by
          have hSplit (word : String) : " ".intercalate (first :: (between ++ [word])) =
              " ".intercalate (first :: between) ++ " " ++ word := by
            rw [← List.cons_append, String.intercalate_append_of_ne_nil (List.cons_ne_nil _ _)
              (List.cons_ne_nil _ _), String.intercalate_singleton]
          rw [quote, String.intercalate_cons_append, hSplit, hSplit]
          simp only [String.append_assoc]
        have hPieces : ∀ w ∈ ("\"" ++ first) :: (between ++ [last ++ "\""]), Text.IsWord w := by
          rw [List.forall_mem_cons, List.forall_mem_append]
          refine ⟨isWord_quote.append hFirst.toIsWord, fun w hMem => (hBetween w hMem).toIsWord, ?_⟩
          intro w hMem
          obtain rfl := List.mem_singleton.1 hMem
          exact hLast.toIsWord.append isWord_quote
        rw [IsValueText, hText, Text.words_intercalate_of_isWord hPieces]
        exact ⟨.quotedRun (opensQuote_quote_append first) hFirst.closesQuote_quote_append
          (fun w hMem => closesQuote_of_noQuote (hBetween w hMem).noQuote)
          (closesQuote_append_quote last), rfl⟩

end PacketFlow.Dump
