import Mathlib.Data.List.TakeWhile
import PacketFlow.Proofs.Dump.Arguments

/-!
Rule lines cut into segments. From its first flag on, a line falls into segments, one for each pair
that is read from it: the flag of the pair, then the words of its value. Only directly behind a value
that has closed a quoted run can a segment do without a flag, and its pair takes the flag of the pair
before. No word is lost, read twice or moved. Every line can be cut in this way, and only into the
segments of the pairs that are read from it, so a line on which these pairs are written out is read as
the same pairs again.
-/
namespace PacketFlow.Dump

open Argument

/-- Words none of which is a flag or opens a quoted run. -/
def Unquoted (words : List String) : Prop :=
  ∀ word ∈ words, isFlagWord word = false ∧ opensQuote word = false

/-- Words up to the one that closes the first quoted run among them. That word may be the one that
opens the run. -/
inductive EndsClosed : List String → Prop
  | intro {before run : List String} {last : String} (hBefore : Unquoted before)
      (hOpens : (run ++ [last]).head?.any opensQuote = true)
      (hOpen : ∀ word ∈ run, closesQuote word = false) (hCloses : closesQuote last = true) :
      EndsClosed (before ++ (run ++ [last]))

/-- Words of which the first quoted run is never closed. -/
inductive EndsOpen : List String → Prop
  | intro {before run : List String} (hBefore : Unquoted before)
      (hOpens : run.head?.any opensQuote = true)
      (hOpen : ∀ word ∈ run, closesQuote word = false) : EndsOpen (before ++ run)

/-- The words on a line of which a pair is read: its flag and the words of its value, or the value
alone if the pair before has this flag and closed a quoted run. -/
inductive IsSegment (closed? : Option String) : Argument → List String → Prop
  | flagged {flag : String} {words : List String} (hFlag : isFlagWord flag = true) :
      IsSegment closed? ⟨flag, words⟩ (flag :: words)
  | stray {flag word : String} {words : List String} (hClosed : closed? = some flag)
      (hWord : isFlagWord word = false) : IsSegment closed? ⟨flag, word :: words⟩ (word :: words)

/-- Segments that follow one another on a line, and their pairs. A segment without a quoted run ends
in front of the next flag, one with a quoted run ends where the run is closed, or with the line. -/
inductive Cuts : Option String → List (List String) → List Argument → Prop
  | nil {closed? : Option String} : Cuts closed? [] []
  | unquoted {closed? : Option String} {a : Argument} {segment : List String}
      {segments : List (List String)} {args : List Argument} (hSegment : IsSegment closed? a segment)
      (hWords : Unquoted a.words) (hRest : Cuts none segments args) :
      Cuts closed? (segment :: segments) (a :: args)
  | closed {closed? : Option String} {a : Argument} {segment : List String}
      {segments : List (List String)} {args : List Argument} (hSegment : IsSegment closed? a segment)
      (hWords : EndsClosed a.words) (hRest : Cuts (some a.flag) segments args) :
      Cuts closed? (segment :: segments) (a :: args)
  | unclosed {closed? : Option String} {a : Argument} {segment : List String}
      (hSegment : IsSegment closed? a segment) (hWords : EndsOpen a.words) :
      Cuts closed? [segment] [a]

theorem Unquoted.cons {word : String} {words : List String} (hFlag : isFlagWord word = false)
    (hQuote : opensQuote word = false) (hWords : Unquoted words) : Unquoted (word :: words) :=
  List.forall_mem_cons.2 ⟨⟨hFlag, hQuote⟩, hWords⟩

theorem EndsClosed.cons {word : String} {words : List String} (hFlag : isFlagWord word = false)
    (hQuote : opensQuote word = false) (hWords : EndsClosed words) : EndsClosed (word :: words) := by
  obtain ⟨hBefore, hOpens, hOpen, hCloses⟩ := hWords
  rw [← List.cons_append]
  exact .intro (hBefore.cons hFlag hQuote) hOpens hOpen hCloses

theorem EndsOpen.cons {word : String} {words : List String} (hFlag : isFlagWord word = false)
    (hQuote : opensQuote word = false) (hWords : EndsOpen words) : EndsOpen (word :: words) := by
  obtain ⟨hBefore, hOpens, hOpen⟩ := hWords
  rw [← List.cons_append]
  exact .intro (hBefore.cons hFlag hQuote) hOpens hOpen

theorem unquoted_nil : Unquoted [] :=
  fun _ hMem => absurd hMem List.not_mem_nil

theorem IsValue.unquoted_or_endsClosed {words : List String} (hValue : IsValue words) :
    Unquoted words ∨ EndsClosed words := by
  cases hValue with
  | plain hFlag hQuote => exact Or.inl (unquoted_nil.cons hFlag hQuote)
  | @quotedWord word hOpens hCloses =>
      have hOpen : ∀ word ∈ ([] : List String), closesQuote word = false :=
        fun _ hMem => absurd hMem List.not_mem_nil
      have hEnds : EndsClosed ([] ++ ([] ++ [word])) := .intro unquoted_nil hOpens hOpen hCloses
      exact Or.inr hEnds
  | @quotedRun first last between hOpens hFirst hBetween hCloses =>
      have hOpen : ∀ word ∈ first :: between, closesQuote word = false :=
        List.forall_mem_cons.2 ⟨hFirst, hBetween⟩
      have hEnds : EndsClosed ([] ++ (first :: between ++ [last])) :=
        .intro unquoted_nil hOpens hOpen hCloses
      exact Or.inr hEnds

section Reading

namespace ArgumentReader

variable {reader : ArgumentReader} {flag : String} {words : List String}

theorem advance_unquoted (before : List String) (hWords : Unquoted words) :
    (value flag before).advance words = (value flag (before ++ words), []) := by
  induction words generalizing before with
  | nil => rw [advance, List.append_nil]
  | cons word words ih =>
      obtain ⟨⟨hFlag, hQuote⟩, hRest⟩ := List.forall_mem_cons.1 hWords
      have hStep : (value flag before).step word = (value flag (before ++ [word]), []) := by
        simp [step, take, hFlag, hQuote]
      rw [advance, hStep, ih (before ++ [word]) hRest, List.append_assoc]
      rfl

/-- A value is complete with the word that closes its quoted run. -/
theorem advance_endsClosed (hWords : EndsClosed words) :
    (value flag []).advance words = (between flag, [⟨flag, words⟩]) := by
  obtain @⟨before, run, last, hBefore, hOpens, hOpen, hCloses⟩ := hWords
  rw [advance_append, advance_unquoted [] hBefore, List.nil_append]
  cases run with
  | nil =>
      have hQuote : opensQuote last = true := by simpa using hOpens
      simp [advance, step, take, isFlagWord_of_opensQuote hQuote, hQuote, hCloses]
  | cons first run =>
      obtain ⟨hFirst, hRun⟩ := List.forall_mem_cons.1 hOpen
      have hQuote : opensQuote first = true := by simpa using hOpens
      rw [List.cons_append, advance_quotedRun hQuote hFirst hRun hCloses, List.nil_append]

theorem advance_endsOpen (hWords : EndsOpen words) :
    (value flag []).advance words = (quoted flag words, []) := by
  obtain @⟨before, run, hBefore, hOpens, hOpen⟩ := hWords
  rw [advance_append, advance_unquoted [] hBefore, List.nil_append]
  cases run with
  | nil => simp at hOpens
  | cons first run =>
      obtain ⟨hFirst, hRun⟩ := List.forall_mem_cons.1 hOpen
      have hQuote : opensQuote first = true := by simpa using hOpens
      have hStep : (value flag before).step first = (quoted flag (before ++ [first]), []) := by
        simp [step, take, isFlagWord_of_opensQuote hQuote, hQuote, hFirst]
      rw [advance, hStep, advance_open _ hRun]
      simp

/-- The flag of the pair before, if that has just closed a quoted run. -/
def closed? : ArgumentReader → Option String
  | between flag => some flag
  | _ => none

/-- Where a segment begins, the pair before is complete, and the words of the value are read under
the flag of the segment. -/
theorem advance_segment {a : Argument} {segment : List String} (hOutside : reader.IsOutside)
    (hSegment : IsSegment reader.closed? a segment) :
    reader.advance segment = (((value a.flag []).advance a.words).1,
      reader.finish ++ ((value a.flag []).advance a.words).2) := by
  cases hSegment with
  | flagged hFlag => rw [advance, hOutside.step_flag hFlag]
  | stray hClosed hWord =>
      cases reader with
      | between last =>
          obtain rfl := Option.some.inj hClosed
          simp [advance, step, finish, hWord]
      | _ => cases hClosed

end ArgumentReader

/-- Segments are read as their pairs, wherever the reader is outside quoted runs. -/
theorem ArgumentReader.IsOutside.run_flatten {reader : ArgumentReader}
    {segments : List (List String)} {args : List Argument} (hOutside : reader.IsOutside)
    (hCuts : Cuts reader.closed? segments args) :
    reader.run segments.flatten = reader.finish ++ args := by
  generalize hClosed : reader.closed? = closed? at hCuts
  induction hCuts generalizing reader with
  | nil => rw [List.flatten_nil, ArgumentReader.run, List.append_nil]
  | @unquoted _ a _ _ _ hSegment hWords _ ih =>
      have hAfter : (ArgumentReader.value a.flag ([] ++ a.words)).IsOutside := trivial
      rw [List.flatten_cons, ArgumentReader.run_append,
        ArgumentReader.advance_segment hOutside (hClosed ▸ hSegment),
        ArgumentReader.advance_unquoted [] hWords, ih hAfter rfl]
      simp [ArgumentReader.finish]
  | @closed _ a _ _ _ hSegment hWords _ ih =>
      have hAfter : (ArgumentReader.between a.flag).IsOutside := trivial
      rw [List.flatten_cons, ArgumentReader.run_append,
        ArgumentReader.advance_segment hOutside (hClosed ▸ hSegment),
        ArgumentReader.advance_endsClosed hWords, ih hAfter rfl]
      simp [ArgumentReader.finish]
  | @unclosed _ a _ hSegment hWords =>
      rw [List.flatten_cons, ArgumentReader.run_append,
        ArgumentReader.advance_segment hOutside (hClosed ▸ hSegment),
        ArgumentReader.advance_endsOpen hWords]
      simp [ArgumentReader.run, ArgumentReader.finish]

/-- Pairs with values that are not quoted, or in which a quoted run is closed last, can follow one
another on a line. -/
theorem cuts_map {closed? : Option String} {args : List Argument} (hArgs : ∀ a ∈ args,
    isFlagWord a.flag = true ∧ (Unquoted a.words ∨ EndsClosed a.words)) :
    Cuts closed? (args.map fun a => a.flag :: a.words) args := by
  induction args generalizing closed? with
  | nil => exact .nil
  | cons a args ih =>
      obtain ⟨⟨hFlag, hWords⟩, hRest⟩ := List.forall_mem_cons.1 hArgs
      cases hWords with
      | inl hUnquoted => exact .unquoted (.flagged hFlag) hUnquoted (ih hRest)
      | inr hClosed => exact .closed (.flagged hFlag) hClosed (ih hRest)

/-- A line on which such pairs are written is read as these pairs. -/
theorem arguments_eq {line : String} {args : List Argument}
    (hWords : Text.words line = args.flatMap fun a => a.flag :: a.words)
    (hArgs : ∀ a ∈ args, isFlagWord a.flag = true ∧ (Unquoted a.words ∨ EndsClosed a.words)) :
    arguments line = args := by
  have hStart : ArgumentReader.start.IsOutside := trivial
  rw [arguments, hWords, List.flatMap_def, hStart.run_flatten (cuts_map hArgs)]
  rfl

end Reading

section Cutting

/-- Where the words of a value end: in front of a flag or with the line if there is no quoted run, with
the word that closes the run, or with the line if the run is never closed. -/
inductive EndsBefore (value rest : List String) : Prop
  | unquoted (hWords : Unquoted value) (hNext : ∀ next ∈ rest.head?, isFlagWord next = true)
  | closed (hWords : EndsClosed value)
  | unclosed (hWords : EndsOpen value) (hRest : rest = [])

theorem EndsBefore.cons {word : String} {value rest : List String} (hFlag : isFlagWord word = false)
    (hQuote : opensQuote word = false) (hEnds : EndsBefore value rest) :
    EndsBefore (word :: value) rest := by
  cases hEnds with
  | unquoted hWords hNext => exact .unquoted (hWords.cons hFlag hQuote) hNext
  | closed hWords => exact .closed (hWords.cons hFlag hQuote)
  | unclosed hWords hRest => exact .unclosed (hWords.cons hFlag hQuote) hRest

theorem EndsClosed.ne_nil {words : List String} (hWords : EndsClosed words) : words ≠ [] := by
  obtain ⟨-, -, -, -⟩ := hWords
  simp

theorem IsSegment.ne_nil {closed? : Option String} {a : Argument} {segment : List String}
    (hSegment : IsSegment closed? a segment) : segment ≠ [] := by
  cases hSegment <;> exact List.cons_ne_nil _ _

/-- A quoted run reaches to the word that closes it, or to the end of the line. -/
theorem exists_endsBefore_of_opensQuote {word : String} (words : List String)
    (hQuote : opensQuote word = true) :
    ∃ value rest, word :: words = value ++ rest ∧ EndsBefore value rest := by
  cases hFind : (word :: words).find? closesQuote with
  | none =>
      have hOpens : (word :: words).head?.any opensQuote = true := by simpa using hQuote
      have hOpen : ∀ other ∈ word :: words, closesQuote other = false := by
        simpa using List.find?_eq_none.1 hFind
      have hEnds : EndsOpen ([] ++ word :: words) := .intro unquoted_nil hOpens hOpen
      exact ⟨word :: words, [], (List.append_nil _).symm, .unclosed hEnds rfl⟩
  | some last =>
      obtain ⟨hCloses, run, rest, hSplit, hOpen⟩ := List.find?_eq_some_iff_append.1 hFind
      have hOpen : ∀ other ∈ run, closesQuote other = false := by simpa using hOpen
      have hOpens : (run ++ [last]).head?.any opensQuote = true := by
        cases run with
        | nil =>
            obtain ⟨rfl, -⟩ := List.cons.inj hSplit
            exact hQuote
        | cons first run =>
            obtain ⟨rfl, -⟩ := List.cons.inj hSplit
            exact hQuote
      have hEnds : EndsClosed ([] ++ (run ++ [last])) := .intro unquoted_nil hOpens hOpen hCloses
      exact ⟨run ++ [last], rest, by simp [hSplit], .closed hEnds⟩

/-- A value can be split off in front of any words. -/
theorem exists_endsBefore (words : List String) :
    ∃ value rest, words = value ++ rest ∧ EndsBefore value rest := by
  induction words with
  | nil => exact ⟨[], [], rfl, .unquoted unquoted_nil (by simp)⟩
  | cons word words ih =>
      cases hFlag : isFlagWord word with
      | true => exact ⟨[], word :: words, rfl, .unquoted unquoted_nil (by simpa using hFlag)⟩
      | false =>
          cases hQuote : opensQuote word with
          | false =>
              obtain ⟨value, rest, rfl, hEnds⟩ := ih
              exact ⟨word :: value, rest, rfl, hEnds.cons hFlag hQuote⟩
          | true => exact exists_endsBefore_of_opensQuote words hQuote

/-- A segment can be split off where a flag stands, or any word behind a closed quoted run. -/
theorem exists_segment {closed? : Option String} {word : String} (words : List String)
    (hFirst : closed? = none → isFlagWord word = true) : ∃ a segment rest,
      word :: words = segment ++ rest ∧ IsSegment closed? a segment ∧ EndsBefore a.words rest := by
  cases hFlag : isFlagWord word with
  | true =>
      obtain ⟨value, rest, rfl, hEnds⟩ := exists_endsBefore words
      exact ⟨⟨word, value⟩, word :: value, rest, rfl, .flagged hFlag, hEnds⟩
  | false =>
      cases closed? with
      | none => exact absurd (hFirst rfl) (by simp [hFlag])
      | some flag =>
          obtain ⟨value, rest, hSplit, hEnds⟩ := exists_endsBefore (word :: words)
          cases value with
          | nil =>
              -- Only in front of a flag is there a value without words.
              rw [List.nil_append] at hSplit
              subst hSplit
              cases hEnds with
              | unquoted _ hNext => exact absurd (hNext word rfl) (by simp [hFlag])
              | closed hWords => exact absurd rfl hWords.ne_nil
              | unclosed _ hRest => cases hRest
          | cons first value =>
              obtain ⟨rfl, rfl⟩ := List.cons.inj hSplit
              exact ⟨⟨flag, word :: value⟩, word :: value, rest, rfl, .stray rfl hFlag, hEnds⟩

/-- Words can be cut into segments if they begin with a flag, or behind a closed quoted run. -/
theorem exists_cuts {closed? : Option String} {words : List String}
    (hFirst : closed? = none → ∀ word ∈ words.head?, isFlagWord word = true) :
    ∃ segments args, segments.flatten = words ∧ Cuts closed? segments args := by
  induction hLength : words.length using Nat.strong_induction_on generalizing words closed? with
  | _ length ih =>
    cases words with
    | nil => exact ⟨[], [], rfl, .nil⟩
    | cons word words =>
        obtain ⟨a, segment, rest, hSplit, hSegment, hEnds⟩ :=
          exists_segment words fun hNone => hFirst hNone word rfl
        have hShorter : rest.length < length := by
          have hSome := List.length_pos_iff.2 hSegment.ne_nil
          rw [← hLength, hSplit, List.length_append]
          omega
        rw [hSplit]
        cases hEnds with
        | unquoted hWords hNext =>
            obtain ⟨segments, args, rfl, hCuts⟩ :
                ∃ segments args, segments.flatten = rest ∧ Cuts none segments args :=
              ih _ hShorter (fun _ => hNext) rfl
            exact ⟨segment :: segments, a :: args, rfl, .unquoted hSegment hWords hCuts⟩
        | closed hWords =>
            obtain ⟨segments, args, rfl, hCuts⟩ :
                ∃ segments args, segments.flatten = rest ∧ Cuts (some a.flag) segments args :=
              ih _ hShorter (fun hNone => by cases hNone) rfl
            exact ⟨segment :: segments, a :: args, rfl, .closed hSegment hWords hCuts⟩
        | unclosed hWords hRest =>
            subst hRest
            exact ⟨[segment], [a], rfl, .unclosed hSegment hWords⟩

theorem Cuts.ne_nil {closed? : Option String} {segments : List (List String)} {args : List Argument}
    (hCuts : Cuts closed? segments args) : ∀ segment ∈ segments, segment ≠ [] := by
  induction hCuts with
  | nil => exact fun _ hMem => absurd hMem List.not_mem_nil
  | unquoted hSegment _ _ ih => exact List.forall_mem_cons.2 ⟨hSegment.ne_nil, ih⟩
  | closed hSegment _ _ ih => exact List.forall_mem_cons.2 ⟨hSegment.ne_nil, ih⟩
  | unclosed hSegment => exact List.forall_mem_singleton.2 hSegment.ne_nil

/-- The words of a line from its first flag on. -/
def flaggedWords (line : String) : List String :=
  (Text.words line).dropWhile (!isFlagWord ·)

theorem arguments_eq_run (line : String) :
    arguments line = ArgumentReader.start.run (flaggedWords line) := by
  rw [arguments, flaggedWords]
  induction Text.words line with
  | nil => rfl
  | cons word words ih =>
      cases hFlag : isFlagWord word with
      | true => simp [hFlag]
      | false => simpa [ArgumentReader.run, ArgumentReader.step, hFlag] using ih

theorem Cuts.arguments_eq {line : String} {segments : List (List String)} {args : List Argument}
    (hWords : segments.flatten = flaggedWords line) (hCuts : Cuts none segments args) :
    arguments line = args := by
  have hStart : ArgumentReader.start.IsOutside := trivial
  rw [arguments_eq_run, ← hWords, hStart.run_flatten hCuts]
  rfl

theorem exists_cuts_flaggedWords (line : String) :
    ∃ segments, segments.flatten = flaggedWords line ∧ Cuts none segments (arguments line) := by
  have hFirst (word : String) (hMem : word ∈ (flaggedWords line).head?) :
      isFlagWord word = true := by
    have hHead := List.head?_dropWhile_not (!isFlagWord ·) (Text.words line)
    rw [flaggedWords] at hMem
    rw [hMem] at hHead
    simpa using hHead
  obtain ⟨segments, args, hWords, hCuts⟩ :
      ∃ segments args, segments.flatten = flaggedWords line ∧ Cuts none segments args :=
    exists_cuts fun _ => hFirst
  exact ⟨segments, hWords, hCuts.arguments_eq hWords ▸ hCuts⟩

/-- A word behind a closed quoted run begins a segment without a flag. -/
example : (arguments "drop -A X --comment \"a b\" extra -j Y").map (·.text) =
    ["-A X", "--comment \"a b\"", "--comment extra", "-j Y"] := by
  decide +kernel

end Cutting

section Printing

theorem IsSegment.isFlagWord_flag {closed? : Option String} {a : Argument} {segment : List String}
    (hSegment : IsSegment closed? a segment) (hClosed : ∀ flag ∈ closed?, isFlagWord flag = true) :
    isFlagWord a.flag = true := by
  cases hSegment with
  | flagged hFlag => exact hFlag
  | stray hFlag _ => exact hClosed _ hFlag

/-- The segments of the same pairs, each with its flag. -/
theorem Cuts.flagged {closed? closed'? : Option String} {segments : List (List String)}
    {args : List Argument} (hCuts : Cuts closed? segments args)
    (hClosed : ∀ flag ∈ closed?, isFlagWord flag = true) :
    Cuts closed'? (args.map fun a => a.flag :: a.words) args := by
  induction hCuts generalizing closed'? with
  | nil => exact .nil
  | unquoted hSegment hWords _ ih =>
      exact .unquoted (.flagged (hSegment.isFlagWord_flag hClosed)) hWords (ih (by simp))
  | closed hSegment hWords _ ih =>
      have hFlag := hSegment.isFlagWord_flag hClosed
      exact .closed (.flagged hFlag) hWords (ih (by simpa using hFlag))
  | unclosed hSegment hWords =>
      exact .unclosed (.flagged (hSegment.isFlagWord_flag hClosed)) hWords

/-- A pair is written as its flag and the words of its value. -/
theorem Argument.text_eq_intercalate (a : Argument) :
    a.text = " ".intercalate (a.flag :: a.words) := by
  obtain ⟨flag, words⟩ := a
  cases words with
  | nil => simp [text, value?, isBare]
  | cons word words => simp [text, value?, isBare, value, String.intercalate_cons_cons, toString]

theorem words_intercalate_text (line : String) :
    Text.words (" ".intercalate ((arguments line).map Argument.text)) =
      ((arguments line).map fun a => a.flag :: a.words).flatten := by
  rw [Text.words_intercalate, List.flatMap_map, ← List.flatMap_def]
  refine List.flatMap_congr fun a hMem => ?_
  rw [a.text_eq_intercalate, Text.words_intercalate_of_isWord]
  exact fun word => isWord_of_mem_arguments hMem

/-- Reading the pairs of a line, written one after the other, gives the same pairs again. -/
theorem arguments_intercalate_text (line : String) :
    arguments (" ".intercalate ((arguments line).map Argument.text)) = arguments line := by
  obtain ⟨segments, -, hCuts⟩ := exists_cuts_flaggedWords line
  have hFlagged : Cuts none ((arguments line).map fun a => a.flag :: a.words) (arguments line) :=
    hCuts.flagged (by simp)
  have hStart : ArgumentReader.start.IsOutside := trivial
  rw [arguments, words_intercalate_text, hStart.run_flatten hFlagged]
  rfl

end Printing

end PacketFlow.Dump
