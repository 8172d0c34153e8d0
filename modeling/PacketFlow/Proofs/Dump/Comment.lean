import PacketFlow.Proofs.Dump.Arguments
import PacketFlow.Proofs.Dump.Placement

/-!
What a comment can change. A rule line does the same as without its comments, save that the rule
keeps the comment. So a comment between double quotes changes nothing else if all of it is read as a
comment, which is decided word by word. A quote in front of white space is a word by itself and
closes the run that it opens. The words behind it are read as if they were not quoted, and flags among
them count.
-/
namespace PacketFlow

namespace Ruleset

/-- The rules with no comment at that rule. -/
def eraseComment (rs : Ruleset) (r : RuleId) : Ruleset :=
  { rs with rules := rs.rules.modify r.index fun rule => { rule with comment := none } }

theorem eraseComment_new (rs : Ruleset) : rs.eraseComment ⟨rs.rules.size⟩ = rs := by
  have hRules : rs.rules.modify rs.rules.size (fun rule => { rule with comment := none }) =
      rs.rules := by
    simp [Array.modify, Array.modifyM]
  rw [eraseComment, hRules]

/-- A rule that is added and then loses its comment might have been added without. -/
theorem appendRule?_eraseComment (rs : Ruleset) (c : ChainId) (body : RuleBody) :
    (rs.appendRule? c body).map (fun added => (added.1, added.2.eraseComment ⟨rs.rules.size⟩)) =
      rs.appendRule? c { body with comment := none } := by
  cases hChain : rs.chain? c with
  | none => simp [appendRule?, hChain]
  | some owner =>
      have hPush (rule : Rule) : (rs.rules.push rule).modify rs.rules.size
          (fun rule => { rule with comment := none }) =
            rs.rules.push { rule with comment := none } := by
        refine Array.ext (by simp) fun i _ _ => ?_
        rw [Array.getElem_modify, Array.getElem_push, Array.getElem_push]
        grind
      simp [appendRule?, hChain, eraseComment, hPush]

end Ruleset

namespace Dump

open Argument

/-- The pairs that are no comments. -/
def uncommented (args : List Argument) : List Argument :=
  args.filter fun a => a.flag != "--comment"

theorem find?_uncommented {spellings : List String} (hOther : "--comment" ∉ spellings)
    (args : List Argument) : find? spellings (uncommented args) = find? spellings args := by
  rw [find?, uncommented, List.find?_filter, find?]
  congr 1
  funext a
  by_cases hFlag : a.flag = "--comment"
  · simp [hFlag, hOther]
  · simp [hFlag]

namespace RuleLine

/-- The line without its comments. -/
def uncommented (rule : RuleLine) : RuleLine :=
  ⟨Dump.uncommented rule.args⟩

variable (rule : RuleLine)

theorem value?_uncommented {spellings : List String} (hOther : "--comment" ∉ spellings) :
    rule.uncommented.value? spellings = rule.value? spellings := by
  rw [value?, uncommented, find?_uncommented hOther, value?]

theorem chainName?_uncommented : rule.uncommented.chainName? = rule.chainName? :=
  rule.value?_uncommented (by decide)

theorem targetName?_uncommented (transfer : Transfer) :
    rule.uncommented.targetName? transfer = rule.targetName? transfer := by
  have hOther : "--comment" ∉ targetFlags transfer := by cases transfer <;> decide
  rw [targetName?, uncommented, find?_uncommented hOther, targetName?]

theorem body_uncommented (jump goto : Option ChainId) :
    rule.uncommented.body jump goto = { rule.body jump goto with comment := none } := by
  have hComment : rule.uncommented.value? ["--comment"] = none := by
    rw [value?, find?, List.find?_eq_none.2, Option.bind_none]
    intro a hMem
    have hFlag := (List.mem_filter.1 hMem).2
    simpa using hFlag
  rw [body, hComment]
  simp [body, value?_uncommented]

end RuleLine

namespace Session

variable (s : Session)

/-- The session with no comment at that rule. -/
def eraseComment (r : RuleId) : Session :=
  { s with ruleset := s.ruleset.eraseComment r }

theorem eraseComment_new : s.eraseComment ⟨s.ruleset.rules.size⟩ = s := by
  rw [eraseComment, Ruleset.eraseComment_new]

/-- A rule is placed as its line says without the comments, but for the comment that it keeps. -/
theorem placeRule_uncommented (id : TableId) (table : Table) (c : ChainId) (rule : RuleLine) :
    (s.placeRule id table c rule).eraseComment ⟨s.ruleset.rules.size⟩ =
      s.placeRule id table c rule.uncommented := by
  simp only [placeRule, RuleLine.targetName?_uncommented, RuleLine.body_uncommented]
  have hRules : (s.resolveJump id table (rule.targetName? .jump)).2.ruleset.rules =
      s.ruleset.rules := by
    rw [resolveJump_eq]
    exact rule.rules_ready s.ruleset
  generalize s.resolveJump id table (rule.targetName? .jump) = jump at hRules ⊢
  have hSame : (jump.2.resolve id table .goto (rule.targetName? .goto)).2.ruleset =
      jump.2.ruleset := by
    rw [resolve_eq_bind]
    rfl
  generalize jump.2.resolve id table .goto (rule.targetName? .goto) = goto at hSame ⊢
  rw [← hRules, ← hSame, ← Ruleset.appendRule?_eraseComment]
  cases goto.2.ruleset.appendRule? c (rule.body jump.1 goto.1) with
  | none => exact goto.2.eraseComment_new
  | some added => rfl

theorem appendRule_uncommented (rule : RuleLine) :
    (s.appendRule rule).eraseComment ⟨s.ruleset.rules.size⟩ = s.appendRule rule.uncommented := by
  simp only [appendRule, RuleLine.chainName?_uncommented]
  split
  · exact eraseComment_new _
  · exact eraseComment_new _
  · split
    · exact eraseComment_new _
    · exact s.placeRule_uncommented ..

end Session

namespace ArgumentReader

/-- The reader stands outside quoted runs, and what it has read last is of that flag. -/
def RestsAt (flag : String) : ArgumentReader → Prop
  | start => False
  | between last => last = flag
  | value last _ => last = flag
  | quoted .. => False

variable {reader : ArgumentReader} {flag word : String} {words : List String}

/-- A word that is no flag, and opens no quoted run but to close it, is read under the flag before
it. -/
theorem RestsAt.step (hRests : reader.RestsAt flag) (hFlag : isFlagWord word = false)
    (hWord : opensQuote word = true → closesQuote word = true) :
    (reader.step word).1.RestsAt flag ∧ ∀ a ∈ (reader.step word).2, a.flag = flag := by
  cases reader with
  | start => exact hRests.elim
  | quoted => exact hRests.elim
  | _ =>
      simp only [ArgumentReader.step, take]
      split_ifs <;> simp_all [RestsAt]

theorem RestsAt.advance (hRests : reader.RestsAt flag)
    (hWords : ∀ word ∈ words,
      isFlagWord word = false ∧ (opensQuote word = true → closesQuote word = true)) :
    (reader.advance words).1.RestsAt flag ∧ ∀ a ∈ (reader.advance words).2, a.flag = flag := by
  induction words generalizing reader with
  | nil => exact ⟨hRests, fun a hMem => absurd hMem List.not_mem_nil⟩
  | cons word rest ih =>
      obtain ⟨⟨hFlag, hWord⟩, hRest⟩ := List.forall_mem_cons.1 hWords
      obtain ⟨hNext, hNow⟩ := hRests.step hFlag hWord
      obtain ⟨hAfter, hLater⟩ := ih hNext hRest
      exact ⟨hAfter, List.forall_mem_append.2 ⟨hNow, hLater⟩⟩

/-- Behind the comments the line is read as if there were none. -/
theorem RestsAt.uncommented_run (hRests : reader.RestsAt "--comment")
    (hNext : ∀ word ∈ words.head?, isFlagWord word = true) :
    uncommented (reader.run words) = uncommented ((between "--comment").run words) := by
  cases words with
  | nil => cases reader <;> simp_all [RestsAt, run, finish, uncommented]
  | cons word rest =>
      have hFlag : isFlagWord word = true := hNext word rfl
      cases reader <;> simp_all [RestsAt, run, ArgumentReader.step, uncommented]

end ArgumentReader

/-- A text that is read as a comment where it stands between double quotes: there is no double quote
in it, and if it begins with white space, no flag. -/
structure IsSealed (text : String) : Prop where
  noQuote : '"' ∉ text.toList
  noFlag (hBlank : text.toList.head?.any Text.isBlank = true) :
    ∀ word ∈ Text.words text, isFlagWord word = false

instance (text : String) : Decidable (IsSealed text) :=
  decidable_of_iff ('"' ∉ text.toList ∧ (text.toList.head?.any Text.isBlank = true →
      ∀ word ∈ Text.words text, isFlagWord word = false))
    ⟨fun h => ⟨h.1, h.2⟩, fun h => ⟨h.noQuote, h.noFlag⟩⟩

/-- The words of a text between double quotes: it is one word, or its first and its last word have
the quotes, which are words by themselves next to white space. -/
theorem words_quote (text : String) :
    Text.words (quote text) = [quote text] ∨
      ∃ first between last,
        Text.words (quote text) = ("\"" ++ first) :: (between ++ [last ++ "\""]) ∧
        (first = "" → text.toList.head?.any Text.isBlank = true) ∧
        ∀ word ∈ first :: (between ++ [last]), word = "" ∨ word ∈ Text.words text := by
  obtain hNone | ⟨front, blank, rest, hText, hBlank, hFront⟩ :=
    Text.unbroken_or_first_blank text.toList
  · left
    rw [quote, String.append_assoc]
    exact (isWord_quote.append (isWord_quote.append_left hNone)).words_eq
  · right
    have hUnbroken : ∀ c ∈ (String.ofList front).toList, Text.isBlank c = false := by
      rwa [String.toList_ofList]
    obtain ⟨between, last, hRest, hWords, hLast⟩ :=
      Text.exists_words_append (.ofList rest) isWord_quote
    refine ⟨.ofList front, between, last, ?_, fun hEmpty => ?_, ?_⟩
    · have hQuoted : (quote text).toList = ('"' :: front) ++ blank :: (rest ++ ['"']) := by
        simp [quote, hText]
      have hFirst : Text.IsWord ("\"" ++ .ofList front) := by
        refine ⟨by simp, fun c hMem => ?_⟩
        rw [String.toList_append, List.mem_append] at hMem
        exact hMem.elim (isWord_quote.unbroken c) (hUnbroken c)
      have hEnd : String.ofList (rest ++ ['"']) = .ofList rest ++ "\"" := String.ofList_append ..
      have hStart : String.ofList ('"' :: front) = "\"" ++ .ofList front := by
        rw [← List.singleton_append, String.ofList_append]
      rw [Text.words_of_toList_eq hQuoted hBlank, hEnd, hRest, hStart, hFirst.words_eq]
      rfl
    · rw [String.ofList_eq_empty_iff] at hEmpty
      rw [hText, hEmpty]
      exact hBlank
    · rw [Text.words_of_toList_eq hText hBlank, hWords, List.forall_mem_cons,
        List.forall_mem_append]
      refine ⟨(Text.eq_empty_or_words_eq hUnbroken).imp_right fun hFirst => by simp [hFirst],
        fun word hMem => Or.inr (by simp [hMem]), fun word hMem => ?_⟩
      obtain rfl := List.mem_singleton.1 hMem
      exact (Text.eq_empty_or_words_eq hLast).imp_right fun hLast => by simp [hLast]

namespace IsSealed

variable {text : String} (hSealed : IsSealed text)

include hSealed

theorem isQuotable {word : String} (hMem : word ∈ Text.words text) : IsQuotable word :=
  ⟨Text.isWord_of_mem_words hMem, Text.not_mem_of_mem_words hSealed.noQuote hMem⟩

/-- If the text begins with white space, none of its words is taken for a flag or a quote. -/
theorem plain_of_blank (hBlank : text.toList.head?.any Text.isBlank = true) {word : String}
    (hMem : word = "" ∨ word ∈ Text.words text) :
    isFlagWord word = false ∧ opensQuote word = false := by
  rcases hMem with rfl | hMem
  · decide
  · exact ⟨hSealed.noFlag hBlank word hMem,
      opensQuote_of_noQuote (hSealed.isQuotable hMem).noQuote⟩

/-- All of the text is read under the flag before it, and the reader is back outside. -/
theorem advance_quote (flag : String) :
    ((ArgumentReader.value flag []).advance (Text.words (quote text))).1.RestsAt flag ∧
      ∀ a ∈ ((ArgumentReader.value flag []).advance (Text.words (quote text))).2,
        a.flag = flag := by
  obtain hWord | ⟨first, between, last, hWords, hBlank, hMem⟩ := words_quote text
  · refine ArgumentReader.RestsAt.advance rfl fun word hMem => ?_
    obtain rfl := List.mem_singleton.1 (hWord ▸ hMem)
    have hOpens : opensQuote (quote text) = true := by simp [quote, opensQuote]
    exact ⟨isFlagWord_of_opensQuote hOpens, fun _ => closesQuote_append_quote _⟩
  rw [List.forall_mem_cons, List.forall_mem_append, List.forall_mem_singleton] at hMem
  obtain ⟨hFirst, hBetween, hLast⟩ := hMem
  rw [hWords]
  rcases hFirst with rfl | hFirst
  · -- The quote is closed at once, and the words behind it are no flags.
    have hBlank := hBlank rfl
    refine ArgumentReader.RestsAt.advance rfl ?_
    rw [List.forall_mem_cons, List.forall_mem_append, List.forall_mem_singleton]
    refine ⟨by decide, fun word hMem => ?_, ?_⟩
    · obtain ⟨hFlag, hQuote⟩ := hSealed.plain_of_blank hBlank (hBetween word hMem)
      exact ⟨hFlag, by simp [hQuote]⟩
    · exact ⟨isFlagWord_append_quote (hSealed.plain_of_blank hBlank hLast).1,
        fun _ => closesQuote_append_quote last⟩
  · have hOpen : ∀ word ∈ between, closesQuote word = false := by
      intro word hMem
      rcases hBetween word hMem with rfl | hWord
      · rfl
      · exact closesQuote_of_noQuote (hSealed.isQuotable hWord).noQuote
    rw [ArgumentReader.advance_quotedRun (opensQuote_quote_append first)
      (hSealed.isQuotable hFirst).closesQuote_quote_append hOpen (closesQuote_append_quote last)]
    exact ⟨rfl, by simp⟩

end IsSealed

theorem isTrimmed_quote (text : String) : Text.IsTrimmed (quote text) where
  ne_empty := by simp [quote]
  first hFirst := by
    obtain rfl : '"' = _ := by simpa [quote] using hFirst
    decide
  last hLast := by
    have hText : (quote text).toList = ('"' :: text.toList) ++ ['"'] := by simp [quote]
    rw [hText, List.getLast?_concat] at hLast
    cases hLast
    decide

/-- The words of a rule line up to its comment. -/
def beforeComment (chain : String) (pre : List String) : List String :=
  "-A" :: chain :: (pre ++ ["--comment"])

/-- A rule line with a comment between double quotes. -/
def commentLine (chain : String) (pre : List String) (comment : String) (post : List String) :
    String :=
  " ".intercalate (beforeComment chain pre ++ quote comment :: post)

/-- A rule line around its comment: words without double quotes, but for the name of the chain,
which may have some if it closes the run that it opens. What stands behind the comment begins with a
flag. -/
structure IsAroundComment (chain : String) (pre post : List String) : Prop where
  chain_isWord : Text.IsWord chain
  chain_closes (hOpens : opensQuote chain = true) : closesQuote chain = true
  pre_isQuotable : ∀ word ∈ pre, IsQuotable word
  post_isQuotable : ∀ word ∈ post, IsQuotable word
  post_isFlagWord : ∀ word ∈ post.head?, isFlagWord word = true

section CommentLine

variable {chain : String} {pre post : List String} (hAround : IsAroundComment chain pre post)

include hAround

theorem isWord_of_mem_beforeComment {word : String} (hMem : word ∈ beforeComment chain pre) :
    Text.IsWord word := by
  simp only [beforeComment, List.mem_cons, List.mem_append, List.not_mem_nil, or_false] at hMem
  rcases hMem with rfl | rfl | hMem | rfl
  · decide
  · exact hAround.chain_isWord
  · exact (hAround.pre_isQuotable word hMem).toIsWord
  · decide

theorem trim_commentLine (comment : String) :
    Text.trim (commentLine chain pre comment post) = commentLine chain pre comment post := by
  refine Text.trim_intercalate (List.forall_mem_append.2 ⟨fun word hMem => ?_,
    List.forall_mem_cons.2 ⟨isTrimmed_quote comment, fun word hMem => ?_⟩⟩)
  · exact (isWord_of_mem_beforeComment hAround hMem).isTrimmed
  · exact (hAround.post_isQuotable word hMem).toIsWord.isTrimmed

theorem words_commentLine (comment : String) :
    Text.words (commentLine chain pre comment post) =
      beforeComment chain pre ++ (Text.words (quote comment) ++ post) := by
  have hPost : ∀ word ∈ post, Text.IsWord word :=
    fun word hMem => (hAround.post_isQuotable word hMem).toIsWord
  rw [commentLine, Text.words_intercalate, List.flatMap_append, List.flatMap_cons,
    Text.flatMap_words_of_isWord fun _ => isWord_of_mem_beforeComment hAround,
    Text.flatMap_words_of_isWord hPost]

theorem ofLine_commentLine (comment : String) :
    Directive.ofLine (commentLine chain pre comment post) =
      .appendRule ⟨arguments (commentLine chain pre comment post)⟩ :=
  ofLine_intercalate (trim_commentLine hAround comment)

/-- The comment is come to outside quoted runs. -/
theorem advance_beforeComment :
    (ArgumentReader.start.advance (beforeComment chain pre)).1 = .value "--comment" [] := by
  have hBefore : ∀ word ∈ "-A" :: chain :: pre,
      opensQuote word = true → closesQuote word = true := by
    rw [List.forall_mem_cons, List.forall_mem_cons]
    refine ⟨by decide, hAround.chain_closes, fun word hMem hOpens => ?_⟩
    rw [opensQuote_of_noQuote (hAround.pre_isQuotable word hMem).noQuote] at hOpens
    cases hOpens
  have hOutside : ArgumentReader.start.IsOutside := trivial
  rw [beforeComment, ← List.cons_append, ← List.cons_append, ArgumentReader.advance_append]
  exact congrArg Prod.fst ((hOutside.advance hBefore).step_flag (by decide))

/-- Apart from comments, a line says what it says around its comment. -/
theorem uncommented_arguments {comment : String} (hSealed : IsSealed comment) :
    uncommented (arguments (commentLine chain pre comment post)) =
      uncommented (ArgumentReader.start.advance (beforeComment chain pre)).2 ++
        uncommented ((ArgumentReader.between "--comment").run post) := by
  obtain ⟨hRests, hComment⟩ := hSealed.advance_quote "--comment"
  have hNone : uncommented ((ArgumentReader.value "--comment" []).advance
      (Text.words (quote comment))).2 = [] :=
    List.filter_eq_nil_iff.2 fun a hMem => by simp [hComment a hMem]
  rw [arguments, words_commentLine hAround, ArgumentReader.run_append, ArgumentReader.run_append,
    advance_beforeComment hAround, uncommented, List.filter_append, List.filter_append]
  change _ ++ (uncommented _ ++ uncommented _) = _
  rw [hNone, hRests.uncommented_run hAround.post_isFlagWord]
  rfl

end CommentLine

/-- No comment steers the reading. Two lines that differ only in a comment between double quotes,
both taken for comments as a whole, say the same apart from comments, and lead every session to the
same warnings and the same rules but for the comment of the rule that is added. -/
theorem readLine_commentLine {chain : String} {pre post : List String}
    (hAround : IsAroundComment chain pre post) {x y : String} (hFirst : IsSealed x)
    (hSecond : IsSealed y) (s : Session) :
    uncommented (arguments (commentLine chain pre x post)) =
        uncommented (arguments (commentLine chain pre y post)) ∧
      (s.readLine (commentLine chain pre x post)).eraseComment ⟨s.ruleset.rules.size⟩ =
        (s.readLine (commentLine chain pre y post)).eraseComment ⟨s.ruleset.rules.size⟩ := by
  have hSame : uncommented (arguments (commentLine chain pre x post)) =
      uncommented (arguments (commentLine chain pre y post)) := by
    rw [uncommented_arguments hAround hFirst, uncommented_arguments hAround hSecond]
  refine ⟨hSame, ?_⟩
  have hCounted := Session.appendRule_uncommented { s with line := s.line + 1 }
  rw [Session.readLine, Session.readLine, ofLine_commentLine hAround, ofLine_commentLine hAround,
    Session.obey, Session.obey]
  refine (hCounted _).trans (Eq.trans ?_ (hCounted _).symm)
  rw [RuleLine.uncommented, hSame, RuleLine.uncommented]

/-- An open table with an input chain and a further chain. -/
def opened : Session :=
  readLines ["*filter", ":INPUT ACCEPT [0:0]", ":a - [0:0]"]

theorem readLine_commentLine_opened :
    IsAroundComment "INPUT" ["-p", "tcp"] ["-j", "a"] ∧ IsSealed "drop -g INPUT  here" ∧
      IsSealed " spaced " ∧
      uncommented (arguments (commentLine "INPUT" ["-p", "tcp"] "drop -g INPUT  here" ["-j", "a"])) =
        uncommented (arguments (commentLine "INPUT" ["-p", "tcp"] " spaced " ["-j", "a"])) ∧
      (opened.readLine (commentLine "INPUT" ["-p", "tcp"] "drop -g INPUT  here"
          ["-j", "a"])).eraseComment ⟨opened.ruleset.rules.size⟩ =
        (opened.readLine (commentLine "INPUT" ["-p", "tcp"] " spaced "
          ["-j", "a"])).eraseComment ⟨opened.ruleset.rules.size⟩ :=
  have hAround : IsAroundComment "INPUT" ["-p", "tcp"] ["-j", "a"] :=
    ⟨by decide, by decide, by decide, by decide, by decide⟩
  have hFirst : IsSealed "drop -g INPUT  here" := by decide
  have hSecond : IsSealed " spaced " := by decide
  ⟨hAround, hFirst, hSecond, readLine_commentLine hAround hFirst hSecond opened⟩

/-- White space in front of a comment lets its flags be read. Here the comment makes the rule jump. -/
theorem readLine_commentLine_leading_blank :
    IsAroundComment "INPUT" [] [] ∧ '"' ∉ " -j a -m".toList ∧ '"' ∉ "b".toList ∧
      (opened.readLine (commentLine "INPUT" [] " -j a -m" [])).eraseComment
          ⟨opened.ruleset.rules.size⟩ ≠
        (opened.readLine (commentLine "INPUT" [] "b" [])).eraseComment
          ⟨opened.ruleset.rules.size⟩ := by
  refine ⟨⟨by decide, by decide, by decide, by decide, by decide⟩, by decide, by decide, ?_⟩
  decide +kernel

end Dump

end PacketFlow
