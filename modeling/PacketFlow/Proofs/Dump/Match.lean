import PacketFlow.Proofs.Dump.Designation
import PacketFlow.Proofs.Dump.Segment

/-!
Matches on rule lines. A dump writes a rule as the name of its chain and one match after the other,
each a flag with its value, and an exclamation mark in front of a match that is negated. A flag takes
the words up to the next flag for its value, so the mark is read as the last word of what stands
before it: of the value of another match, or of the name of the chain. No chain has such a name.
-/
namespace PacketFlow.Dump

open Argument

/-- A match as it is written: its flag and the words of its value, with a mark in front or without. -/
structure Match where
  negated : Bool
  flag : String
  value : List String
  deriving DecidableEq, Repr

namespace Match

/-- What stands in front of the flag. -/
def mark (m : Match) : List String :=
  if m.negated then ["!"] else []

/-- All words of the match, in order. -/
def words (m : Match) : List String :=
  m.mark ++ m.flag :: m.value

/-- The flag begins with a dash, and no word of the value can be taken for a flag or a quote. -/
structure WellFormed (m : Match) : Prop where
  flag_isWord : Text.IsWord m.flag
  flag_isFlagWord : isFlagWord m.flag = true
  value_isPlainWord : ∀ word ∈ m.value, IsPlainWord word

instance (m : Match) : Decidable m.WellFormed :=
  decidable_of_iff
    (Text.IsWord m.flag ∧ isFlagWord m.flag = true ∧ ∀ word ∈ m.value, IsPlainWord word)
    ⟨fun ⟨hWord, hFlag, hValue⟩ => ⟨hWord, hFlag, hValue⟩,
      fun h => ⟨h.flag_isWord, h.flag_isFlagWord, h.value_isPlainWord⟩⟩

end Match

/-- The mark in front of the first of the matches. -/
def leadingMark : List Match → List String
  | [] => []
  | m :: _ => m.mark

/-- The matches as they are read: each flag has the mark of the next match at the end of its value. -/
def readPairs : List Match → List Argument
  | [] => []
  | m :: rest => ⟨m.flag, m.value ++ leadingMark rest⟩ :: readPairs rest

/-- What the first match with one of these flags is read to say. -/
def given? (spellings : List String) : List Match → Option String
  | [] => none
  | m :: rest =>
    if m.flag ∈ spellings then Argument.value? ⟨m.flag, m.value ++ leadingMark rest⟩
    else given? spellings rest

/-- A line that adds a rule with these matches to a chain. -/
def matchLine (chain : String) (ms : List Match) : String :=
  " ".intercalate ("-A" :: chain :: ms.flatMap Match.words)

/-- The chain of a rule, which is written like a match. -/
def chainMatch (chain : String) : Match :=
  ⟨false, "-A", [chain]⟩

section Reading

variable {ms : List Match}

theorem wellFormed_chainMatch {chain : String} (hChain : IsPlainWord chain) :
    (chainMatch chain).WellFormed := by
  have hWord : Text.IsWord "-A" := by decide
  have hFlag : isFlagWord "-A" = true := by decide
  exact ⟨hWord, hFlag, List.forall_mem_singleton.2 hChain⟩

theorem flatMap_readPairs (ms : List Match) :
    leadingMark ms ++ (readPairs ms).flatMap (fun a => a.flag :: a.words) =
      ms.flatMap Match.words := by
  induction ms with
  | nil => rfl
  | cons m rest ih =>
      rw [leadingMark, readPairs, List.flatMap_cons, List.flatMap_cons, ← ih, Match.words]
      simp only [List.append_assoc, List.cons_append]

theorem leadingMark_cases (ms : List Match) : leadingMark ms = [] ∨ leadingMark ms = ["!"] := by
  cases ms with
  | nil => exact Or.inl rfl
  | cons m rest =>
      rw [leadingMark, Match.mark]
      split
      · exact Or.inr rfl
      · exact Or.inl rfl

theorem isPlainWord_of_mem_leadingMark {word : String} (hMem : word ∈ leadingMark ms) :
    IsPlainWord word := by
  rcases leadingMark_cases ms with hNone | hMark
  · rw [hNone] at hMem
    exact absurd hMem List.not_mem_nil
  · rw [hMark] at hMem
    obtain rfl := List.mem_singleton.1 hMem
    decide

/-- Marks are read like any other word of a value. -/
theorem forall_mem_readPairs (hMatches : ∀ m ∈ ms, m.WellFormed) : ∀ a ∈ readPairs ms,
    Text.IsWord a.flag ∧ isFlagWord a.flag = true ∧ ∀ word ∈ a.words, IsPlainWord word := by
  induction ms with
  | nil => exact fun _ hMem => absurd hMem List.not_mem_nil
  | cons m rest ih =>
      obtain ⟨hMatch, hRest⟩ := List.forall_mem_cons.1 hMatches
      rw [readPairs, List.forall_mem_cons]
      refine ⟨⟨hMatch.flag_isWord, hMatch.flag_isFlagWord, ?_⟩, ih hRest⟩
      exact List.forall_mem_append.2
        ⟨hMatch.value_isPlainWord, fun _ => isPlainWord_of_mem_leadingMark⟩

theorem isWord_of_mem_flatMap_words (hMatches : ∀ m ∈ ms, m.WellFormed) :
    ∀ word ∈ ms.flatMap Match.words, Text.IsWord word := by
  rw [← flatMap_readPairs, List.forall_mem_append]
  refine ⟨fun word hMem => (isPlainWord_of_mem_leadingMark hMem).toIsWord, fun word hMem => ?_⟩
  obtain ⟨a, hArg, hMem⟩ := List.mem_flatMap.1 hMem
  obtain ⟨hFlag, -, hValue⟩ := forall_mem_readPairs hMatches a hArg
  rcases List.mem_cons.1 hMem with rfl | hMem
  · exact hFlag
  · exact (hValue word hMem).toIsWord

/-- Matches are read as their pairs if no mark stands in front of the first. -/
theorem arguments_intercalate_words (hMatches : ∀ m ∈ ms, m.WellFormed)
    (hFirst : leadingMark ms = []) :
    arguments (" ".intercalate (ms.flatMap Match.words)) = readPairs ms := by
  refine arguments_eq ?_ fun a hArg => ?_
  · rw [Text.words_intercalate_of_isWord (isWord_of_mem_flatMap_words hMatches),
      ← flatMap_readPairs, hFirst, List.nil_append]
  · obtain ⟨-, hFlag, hValue⟩ := forall_mem_readPairs hMatches a hArg
    exact ⟨hFlag, Or.inl fun word hMem => ⟨(hValue word hMem).notFlag, (hValue word hMem).notQuote⟩⟩

/-- What is found under a flag is what the first match with that flag is read to say. -/
theorem value?_readPairs (spellings : List String) (ms : List Match) :
    (RuleLine.mk (readPairs ms)).value? spellings = given? spellings ms := by
  rw [RuleLine.value?]
  induction ms with
  | nil => rfl
  | cons m rest ih =>
      rw [given?, readPairs, find?]
      by_cases hFlag : m.flag ∈ spellings
      · rw [if_pos hFlag, List.find?_cons_of_pos (by simpa using hFlag), Option.bind_some]
      · rw [if_neg hFlag, List.find?_cons_of_neg (by simpa using hFlag)]
        exact ih

theorem ofLine_matchLine {chain : String} (hChain : IsPlainWord chain)
    (hMatches : ∀ m ∈ ms, m.WellFormed) :
    Directive.ofLine (matchLine chain ms) = .appendRule ⟨readPairs (chainMatch chain :: ms)⟩ := by
  have hAll : ∀ m ∈ chainMatch chain :: ms, m.WellFormed :=
    List.forall_mem_cons.2 ⟨wellFormed_chainMatch hChain, hMatches⟩
  have hPieces : (chainMatch chain :: ms).flatMap Match.words =
      "-A" :: chain :: ms.flatMap Match.words := rfl
  have hWords := isWord_of_mem_flatMap_words hAll
  have hRead := arguments_intercalate_words hAll rfl
  rw [hPieces] at hWords hRead
  rw [matchLine, ofLine_intercalate (Text.trim_intercalate_of_isWord hWords), hRead]

/-- A mark in front of the first match is read as part of the name of the chain. -/
theorem chainName?_readPairs (chain : String) (ms : List Match) :
    (RuleLine.mk (readPairs (chainMatch chain :: ms))).chainName? =
      some (" ".intercalate (chain :: leadingMark ms)) := by
  rw [RuleLine.chainName?, value?_readPairs]
  rfl

theorem value?_readPairs_chainMatch {spellings : List String} (hOther : "-A" ∉ spellings)
    (chain : String) (ms : List Match) :
    (RuleLine.mk (readPairs (chainMatch chain :: ms))).value? spellings = given? spellings ms := by
  rw [value?_readPairs, given?, if_neg (by exact hOther)]

end Reading

section Rules

/-- One rule is added, at the end of the chain `c`. All tables stay as they are, and so do all chains
but `c`; an extension for the rule to jump to can be new. -/
structure Session.Appends (s : Session) (c : ChainId) (rule : Rule) (next : Session) : Prop where
  rules : next.ruleset.rules = s.ruleset.rules.push rule
  owner : rule.chain = c
  chains {d : ChainId} {chain : Chain} (hChain : s.ruleset.chain? d = some chain) :
    next.ruleset.chain? d = some (s.ruleset.listRule c d chain)
  tables : next.ruleset.tables = s.ruleset.tables

namespace Session

variable {s : Session} {line name : String} {ruleLine : RuleLine} {id : TableId} {table : Table}
  (hLine : Directive.ofLine line = .appendRule ruleLine) (hName : ruleLine.chainName? = some name)
  (hOpen : s.openTable? = some (id, table))

include hLine hName hOpen

theorem readLine_of_unknown (hUnknown : s.ruleset.chainNamed? id name = none) :
    s.readLine line = { s with
      line := s.line + 1
      warnings := s.warnings.push ⟨s.line + 1, .unknownChain table.name name⟩ } := by
  have hCounted : openTable? { s with line := s.line + 1 } = some (id, table) := hOpen
  simp only [readLine, hLine, obey, appendRule, hName, hCounted, hUnknown, warn]

theorem Sound.appends (hSound : s.Sound) {c : ChainId}
    (hFound : s.ruleset.chainNamed? id name = some c) :
    ∃ rule, s.Appends c rule (s.readLine line) ∧ rule.toRuleBody =
      ruleLine.body (ruleLine.target? s.ruleset id .jump) (ruleLine.target? s.ruleset id .goto) := by
  have hCounted : openTable? { s with line := s.line + 1 } = some (id, table) := hOpen
  have h := hSound.built.consistent
  obtain ⟨owner, hOwner, -⟩ := h.chainNamed?_eq_some_iff.1 hFound
  rw [readLine, hLine, obey, appendRule, hName, hCounted]
  simp only [hFound]
  rw [placeRule_eq (s := { s with line := s.line + 1 }) h id table hOwner ruleLine]
  refine ⟨_, ⟨congrArg (Array.push · _) (ruleLine.rules_ready s.ruleset), rfl, fun hChain => ?_,
    ruleLine.tables_ready s.ruleset⟩, rfl⟩
  refine (Ruleset.chain?_withRule_of_some (ruleLine.chain?_ready_of_some hChain)).trans ?_
  rw [Ruleset.listRule, ruleLine.rules_ready, Ruleset.listRule]

end Session

/-- What a line with matches does, for a chain of the open table. If the first match is not negated,
the line adds one rule to the chain, and the rule says of each property of packets what the first match
with a flag for it is read to say. If the first match is negated, the name of the chain is read with
the mark, no rule is added, and there is a warning about that name. -/
theorem readLines_matchLine {lines : List String} {id : TableId} {table : Table} {chain : String}
    {c : ChainId} {ms : List Match} (hOpen : (readLines lines).openTable? = some (id, table))
    (hFound : (readLines lines).ruleset.chainNamed? id chain = some c)
    (hChain : IsPlainWord chain) (hMatches : ∀ m ∈ ms, m.WellFormed) :
    (leadingMark ms = [] → ∃ rule,
        (readLines lines).Appends c rule (readLines (lines ++ [matchLine chain ms])) ∧
        rule.protocol = given? ["-p", "--protocol"] ms ∧
        rule.source = given? ["-s", "--source"] ms ∧
        rule.destination = given? ["-d", "--destination"] ms ∧
        rule.inInterface = given? ["-i", "--in-interface"] ms ∧
        rule.outInterface = given? ["-o", "--out-interface"] ms) ∧
      (leadingMark ms ≠ [] → readLines (lines ++ [matchLine chain ms]) = { readLines lines with
        line := (readLines lines).line + 1
        warnings := (readLines lines).warnings.push
          ⟨(readLines lines).line + 1, .unknownChain table.name (chain ++ " !")⟩ }) := by
  have hLine := ofLine_matchLine hChain hMatches
  have hName := chainName?_readPairs chain ms
  rw [readLines_concat]
  constructor
  · intro hFirst
    rw [hFirst, String.intercalate_singleton] at hName
    obtain ⟨rule, hAppends, hBody⟩ :=
      (sound_readLines lines).appends hLine hName hOpen hFound
    refine ⟨rule, hAppends, ?_⟩
    rw [hBody]
    refine ⟨?_, ?_, ?_, ?_, ?_⟩
    all_goals exact value?_readPairs_chainMatch (by decide) chain ms
  · intro hNegated
    -- The mark stands behind a blank, and no name of a chain has one.
    have hJoined : " ".intercalate (chain :: leadingMark ms) = chain ++ " !" := by
      rw [(leadingMark_cases ms).resolve_left hNegated, String.intercalate_cons_cons,
        String.intercalate_singleton, String.append_assoc]
      rfl
    rw [hJoined] at hName
    refine Session.readLine_of_unknown hLine hName hOpen ?_
    refine chainNamed?_eq_none_of_not_isWord lines id fun hWord => ?_
    exact absurd (hWord.unbroken ' ' (by simp)) (by decide)

/-- Three matches, the second of which is negated. -/
def tcpMatches : List Match :=
  [⟨false, "-s", ["10.0.0.1"]⟩, ⟨true, "--protocol", ["tcp"]⟩, ⟨false, "-i", []⟩]

theorem readLines_matchLine_lan :
    ∃ rule, (readLines lanLines).Appends ⟨1⟩ rule
        (readLines (lanLines ++ [matchLine "lan" tcpMatches])) ∧
      rule.protocol = some "tcp" ∧ rule.source = some "10.0.0.1 !" ∧ rule.destination = none ∧
      rule.inInterface = none ∧ rule.outInterface = none := by
  have hOpen : (readLines lanLines).openTable? = some (⟨0⟩, ⟨"filter", [⟨0⟩, ⟨1⟩]⟩) := by
    decide +kernel
  have hFound : (readLines lanLines).ruleset.chainNamed? ⟨0⟩ "lan" = some ⟨1⟩ := by
    decide +kernel
  have hMatches : ∀ m ∈ tcpMatches, m.WellFormed := by decide
  exact (readLines_matchLine hOpen hFound (by decide) hMatches).1 rfl

/-- The mark of a negated match is read as part of what stands before it: a protocol is misread, or no
chain is found and the rule is lost. -/
theorem readLines_negated_match :
    (∀ m ∈ [⟨false, "-p", ["tcp"]⟩, ⟨true, "-s", ["10.0.0.1"]⟩], Match.WellFormed m) ∧
      matchLine "INPUT" [⟨false, "-p", ["tcp"]⟩, ⟨true, "-s", ["10.0.0.1"]⟩] =
        "-A INPUT -p tcp ! -s 10.0.0.1" ∧
      ((readLines (lanLines ++ ["-A INPUT -p tcp ! -s 10.0.0.1"])).ruleset.rule? ⟨0⟩).map
        (·.protocol) = some (some "tcp !") ∧
      matchLine "INPUT" [⟨true, "-s", ["10.0.0.1"]⟩] = "-A INPUT ! -s 10.0.0.1" ∧
      (readLines (lanLines ++ ["-A INPUT ! -s 10.0.0.1"])).ruleset.rules = #[] := by
  decide +kernel

end Rules

end PacketFlow.Dump
