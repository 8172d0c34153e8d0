import PacketFlow.Proofs.Dump.Arguments
import PacketFlow.Proofs.Dump.Effect
import PacketFlow.Proofs.Text.Lines

/-!
Descriptions of tables and the dumps that write them down. A dump writes each table as a section: the
name of the table, its chains, and the rules of one chain after the other. The flags of a rule stand
in any order and are spelled short or long.
-/
namespace PacketFlow.Dump

/-- Names that do not only differ in the case of their letters. -/
def Distinct (names : List String) : Prop :=
  (names.map Text.fold).Nodup

instance (names : List String) : Decidable (Distinct names) :=
  inferInstanceAs (Decidable (names.map Text.fold).Nodup)

/-- What a rule line can tell about a rule, apart from its chain. -/
inductive Field where
  | comment
  | protocol
  | source
  | destination
  | inInterface
  | outInterface
  | jump
  | goto
  deriving DecidableEq, Repr

/-- All fields. -/
def Field.all : List Field :=
  [comment, protocol, source, destination, inInterface, outInterface, jump, goto]

/-- The flags under which a field can be given. -/
def Field.spellings : Field → List String
  | comment => ["--comment"]
  | protocol => ["-p", "--protocol"]
  | source => ["-s", "--source"]
  | destination => ["-d", "--destination"]
  | inInterface => ["-i", "--in-interface"]
  | outInterface => ["-o", "--out-interface"]
  | jump => RuleLine.targetFlags .jump
  | goto => RuleLine.targetFlags .goto

/-- A rule as it is to be: its comment word by word, and its targets by name. -/
structure RuleEntry where
  comment : Option (List String)
  protocol : Option String
  source : Option String
  destination : Option String
  inInterface : Option String
  outInterface : Option String
  jump : Option Destination
  goto : Option String
  deriving DecidableEq, Repr

/-- A chain with its rules. -/
structure ChainEntry where
  name : String
  policy : String
  rules : List RuleEntry
  deriving DecidableEq, Repr

/-- A table with its chains. -/
structure TableEntry where
  name : String
  chains : List ChainEntry
  deriving DecidableEq, Repr

end Dump

namespace Destination

/-- The name of a destination. -/
def name : Destination → String
  | extension name => name
  | chain name => name

/-- A name to which a rule can jump in a table with these chains: that of an extension, or that of a
chain, unless it is also that of an extension. -/
def IsJumpOf (chains : List String) : Destination → Prop
  | extension name => Dump.isExtensionName name = true
  | chain name => name ∈ chains ∧ Dump.isExtensionName name = false

instance (chains : List String) : DecidablePred (IsJumpOf chains)
  | extension name => inferInstanceAs (Decidable (Dump.isExtensionName name = true))
  | chain name => inferInstanceAs (Decidable (name ∈ chains ∧ Dump.isExtensionName name = false))

end Destination

namespace Dump

namespace RuleEntry

/-- What is written for a field of a rule that has it. -/
def text? (entry : RuleEntry) : Field → Option String
  | .comment => entry.comment.map fun words => quote (" ".intercalate words)
  | .protocol => entry.protocol
  | .source => entry.source
  | .destination => entry.destination
  | .inInterface => entry.inInterface
  | .outInterface => entry.outInterface
  | .jump => entry.jump.map Destination.name
  | .goto => entry.goto

/-- What the tables say of the rule in a position. -/
def content (entry : RuleEntry) (position : Nat) : RuleContent where
  comment := entry.comment.map (" ".intercalate ·)
  protocol := entry.protocol
  source := entry.source
  destination := entry.destination
  inInterface := entry.inInterface
  outInterface := entry.outInterface
  jump := entry.jump
  goto := entry.goto.map .chain
  position := position

/-- A rule of a table with these chains: texts are words that cannot be taken for flags or quotes,
and targets are chains of the table or, for a jump, extensions. -/
structure WellFormed (chains : List String) (entry : RuleEntry) : Prop where
  comment : ∀ words ∈ entry.comment, ∀ w ∈ words, IsQuotable w
  protocol : ∀ text ∈ entry.protocol, IsPlainWord text
  source : ∀ text ∈ entry.source, IsPlainWord text
  destination : ∀ text ∈ entry.destination, IsPlainWord text
  inInterface : ∀ text ∈ entry.inInterface, IsPlainWord text
  outInterface : ∀ text ∈ entry.outInterface, IsPlainWord text
  jump : ∀ target ∈ entry.jump, target.IsJumpOf chains
  goto : ∀ name ∈ entry.goto, name ∈ chains

instance (chains : List String) (entry : RuleEntry) : Decidable (entry.WellFormed chains) :=
  decidable_of_iff
    ((∀ words ∈ entry.comment, ∀ w ∈ words, IsQuotable w) ∧
      (∀ text ∈ entry.protocol, IsPlainWord text) ∧ (∀ text ∈ entry.source, IsPlainWord text) ∧
      (∀ text ∈ entry.destination, IsPlainWord text) ∧
      (∀ text ∈ entry.inInterface, IsPlainWord text) ∧
      (∀ text ∈ entry.outInterface, IsPlainWord text) ∧
      (∀ target ∈ entry.jump, target.IsJumpOf chains) ∧ ∀ name ∈ entry.goto, name ∈ chains)
    ⟨fun ⟨hComment, hProtocol, hSource, hDestination, hIn, hOut, hJump, hGoto⟩ =>
        ⟨hComment, hProtocol, hSource, hDestination, hIn, hOut, hJump, hGoto⟩,
      fun ⟨hComment, hProtocol, hSource, hDestination, hIn, hOut, hJump, hGoto⟩ =>
        ⟨hComment, hProtocol, hSource, hDestination, hIn, hOut, hJump, hGoto⟩⟩

/-- The pieces of a line that appends the rule to a chain and gives its fields under these flags. -/
def pieces (entry : RuleEntry) (chain : String) (flags : List (Field × String)) : List String :=
  "-A" :: chain :: flags.flatMap fun flag => [flag.2, (entry.text? flag.1).getD ""]

/-- The line writes the rule for a chain. -/
def Writes (entry : RuleEntry) (chain line : String) : Prop :=
  ∃ flags : List (Field × String),
    (flags.map Prod.fst).Perm (Field.all.filter fun field => (entry.text? field).isSome) ∧
    (∀ flag ∈ flags, flag.2 ∈ flag.1.spellings) ∧
    line = " ".intercalate (entry.pieces chain flags)

/-- What the tables say of rules that follow each other, the first in that position. -/
def contents : (position : Nat) → List RuleEntry → List RuleContent
  | _, [] => []
  | position, entry :: rest => entry.content position :: contents (position + 1) rest

end RuleEntry

namespace ChainEntry

/-- What the tables say of the chain. -/
def content (entry : ChainEntry) : ChainContent :=
  ⟨entry.name, entry.policy, RuleEntry.contents 1 entry.rules⟩

/-- A chain of a table with these chains. -/
structure WellFormed (chains : List String) (entry : ChainEntry) : Prop where
  name : IsPlainWord entry.name
  policy : Text.IsWord entry.policy
  rules : ∀ rule ∈ entry.rules, rule.WellFormed chains

instance (chains : List String) (entry : ChainEntry) : Decidable (entry.WellFormed chains) :=
  decidable_of_iff (IsPlainWord entry.name ∧ Text.IsWord entry.policy ∧
      ∀ rule ∈ entry.rules, rule.WellFormed chains)
    ⟨fun h => ⟨h.1, h.2.1, h.2.2⟩, fun h => ⟨h.name, h.policy, h.rules⟩⟩

/-- The line that declares the chain. -/
def line (entry : ChainEntry) : String :=
  ":" ++ entry.name ++ " " ++ entry.policy ++ " [0:0]"

/-- The lines write the rules of the chain. -/
def Writes (entry : ChainEntry) (lines : List String) : Prop :=
  List.Forall₂ (fun rule line => rule.Writes entry.name line) entry.rules lines

end ChainEntry

namespace TableEntry

/-- What the table says. -/
def content (entry : TableEntry) : TableContent :=
  ⟨entry.name, entry.chains.map ChainEntry.content⟩

/-- A table whose chains are told apart by their names. -/
structure WellFormed (entry : TableEntry) : Prop where
  name_ne_empty : entry.name ≠ ""
  name_trimmed : Text.trim entry.name = entry.name
  name_unbroken : '\n' ∉ entry.name.toList
  chains : ∀ chain ∈ entry.chains, chain.WellFormed (entry.chains.map ChainEntry.name)
  distinct : Distinct (entry.chains.map ChainEntry.name)

instance (entry : TableEntry) : Decidable entry.WellFormed :=
  decidable_of_iff (entry.name ≠ "" ∧ Text.trim entry.name = entry.name ∧
      '\n' ∉ entry.name.toList ∧
      (∀ chain ∈ entry.chains, chain.WellFormed (entry.chains.map ChainEntry.name)) ∧
      Distinct (entry.chains.map ChainEntry.name))
    ⟨fun ⟨hSome, hTrimmed, hUnbroken, hChains, hDistinct⟩ =>
        ⟨hSome, hTrimmed, hUnbroken, hChains, hDistinct⟩,
      fun ⟨hSome, hTrimmed, hUnbroken, hChains, hDistinct⟩ =>
        ⟨hSome, hTrimmed, hUnbroken, hChains, hDistinct⟩⟩

/-- The lines write the table: its name, its chains, then the rules chain by chain. -/
def Writes (entry : TableEntry) (lines : List String) : Prop :=
  ∃ rules : List (List String), List.Forall₂ ChainEntry.Writes entry.chains rules ∧
    lines = ("*" ++ entry.name) :: (entry.chains.map ChainEntry.line ++ rules.flatten)

end TableEntry

/-- Tables that are told apart by their names. -/
structure WellFormed (tables : List TableEntry) : Prop where
  each : ∀ table ∈ tables, table.WellFormed
  distinct : Distinct (tables.map TableEntry.name)

instance (tables : List TableEntry) : Decidable (WellFormed tables) :=
  decidable_of_iff ((∀ table ∈ tables, table.WellFormed) ∧ Distinct (tables.map TableEntry.name))
    ⟨fun h => ⟨h.1, h.2⟩, fun h => ⟨h.each, h.distinct⟩⟩

/-- A line that says nothing about the tables: it is blank, a comment, or the end of a section. -/
def isAside (line : String) : Bool :=
  match (Text.trim line).toList with
  | [] => true
  | '#' :: _ => true
  | cs => cs == "COMMIT".toList

/-- The text writes the tables one after the other, and may have other lines anywhere that say
nothing about them. -/
def Writes (tables : List TableEntry) (text : String) : Prop :=
  ∃ (sections : List (List String)) (lines : List String),
    List.Forall₂ TableEntry.Writes tables sections ∧
    lines.filter (fun line => !isAside line) = sections.flatten ∧
    (∀ line ∈ lines, isAside line = true → Text.IsLine line) ∧
    text = Text.unlines lines

end Dump

end PacketFlow
