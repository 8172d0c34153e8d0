import PacketFlow.Proofs.Dump.Ownership
import PacketFlow.Proofs.Flow.Counterpart

/-!
The arrangement of a dump. Sections of different tables may change places, be interleaved or be split
by naming a table again, and lines before the first table may be anything. The numbers given out
differ then, but the tables say the same, and packets have the same picture.
-/
namespace PacketFlow.Dump

/-- Dumps in which every table has the same lines give the same picture for packets of any origin. -/
theorem picture_eq_of_ownedLines_eq {first second : List String}
    (hOwned : ∀ key, ownedLines key first = ownedLines key second) (origin : Origin) :
    ∃ text, (readLines first).ruleset.render? origin .dot = some text ∧
      (readLines second).ruleset.render? origin .dot = some text := by
  have hFirst := sound_readLines first
  have hSecond := sound_readLines second
  have hContents (name : String) : (readLines first).ruleset.contentNamed? name =
      (readLines second).ruleset.contentNamed? name := by
    rw [contentNamed?_readLines, contentNamed?_readLines, hOwned]
  exact Ruleset.exists_picture?_of_contents hFirst.built.consistent hSecond.built.consistent
    hContents hFirst.confined hSecond.confined origin

/-- A dump that names one table twice on end, and another after it. -/
def inOrder : List String :=
  ["*nat", ":POSTROUTING ACCEPT", "*NAT", "-A POSTROUTING -j SNAT", "*filter", ":INPUT DROP",
    "-A INPUT -j REJECT"]

/-- The same dump with the second table inside the first, after a line that belongs to no table. -/
def interleaved : List String :=
  [":stray -", "*nat", ":POSTROUTING ACCEPT", "*filter", ":INPUT DROP", "-A INPUT -j REJECT", "*NAT",
    "-A POSTROUTING -j SNAT"]

theorem ownedLines_inOrder (key : String) :
    ownedLines key inOrder = ownedLines key interleaved := by
  have hNamed : inOrder.map namedTable? =
      [some "nat", none, some "nat", none, some "filter", none, none] := by decide +kernel
  have hNamed' : interleaved.map namedTable? =
      [none, some "nat", none, some "filter", none, none, some "nat", none] := by decide +kernel
  simp only [inOrder, interleaved, List.map_cons, List.map_nil, List.cons.injEq] at hNamed hNamed'
  by_cases hNat : key = "nat"
  · subst hNat
    simp [ownedLines, ownedFrom, inOrder, interleaved, hNamed, hNamed']
  · by_cases hFilter : key = "filter"
    · subst hFilter
      simp [ownedLines, ownedFrom, inOrder, interleaved, hNamed, hNamed']
    · simp [ownedLines, ownedFrom, inOrder, interleaved, hNamed, hNamed', Ne.symm hNat,
        Ne.symm hFilter]

theorem picture_eq_of_ownedLines_eq_inOrder :
    (∀ key, ownedLines key inOrder = ownedLines key interleaved) ∧
      ∃ text, (readLines inOrder).ruleset.render? .outside .dot = some text ∧
        (readLines interleaved).ruleset.render? .outside .dot = some text :=
  ⟨ownedLines_inOrder, picture_eq_of_ownedLines_eq ownedLines_inOrder .outside⟩

end PacketFlow.Dump
