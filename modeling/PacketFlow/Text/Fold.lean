/-!
Comparison of names without regard to the case of ASCII letters. All other characters, letters
with accents included, are compared as they are.
-/
namespace PacketFlow.Text

/-- A name with its ASCII capitals written small. Two names are the same name when this is. -/
def fold (s : String) : String :=
  s.map Char.toLower

/-- Whether two names agree up to the case of ASCII letters. -/
def sameName (a b : String) : Bool :=
  fold a == fold b

theorem sameName_iff {a b : String} : sameName a b = true ↔ fold a = fold b := by
  simp [sameName]

end PacketFlow.Text
