import PacketFlow.Proofs.Text.Words
import PacketFlow.Text.Line

/-!
Lines and the texts that are made of them.
-/
namespace PacketFlow.Text

/-- Lines as a text, with a line feed after each. -/
def unlines (lines : List String) : String :=
  String.join (lines.map (· ++ "\n"))

/-- A text that can stand on a line: it has no line feed, and no carriage return at its end. -/
structure IsLine (s : String) : Prop where
  unbroken : '\n' ∉ s.toList
  plainEnd : s.toList.getLast? ≠ some '\r'

instance (s : String) : Decidable (IsLine s) :=
  decidable_of_iff ('\n' ∉ s.toList ∧ s.toList.getLast? ≠ some '\r')
    ⟨fun h => ⟨h.1, h.2⟩, fun h => ⟨h.unbroken, h.plainEnd⟩⟩

theorem isLine_of_trim {s : String} (hUnbroken : '\n' ∉ s.toList) (hTrim : trim s = s) : IsLine s where
  unbroken := hUnbroken
  plainEnd hLast := by
    rw [← hTrim] at hLast
    exact absurd (isBlank_getLast_trim s hLast) (by decide)

theorem isLine_intercalate {ws : List String} (hWords : ∀ w ∈ ws, IsWord w) :
    IsLine (" ".intercalate ws) := by
  refine isLine_of_trim (not_mem_intercalate (by decide) fun w hMem hBreak => ?_)
    (trim_intercalate_of_isWord hWords)
  exact absurd ((hWords w hMem).unbroken _ hBreak) (by decide)

/-- Cutting a text into lines undoes their writing. -/
theorem lines_unlines {ls : List String} (hLines : ∀ line ∈ ls, IsLine line) :
    lines (unlines ls) = ls := by
  have hSplit : (unlines ls).toList.splitOnP (· == '\n') = ls.map String.toList ++ [[]] := by
    induction ls with
    | nil => simp [unlines]
    | cons line ls ih =>
        obtain ⟨hLine, hRest⟩ := List.forall_mem_cons.1 hLines
        have hText : (unlines (line :: ls)).toList = line.toList ++ '\n' :: (unlines ls).toList := by
          simp [unlines]
        have hClear : ∀ c ∈ line.toList, (c == '\n') = false := by
          intro c hMem
          exact beq_false_of_ne fun hSame => hLine.unbroken (hSame ▸ hMem)
        rw [hText, List.splitOnP_append_cons_of_forall_mem hClear _ (by decide), ih hRest,
          List.map_cons, List.cons_append]
  have hReturn : (ls.map String.toList).map dropReturn = ls.map String.toList := by
    rw [List.map_map]
    refine List.map_congr_left fun line hMem => ?_
    exact if_neg (hLines line hMem).plainEnd
  rw [lines, lineLists, hSplit]
  simp [hReturn]

end PacketFlow.Text
