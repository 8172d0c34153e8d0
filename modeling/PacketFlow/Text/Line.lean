/-!
A text as a sequence of lines. A line feed ends a line, and a carriage return directly before it
belongs to the line's end; nothing else separates lines.
-/
namespace PacketFlow.Text

/-- A line without the carriage return that may close it. -/
def dropReturn (line : List Char) : List Char :=
  if line.getLast? = some '\r' then line.dropLast else line

/-- The lines among the pieces between line feeds. What follows the last line feed is a line only
if it is not empty, and it keeps its carriage return, since no line feed stands after it. -/
def lineLists (cs : List Char) : List (List Char) :=
  let pieces := cs.splitOnP (· == '\n')
  pieces.dropLast.map dropReturn ++ pieces.getLast?.toList.filter (· ≠ [])

/-- The lines of a text, in order. -/
def lines (s : String) : List String :=
  (lineLists s.toList).map String.ofList

end PacketFlow.Text
