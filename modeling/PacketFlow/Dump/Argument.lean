import PacketFlow.Text.Blank

/-!
A rule line of a dump as a list of flags with their values. The line is cut into words, and a flag
takes the words up to the next flag as its value. A value word that begins with a double quote opens
a quoted run, in which words that look like flags belong to the value; the run ends with the first
word that ends in a double quote, and with it the flag's value. Words that follow make a further
pair under the same flag. A run that is never closed reaches to the end of the line.
-/
namespace PacketFlow.Dump

/-- A flag and the words of its value. A flag without words stands alone. -/
structure Argument where
  flag : String
  words : List String
  deriving DecidableEq, Repr

namespace Argument

/-- Whether the flag stands without a value. -/
def isBare (a : Argument) : Bool :=
  a.words.isEmpty

/-- The value, its words joined by single blanks. -/
def value (a : Argument) : String :=
  " ".intercalate a.words

/-- The value, if the flag has one. -/
def value? (a : Argument) : Option String :=
  if a.isBare then none else some a.value

/-- The value, where the mere presence of a flag counts as the word `true`. -/
def reading (a : Argument) : String :=
  a.value?.getD "true"

/-- The pair as it would be written on a line. -/
def text (a : Argument) : String :=
  match a.value? with
  | none => a.flag
  | some value => s!"{a.flag} {value}"

/-- Whether a word is a flag. -/
def isFlagWord (word : String) : Bool :=
  word.toList.head? == some '-'

/-- Whether a value word opens a quoted run. -/
def opensQuote (word : String) : Bool :=
  word.toList.head? == some '"'

/-- Whether a word closes the quoted run that it stands in. A lone quote both opens and closes. -/
def closesQuote (word : String) : Bool :=
  word.toList.getLast? == some '"'

end Argument

/-- How far the reading of a rule line has come. -/
inductive ArgumentReader where
  /-- No flag has been read; words before the first one are dropped. -/
  | start
  /-- A quoted run has just been closed, which ended the value of this flag. -/
  | between (flag : String)
  /-- The value of the flag is being read, and has these words so far. -/
  | value (flag : String) (words : List String)
  /-- The same, inside a quoted run. -/
  | quoted (flag : String) (words : List String)
  deriving DecidableEq, Repr

namespace ArgumentReader

open Argument

/-- Adds an unquoted word to a value, which may open a quoted run or be one by itself. -/
def take (flag : String) (words : List String) (word : String) : ArgumentReader × List Argument :=
  if opensQuote word then
    if closesQuote word then (between flag, [⟨flag, words ++ [word]⟩])
    else (quoted flag (words ++ [word]), [])
  else (value flag (words ++ [word]), [])

/-- Reads one word, and gives the pair that this word completes, if any. -/
def step : ArgumentReader → String → ArgumentReader × List Argument
  | start, word => if isFlagWord word then (value word [], []) else (start, [])
  | between flag, word => if isFlagWord word then (value word [], []) else take flag [] word
  | value flag words, word =>
    if isFlagWord word then (value word [], [⟨flag, words⟩]) else take flag words word
  | quoted flag words, word =>
    if closesQuote word then (between flag, [⟨flag, words ++ [word]⟩])
    else (quoted flag (words ++ [word]), [])

/-- The pair that the end of the line completes, if any. -/
def finish : ArgumentReader → List Argument
  | start => []
  | between _ => []
  | value flag words => [⟨flag, words⟩]
  | quoted flag words => [⟨flag, words⟩]

/-- The pairs completed by the words to come and by the end of the line. -/
def run : ArgumentReader → List String → List Argument
  | reader, [] => reader.finish
  | reader, word :: rest => (reader.step word).2 ++ run (reader.step word).1 rest

end ArgumentReader

/-- The flags and values of a line, in order. -/
def arguments (line : String) : List Argument :=
  ArgumentReader.start.run (Text.words line)

/-- Where the first pair stands whose flag is one of these spellings. -/
def indexOf? (spellings : List String) (args : List Argument) : Option Nat :=
  args.findIdx? fun a => spellings.contains a.flag

/-- The first pair whose flag is one of these spellings. -/
def find? (spellings : List String) (args : List Argument) : Option Argument :=
  args.find? fun a => spellings.contains a.flag

end PacketFlow.Dump
