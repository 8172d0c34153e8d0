/-!
The JSON values that graphs are written as, and their written form: two blanks of indentation for
every level, each element and each member on a line of its own, empty lists and objects closed at
once. Members stand in the order given, and every value has exactly one written form.
-/
namespace PacketFlow

/-- A JSON value. An object is a list of members in the order in which they are written. -/
inductive Json where
  | text (s : String)
  | number (n : Nat)
  | truth (b : Bool)
  | list (elements : List Json)
  | object (members : List (String × Json))

namespace Json

/-- The digit of a number below sixteen, in small letters. -/
def hexDigit (n : Nat) : Char :=
  if n < 10 then Char.ofNat ('0'.toNat + n) else Char.ofNat ('a'.toNat + (n - 10))

/-- A character as it stands in a string. Control characters have a short escape or are given by
number; DEL and all characters beyond ASCII stand for themselves. -/
def escapeChar (c : Char) : List Char :=
  match c with
  | '"' => ['\\', '"']
  | '\\' => ['\\', '\\']
  | '\n' => ['\\', 'n']
  | '\t' => ['\\', 't']
  | '\r' => ['\\', 'r']
  | '\x08' => ['\\', 'b']
  | '\x0c' => ['\\', 'f']
  | _ =>
    if c.toNat < 0x20 then
      ['\\', 'u', '0', '0', hexDigit (c.toNat / 16), hexDigit (c.toNat % 16)]
    else [c]

/-- A text as a JSON string. -/
def quote (s : String) : String :=
  "\"" ++ .ofList (s.toList.flatMap escapeChar) ++ "\""

/-- The line break before an element or member at that depth. -/
def newline (depth : Nat) : String :=
  "\n" ++ String.join (List.replicate depth "  ")

mutual

/-- A value as it is written inside so many levels. -/
def write (depth : Nat) : Json → String
  | text s => quote s
  | number n => toString n
  | truth b => if b then "true" else "false"
  | list [] => "[]"
  | list (e :: es) =>
    "[" ++ newline (depth + 1) ++ e.write (depth + 1) ++ writeElements (depth + 1) es ++
      newline depth ++ "]"
  | object [] => "\x7b\x7d"
  | object (m :: ms) =>
    "\x7b" ++ newline (depth + 1) ++ writeMember (depth + 1) m ++ writeMembers (depth + 1) ms ++
      newline depth ++ "\x7d"

/-- The elements of a list after the first. -/
def writeElements (depth : Nat) : List Json → String
  | [] => ""
  | e :: es => "," ++ newline depth ++ e.write depth ++ writeElements depth es

/-- A member of an object. -/
def writeMember (depth : Nat) : String × Json → String
  | (key, value) => quote key ++ ": " ++ value.write depth

/-- The members of an object after the first. -/
def writeMembers (depth : Nat) : List (String × Json) → String
  | [] => ""
  | m :: ms => "," ++ newline depth ++ writeMember depth m ++ writeMembers depth ms

end

/-- A value as a document. -/
def pretty (value : Json) : String :=
  value.write 0

end Json

end PacketFlow
