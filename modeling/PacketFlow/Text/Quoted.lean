import PacketFlow.Text.Unseen

/-!
A text in double quotes for a message, on one line and with nothing in it that cannot be seen.
Double quotes and backslashes stand behind a backslash, the common control characters have a letter,
and other characters that leave no mark are given by number.
-/
namespace PacketFlow.Text

/-- The digits of a number in base sixteen, in small letters and without leading zeros. -/
def hexDigits (n : Nat) : List Char :=
  Nat.toDigits 16 n

/-- A character as it stands between the quotes. -/
def quotedChar (c : Char) : List Char :=
  match c with
  | '\x00' => ['\\', '0']
  | '\t' => ['\\', 't']
  | '\r' => ['\\', 'r']
  | '\n' => ['\\', 'n']
  | '\\' => ['\\', '\\']
  | '"' => ['\\', '"']
  | _ =>
    if isUnseen c then ['\\', 'u', '\x7b'] ++ hexDigits c.toNat ++ ['\x7d'] else [c]

/-- A text in quotes. -/
def quoted (s : String) : String :=
  "\"" ++ .ofList (s.toList.flatMap quotedChar) ++ "\""

end PacketFlow.Text
