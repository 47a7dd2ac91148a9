import RootedHeap.Text.Hidden

/-! # Quoted text

Two ways to quote a text. `debugQuoted` is for readers: quotes, backslashes and the usual controls
get a backslash, and any other character that would not show is spelled as `\u` with its code point
in braces. `jsonQuoted` is the JSON string, where only controls, quotes and backslashes are escaped.
-/

namespace RootedHeap.Text

/-- The hexadecimal digits of `n`, lower case. -/
def hex (n : Nat) : List Char := Nat.toDigits 16 n

/-- One character inside a debug-quoted text. -/
def debugChar (c : Char) : List Char :=
  if c = Char.ofNat 0 then ['\\', '0']
  else if c = '\t' then ['\\', 't']
  else if c = '\r' then ['\\', 'r']
  else if c = '\n' then ['\\', 'n']
  else if c = '"' then ['\\', '"']
  else if c = '\\' then ['\\', '\\']
  else if isHidden c then ['\\', 'u', '\x7b'] ++ hex c.toNat ++ ['\x7d']
  else [c]

/-- The text in double quotes, with what would not show spelled out. -/
def debugQuoted (s : String) : String :=
  String.ofList ('"' :: s.toList.flatMap debugChar ++ ['"'])

/-- `n` in four hexadecimal digits. -/
def hex4 (n : Nat) : List Char :=
  let digits := hex n
  List.replicate (4 - digits.length) '0' ++ digits

/-- One character inside a JSON string. -/
def jsonChar (c : Char) : List Char :=
  if c = '"' then ['\\', '"']
  else if c = '\\' then ['\\', '\\']
  else if c = Char.ofNat 8 then ['\\', 'b']
  else if c = '\t' then ['\\', 't']
  else if c = '\n' then ['\\', 'n']
  else if c = Char.ofNat 12 then ['\\', 'f']
  else if c = '\r' then ['\\', 'r']
  else if c.toNat < 0x20 then ['\\', 'u'] ++ hex4 c.toNat
  else [c]

/-- The text as a JSON string. -/
def jsonQuoted (s : String) : String :=
  String.ofList ('"' :: s.toList.flatMap jsonChar ++ ['"'])

end RootedHeap.Text
