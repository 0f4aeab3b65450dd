import CompileWatch.Text.Hidden

/-!
# Quoted text

A text in double quotes, in which quotes and backslashes are escaped, tabs and
line ends have their usual letters, and every character that cannot be seen on
its own is given by number.
-/

namespace CompileWatch.Text

/-- One character as it stands inside quotes. -/
def quoteChar (c : Char) : List Char :=
  if c = '\x00' then ['\\', '0']
  else if c = '\t' then ['\\', 't']
  else if c = '\r' then ['\\', 'r']
  else if c = '\n' then ['\\', 'n']
  else if c = '"' || c = '\\' then ['\\', c]
  else if hiddenChars.has c then ['\\', 'u', '\x7b'] ++ Nat.toDigits 16 c.toNat ++ ['\x7d']
  else [c]

/-- A text in quotes. -/
def quoted (text : String) : String :=
  String.ofList (['"'] ++ text.toList.flatMap quoteChar ++ ['"'])

end CompileWatch.Text
