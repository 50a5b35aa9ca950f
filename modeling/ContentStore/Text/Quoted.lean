import ContentStore.Text.Hidden

/-!
# Quoted text in messages

A message that names a text quotes it: the quote mark and the backslash are escaped, line breaks, tabs
and the null character have short escapes, and every other hidden character is spelled by its code point.
-/

namespace ContentStore.Text

def escaped (c : Char) : List Char :=
  match c with
  | '"' => ['\\', '"']
  | '\\' => ['\\', '\\']
  | '\n' => ['\\', 'n']
  | '\r' => ['\\', 'r']
  | '\t' => ['\\', 't']
  | '\x00' => ['\\', '0']
  | c =>
      if hidden c then ['\\', 'u', '\x7b'] ++ Nat.toDigits 16 c.toNat ++ ['\x7d']
      else [c]

def quoted (s : String) : String :=
  String.ofList ('"' :: s.toList.flatMap escaped ++ ['"'])

example : quoted "it's\ta \"b\"" = "\"it's\\ta \\\"b\\\"\"" := by decide +kernel
example : quoted "\x7f" = "\"\\u\x7b7f\x7d\"" := by decide +kernel

end ContentStore.Text
