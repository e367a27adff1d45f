import PluginRegistry.Text.Shown

/-!
# Quoted text

A text in quotes, for reports. Quotes and backslashes get a backslash, the usual control
characters their letter, and everything else that is not shown as it is its code point in braces.
-/

namespace PluginRegistry.Text

/-- A code point in base sixteen, as an escape. -/
def codePointEscape (c : Char) : List Char :=
  ['\\', 'u', '\x7b'] ++ Nat.toDigits 16 c.toNat ++ ['\x7d']

/-- A character as it stands between quotes. -/
def quotedChar (c : Char) : List Char :=
  if c = '"' then ['\\', '"']
  else if c = '\\' then ['\\', '\\']
  else if c = '\n' then ['\\', 'n']
  else if c = '\r' then ['\\', 'r']
  else if c = '\t' then ['\\', 't']
  else if c.toNat = 0 then ['\\', '0']
  else if 0x20 ≤ c.toNat && c.toNat ≤ 0x7e then [c]
  else if 0x80 ≤ c.toNat && isShown c then [c]
  else codePointEscape c

def quoted (s : String) : String :=
  String.ofList (['"'] ++ s.toList.flatMap quotedChar ++ ['"'])

def quotedOption : Option String → String
  | none => "None"
  | some s => "Some(" ++ quoted s ++ ")"

end PluginRegistry.Text
