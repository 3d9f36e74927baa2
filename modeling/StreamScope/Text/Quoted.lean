import StreamScope.Text.CharClass

/-!
Text in quotes, as messages show it: a string in double quotes or a character
in single quotes, each character escaped that would not show for what it is.
-/

namespace StreamScope.Text

/-- A code point in lower-case hexadecimal between braces. -/
def codePointEscape (c : Char) : List Char :=
  ['\\', 'u', '\x7b'] ++ Nat.toDigits 16 c.toNat ++ ['\x7d']

/-- One character as it stands between two marks `quote`. Only the mark itself
and the backslash need a backslash; the other kind of quote is left alone. -/
def escape (quote c : Char) : List Char :=
  if c = '\t' then ['\\', 't']
  else if c = '\r' then ['\\', 'r']
  else if c = '\n' then ['\\', 'n']
  else if c = '\x00' then ['\\', '0']
  else if c = '\\' || c = quote then ['\\', c]
  else if isPrintable c then [c]
  else codePointEscape c

def quoteString (s : String) : String :=
  String.ofList (['"'] ++ s.toList.flatMap (escape '"') ++ ['"'])

def quoteChar (c : Char) : String :=
  String.ofList (['\''] ++ escape '\'' c ++ ['\''])

end StreamScope.Text
