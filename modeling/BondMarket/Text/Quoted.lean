import BondMarket.Text.Printable

/-!
Quoted text, as error messages show a text that was not understood. Single quotes enclose it
unless it holds a single quote and no double one. The enclosing quote, the backslash and the
characters that are not printable are escaped: line feed, carriage return and tab by a letter,
the others by their code point in two, four or eight hexadecimal digits.
-/

namespace BondMarket.Text

def hexDigit (n : Nat) : Char :=
  if n < 10 then Char.ofNat (0x30 + n) else Char.ofNat (0x61 + (n - 10))

def lastHexDigits : Nat → Nat → List Char
  | 0, _ => []
  | k + 1, n => lastHexDigits k (n / 16) ++ [hexDigit (n % 16)]

def enclosingQuote (s : String) : Char :=
  if s.toList.contains '\'' && !s.toList.contains '"' then '"' else '\''

def escapeChar (quote c : Char) : List Char :=
  if c = quote || c = '\\' then ['\\', c]
  else if c = '\n' then ['\\', 'n']
  else if c = '\r' then ['\\', 'r']
  else if c = '\t' then ['\\', 't']
  else if isPrintable c then [c]
  else if c.toNat < 0x100 then '\\' :: 'x' :: lastHexDigits 2 c.toNat
  else if c.toNat < 0x10000 then '\\' :: 'u' :: lastHexDigits 4 c.toNat
  else '\\' :: 'U' :: lastHexDigits 8 c.toNat

def quoted (s : String) : String :=
  let quote := enclosingQuote s
  String.ofList (quote :: s.toList.flatMap (escapeChar quote) ++ [quote])

example : quoted "res" = "'res'" := by decide +kernel
example : quoted "it's" = "\"it's\"" := by decide +kernel
example : quoted "a\n\x7f" = "'a\\n\\x7f'" := by decide +kernel

end BondMarket.Text
