import Flowplan.Text.Hex
import Flowplan.Text.Printable

/-!
# Quoted text

A quoted text stands between double quotes. Quotes and backslashes inside are escaped, the
common controls have escapes of one letter, and any other character which is not printable is
written by its code: two hexadecimal digits for the remaining controls of ASCII, four for
other code points below `0x10000`, eight above.
-/

namespace Flowplan.Text

/-- The escape of one letter of a control character. -/
def letterEscape? (c : Char) : Option Char :=
  match c.toNat with
  | 0x07 => some 'a'
  | 0x08 => some 'b'
  | 0x0C => some 'f'
  | 0x0A => some 'n'
  | 0x0D => some 'r'
  | 0x09 => some 't'
  | 0x0B => some 'v'
  | _ => none

/-- One character of a quoted text. -/
def quoteChar (c : Char) : String :=
  if c = '"' then "\\\""
  else if c = '\\' then "\\\\"
  else if isPrintable c then String.singleton c
  else
    match letterEscape? c with
    | some letter => "\\" ++ String.singleton letter
    | none =>
        if c.toNat < 0x20 || c.toNat = 0x7F then "\\x" ++ hex 2 c.toNat
        else if c.toNat < 0x10000 then "\\u" ++ hex 4 c.toNat
        else "\\U" ++ hex 8 c.toNat

def quote (text : String) : String :=
  "\"" ++ String.join (text.toList.map quoteChar) ++ "\""

end Flowplan.Text
