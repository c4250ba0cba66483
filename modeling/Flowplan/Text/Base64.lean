/-!
# Bytes in base sixty-four

Three bytes are written as four characters of six bits each. One or two bytes at the end are
written as two or three characters, filled up with equals signs. Line ends do not count.
-/

namespace Flowplan.Text.Base64

/-- The six bits of a character. -/
def bits? (c : Char) : Option Nat :=
  if 'A' ≤ c && c ≤ 'Z' then some (c.toNat - 'A'.toNat)
  else if 'a' ≤ c && c ≤ 'z' then some (c.toNat - 'a'.toNat + 26)
  else if '0' ≤ c && c ≤ '9' then some (c.toNat - '0'.toNat + 52)
  else if c = '+' then some 62
  else if c = '/' then some 63
  else none

/-- The bytes of characters without line ends. -/
def octets? : List Char → Option (List Nat)
  | [] => some []
  | [a, b, '=', '='] => do
      let bits := (← bits? a) * 64 + (← bits? b)
      return [bits / 16]
  | [a, b, c, '='] => do
      let bits := ((← bits? a) * 64 + (← bits? b)) * 64 + (← bits? c)
      return [bits / 1024, bits / 4 % 256]
  | a :: b :: c :: d :: rest => do
      let bits := (((← bits? a) * 64 + (← bits? b)) * 64 + (← bits? c)) * 64 + (← bits? d)
      return bits / 65536 :: bits / 256 % 256 :: bits % 256 :: (← octets? rest)
  | _ => none

/-- The bytes that a text stands for. -/
def decode? (text : String) : Option (List Nat) :=
  octets? (text.toList.filter fun c => c ≠ '\n' && c ≠ '\r')

end Flowplan.Text.Base64
