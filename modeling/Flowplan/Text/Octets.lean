/-!
# Text of bytes

Bytes are read as UTF-8. A byte that belongs to no character reads as a replacement character.
-/

namespace Flowplan.Text

/-- What stands for a byte that belongs to no character. -/
def replacement : Char := '�'

/-- The number of bytes of a character that starts with the given byte. -/
def charWidth? (octet : Nat) : Option Nat :=
  if octet < 0x80 then some 1
  else if octet / 32 = 6 then some 2
  else if octet / 16 = 14 then some 3
  else if octet / 8 = 30 then some 4
  else none

/-- Whether a byte goes on with a character. -/
def continues (octet : Nat) : Bool := octet / 64 = 2

/-- The least code of a character of the given width. -/
def leastCode : Nat → Nat
  | 2 => 0x80
  | 3 => 0x800
  | 4 => 0x10000
  | _ => 0

/-- The part of a first byte which belongs to the code, in a character of the given width. -/
def leadBits (width octet : Nat) : Nat :=
  match width with
  | 2 => octet % 32
  | 3 => octet % 16
  | 4 => octet % 8
  | _ => octet

/-- The character at the start of some bytes, with its width. Codes are written in as few bytes
as possible. -/
def firstChar? : List Nat → Option (Char × Nat)
  | [] => none
  | first :: rest => do
      let width ← charWidth? first
      let others := rest.take (width - 1)
      if others.length = width - 1 && others.all continues then
        let code := others.foldl (fun code octet => code * 64 + octet % 64) (leadBits width first)
        if h : code.isValidChar then
          if leastCode width ≤ code then return (Char.ofNatAux code h, width) else none
        else none
      else none

/-- The characters of some bytes, of which the first ones are passed over. -/
def charsBehind : Nat → List Nat → List Char
  | _, [] => []
  | passed + 1, _ :: rest => charsBehind passed rest
  | 0, first :: rest =>
      match firstChar? (first :: rest) with
      | some (c, width) => c :: charsBehind (width - 1) rest
      | none => replacement :: charsBehind 0 rest

/-- The characters of some bytes. -/
def ofOctets (octets : List Nat) : List Char := charsBehind 0 octets

end Flowplan.Text
