/-!
# Capital letters

The capital of a letter, as far as the capital is one of the letters A to Z. Beside the small
letters a to z, these are the capitals of the dotless i and of the long s. Every other
character stands for itself, which is all that matters where a text is compared with words
in the letters A to Z.
-/

namespace Flowplan.Text

def capital (c : Char) : Char :=
  if c = 'ı' then 'I'
  else if c = 'ſ' then 'S'
  else c.toUpper

end Flowplan.Text
