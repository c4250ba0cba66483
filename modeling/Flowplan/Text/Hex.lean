/-!
# Hexadecimal text

Numbers in lower-case hexadecimal, filled up with zeros to a width.
-/

namespace Flowplan.Text

/-- The hexadecimal digits of a number, at least `width` of them. -/
def hex (width number : Nat) : String :=
  let digits := Nat.toDigits 16 number
  String.ofList (List.replicate (width - digits.length) '0' ++ digits)

end Flowplan.Text
