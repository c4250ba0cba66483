/-!
# Clipped text

A text longer than a limit is shown by its first bytes and an ellipsis. Sizes are those of
UTF-8. A character that does not fit as a whole shows as one replacement character for each of
its bytes that do.
-/

namespace Flowplan.Text

/-- The first bytes of a text. -/
def firstBytes : Nat → List Char → List Char
  | _, [] => []
  | bytes, c :: rest =>
      if c.utf8Size ≤ bytes then c :: firstBytes (bytes - c.utf8Size) rest
      else List.replicate bytes '�'

/-- A text of at most `limit` bytes as it is, a longer one by its first `kept` bytes. -/
def clip (limit kept : Nat) (text : String) : String :=
  if text.utf8ByteSize ≤ limit then text
  else String.ofList (firstBytes kept text.toList) ++ "..."

end Flowplan.Text
