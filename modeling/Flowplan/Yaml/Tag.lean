import Flowplan.Text.Octets
import Flowplan.Yaml.Scalar

/-!
# Names, tags and directives in YAML text

A node may carry an anchor, by whose name a reference means it again, and a tag, which tells what
kind of thing it is. A tag is written out between angle brackets, or as a handle with the rest
of the tag behind it. A directive before a document states the version of the language, or what
a handle stands for.
-/

namespace Flowplan.Yaml

/-- Characters of names. -/
def isNameChar (c : Char) : Bool :=
  c.isAlphanum || c = '_' || c = '-'

/-- Characters of tags, escapes aside. -/
def isTagChar (c : Char) : Bool :=
  isNameChar c || [';', '/', '?', ':', '@', '&', '=', '+', '$', ',', '.', '!', '~', '*', '\'', '(',
    ')', '[', ']'].contains c

/-- Whether a name may end before the given text. -/
def endsName (rest : List Char) : Bool :=
  endsWord rest ||
    rest.head?.any ['?', ':', ',', ']', '\x7d', '%', '@', Char.ofNat 0x60].contains

/-- Reads the characters of a name. -/
def readNameChars : Reader (List Char) := do
  Reader.ask 1
  Reader.takeWhile isNameChar (← get).bound

/-- Reads the name of an anchor or a reference, from its indicator on. -/
def readName : Reader String := do
  Reader.skip
  let name ← readNameChars
  Reader.check (!name.isEmpty && endsName (← get).rest)
  return String.ofList name

/-- Reads an escaped byte: a percent sign and two hexadecimal digits. -/
def readOctet : Reader Nat := do
  Reader.ask 3
  match (← get).rest with
  | '%' :: high :: low :: _ =>
      match hexValue? [high, low] with
      | some octet =>
          modify (·.pass 3)
          return octet
      | none => failure
  | _ => failure

/-- Reads the escaped bytes of a character. They must have the form of one. -/
def readEscapedChar : Reader (List Char) := do
  let first ← readOctet
  match Text.charWidth? first with
  | none => failure
  | some width =>
      let others ← (List.replicate (width - 1) ()).mapM fun () => do
        let octet ← readOctet
        Reader.check (Text.continues octet)
        return octet
      return Text.ofOctets (first :: others)

/-- Reads the characters of a tag. -/
def readTagChars : Nat → Reader (List Char)
  | 0 => pure []
  | turns + 1 => do
      match (← get).peek? with
      | some c =>
          if c = '%' then
            let read ← readEscapedChar
            Reader.ask 1
            return read ++ (← readTagChars turns)
          else if isTagChar c then
            Reader.skip
            Reader.ask 1
            return c :: (← readTagChars turns)
          else return []
      | none => return []

/-- Reads the rest of a tag. -/
def readTagRest : Reader (List Char) := do
  Reader.ask 1
  readTagChars (← get).bound

/-- Reads a handle: an exclamation mark, or a name between two of them. Without the second one,
it is the start of a tag. -/
def readHandle : Reader (List Char) := do
  Reader.ask 1
  Reader.check ((← get).sees '!')
  Reader.skip
  let name ← readNameChars
  if (← get).sees '!' then
    Reader.skip
    return '!' :: name ++ ['!']
  else return '!' :: name

/-- A tag as it is written. -/
structure WrittenTag where
  /-- The handle, unless the tag is written out. -/
  handle : Option String
  rest : String
  deriving DecidableEq, Repr

/-- Reads a tag, from its indicator on. -/
def readTag : Reader WrittenTag := do
  Reader.ask 2
  let tag : WrittenTag ←
    if (← get).rest.take 2 = ['!', '<'] then
      modify (·.pass 2)
      let rest ← readTagRest
      Reader.check (!rest.isEmpty && (← get).sees '>')
      Reader.skip
      pure ⟨none, String.ofList rest⟩
    else
      let handle ← readHandle
      let rest ← readTagRest
      if 2 ≤ handle.length && handle.getLast? = some '!' then
        Reader.check !rest.isEmpty
        pure ⟨some (String.ofList handle), String.ofList rest⟩
      else if handle.length = 1 && rest.isEmpty then pure ⟨none, "!"⟩
      else pure ⟨some "!", String.ofList (handle.drop 1 ++ rest)⟩
  Reader.ask 1
  Reader.check (← get).atWordEnd
  return tag

/-- A statement before a document. -/
inductive Directive where
  | version (major minor : Nat)
  /-- What a handle stands for. -/
  | handle (handle text : String)
  deriving DecidableEq, Repr

/-- Reads a number of at most two digits. -/
def readVersionNumber : Reader Nat := do
  Reader.ask 1
  let digits ← Reader.takeWhile Char.isDigit 3
  Reader.check (!digits.isEmpty && digits.length ≤ 2)
  return digits.foldl (fun value c => value * 10 + (c.toNat - '0'.toNat)) 0

/-- Reads what stands behind the name of a directive. -/
def readDirectiveValue (name : String) : Reader Directive := do
  Reader.ask 1
  Reader.skipBlanks
  if name = "YAML" then
    let major ← readVersionNumber
    Reader.check ((← get).sees '.')
    Reader.skip
    return .version major (← readVersionNumber)
  else if name = "TAG" then
    let handle ← readHandle
    Reader.check (handle.length = 1 || handle.getLast? = some '!')
    Reader.ask 1
    Reader.check ((← get).seesAny isBlank)
    Reader.skipBlanks
    let text ← readTagRest
    Reader.check !text.isEmpty
    Reader.ask 1
    Reader.check (← get).atWordEnd
    return .handle (String.ofList handle) (String.ofList text)
  else failure

/-- Reads a directive with its line, from its indicator on. -/
def readDirective : Reader Directive := do
  Reader.skip
  let name ← readNameChars
  Reader.check (!name.isEmpty && (← get).atWordEnd)
  let directive ← readDirectiveValue (String.ofList name)
  Reader.finishLine
  return directive

end Flowplan.Yaml
