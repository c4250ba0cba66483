import Flowplan.Yaml.Cursor

/-!
# Scalars in YAML text

A scalar is plain, quoted or a block.

A plain scalar ends before a comment, a colon with a blank after it, a mark of a document or a
line that is not indented far enough; inside brackets also before a comma, a question mark or a
bracket. A quoted scalar ends at its quote, which is doubled inside single quotes and escaped
inside double quotes. A block scalar ends before the first line that is not indented as far as
its first line; its breaks are kept, or folded to spaces between lines that start without a
blank.
-/

namespace Flowplan.Yaml

/-- Characters that end a plain scalar inside brackets. -/
def isFlowIndicator (c : Char) : Bool :=
  [',', '?', '[', ']', '\x7b', '\x7d'].contains c

/-- A scalar that has been read. -/
structure ReadScalar where
  text : String
  /-- Whether a line ended after the last piece of text. -/
  broken : Bool
  deriving DecidableEq, Repr

/-- The characters of a plain scalar up to a blank, a break or its end. -/
def plainRun (inFlow : Bool) : Nat → Reader (List Char)
  | 0 => pure []
  | turns + 1 => do
      match (← get).rest with
      | [] => return []
      | c :: rest =>
          if isBlank c || isBreak c || (c = ':' && endsWord rest) ||
              (inFlow && isFlowIndicator c) then
            return []
          else
            Reader.skip
            Reader.ask 2
            return c :: (← plainRun inFlow turns)

/-- Reads the pieces of a plain scalar behind the given gap. Tells also whether a line ended
after the last one. -/
def plainPieces (inFlow : Bool) (indent : Nat) : Nat → Gap → Reader (List Char × Bool)
  | 0, gap => pure ([], gap.broken)
  | turns + 1, gap => do
      Reader.ask 4
      let cursor ← get
      if cursor.seesDocumentMark || cursor.sees '#' then return ([], gap.broken)
      let run ← plainRun inFlow cursor.bound
      let piece := if run = [] then [] else gap.text ++ run
      let left := if run = [] then gap else Gap.none
      if (← get).seesAny fun c => isBlank c || isBreak c then
        Reader.ask 1
        let next ← Gap.read indent cursor.bound left
        if !inFlow && (← get).column < indent then return (piece, next.broken)
        let (others, broken) ← plainPieces inFlow indent turns next
        return (piece ++ others, broken)
      else return (piece, left.broken)

/-- Reads a plain scalar. -/
def readPlain (inFlow : Bool) (indent : Nat) : Reader ReadScalar := do
  let (text, broken) ← plainPieces inFlow indent (← get).bound Gap.none
  return ⟨String.ofList text, broken⟩

/-- The character meant by the letter after a backslash. -/
def escape? : Char → Option Char
  | '0' => some '\x00'
  | 'a' => some '\x07'
  | 'b' => some '\x08'
  | 't' => some '\t'
  | '\t' => some '\t'
  | 'n' => some '\n'
  | 'v' => some '\x0b'
  | 'f' => some '\x0c'
  | 'r' => some '\r'
  | 'e' => some '\x1b'
  | ' ' => some ' '
  | '"' => some '"'
  | '\'' => some '\''
  | '\\' => some '\\'
  | 'N' => some '\u0085'
  | '_' => some '\u00a0'
  | 'L' => some '\u2028'
  | 'P' => some '\u2029'
  | _ => none

/-- The number of hexadecimal digits announced by the letter after a backslash. -/
def codeLength? : Char → Option Nat
  | 'x' => some 2
  | 'u' => some 4
  | 'U' => some 8
  | _ => none

/-- The value of a hexadecimal digit. -/
def hexDigit? (c : Char) : Option Nat :=
  if c.isDigit then some (c.toNat - '0'.toNat)
  else if 'a' ≤ c && c ≤ 'f' then some (c.toNat - 'a'.toNat + 10)
  else if 'A' ≤ c && c ≤ 'F' then some (c.toNat - 'A'.toNat + 10)
  else none

/-- The value of hexadecimal digits. -/
def hexValue? (digits : List Char) : Option Nat :=
  digits.foldl (fun value c => do return (← value) * 16 + (← hexDigit? c)) (some 0)

/-- The character with a code written in the given number of digits. -/
def codeChar? (length : Nat) (rest : List Char) : Option Char := do
  let digits := rest.take length
  if digits.length < length then none
  let value ← hexValue? digits
  if h : value.isValidChar then some (Char.ofNatAux value h) else none

/-- Reads an escape, from its backslash on. -/
def readEscape (letter : Char) : Reader Char := do
  match escape? letter, codeLength? letter with
  | some c, _ =>
      modify (·.pass 2)
      return c
  | none, some length =>
      modify (·.pass 2)
      Reader.ask length
      match codeChar? length (← get).rest with
      | some c =>
          modify (·.pass length)
          return c
      | none => failure
  | none, none => failure

/-- The characters between quotes up to a blank, a break, an escaped break or the closing
quote, and the gap that an escaped break starts. -/
def quotedRun (quote : Char) : Nat → Reader (List Char × Gap)
  | 0 => pure ([], Gap.none)
  | turns + 1 => do
      let more (c : Char) : Reader (List Char × Gap) := do
        Reader.ask 2
        let (run, gap) ← quotedRun quote turns
        return (c :: run, gap)
      match (← get).rest with
      | [] => return ([], Gap.none)
      | c :: rest =>
          if isBlank c || isBreak c then return ([], Gap.none)
          else if quote = '\'' && c = quote && rest.head? = some quote then
            modify (·.pass 2)
            more quote
          else if c = quote then return ([], Gap.none)
          else if quote = '"' && c = '\\' then
            match rest.head? with
            | none => failure
            | some letter =>
                if isBreak letter then
                  Reader.ask 3
                  Reader.skip
                  let _ ← Reader.takeBreak
                  return ([], Gap.escaped)
                else more (← readEscape letter)
          else
            Reader.skip
            more c

/-- Reads the pieces of a quoted scalar, and its closing quote. -/
def quotedPieces (quote : Char) : Nat → Reader (List Char)
  | 0 => failure
  | turns + 1 => do
      Reader.ask 4
      let cursor ← get
      Reader.check (!cursor.seesDocumentMark && cursor.peek?.isSome)
      let (run, gap) ← quotedRun quote cursor.bound
      Reader.ask 1
      if (← get).sees quote then
        Reader.skip
        return run
      let next ← Gap.read 0 cursor.bound gap
      return run ++ next.text ++ (← quotedPieces quote turns)

/-- Reads a quoted scalar, from its opening quote on. -/
def readQuoted (quote : Char) : Reader ReadScalar := do
  Reader.skip
  return ⟨String.ofList (← quotedPieces quote (← get).bound), false⟩

/-- What becomes of the breaks at the end of a block scalar. -/
inductive Chomping where
  /-- The last one stays. -/
  | clip
  /-- None stays. -/
  | strip
  /-- All stay. -/
  | keep
  deriving DecidableEq, Repr

namespace Chomping

/-- The chomping that a sign asks for. -/
def ofSign? : Char → Option Chomping
  | '+' => some keep
  | '-' => some strip
  | _ => none

end Chomping

/-- Reads a sign of chomping, if one comes next. -/
def readChomping : Reader (Option Chomping) := do
  match (← get).peek?.bind Chomping.ofSign? with
  | some chomping =>
      Reader.skip
      return some chomping
  | none => return none

/-- Reads a digit of indentation, if one comes next. It must not be zero. -/
def readIncrement : Reader (Option Nat) := do
  match (← get).peek?.filter Char.isDigit with
  | some digit =>
      Reader.check (digit ≠ '0')
      Reader.skip
      return some (digit.toNat - '0'.toNat)
  | none => return none

/-- Reads the signs behind the indicator of a block scalar, in either order. -/
def readBlockHeader : Reader (Chomping × Option Nat) := do
  Reader.ask 1
  match ← readChomping with
  | some chomping =>
      Reader.ask 1
      return (chomping, ← readIncrement)
  | none =>
      match ← readIncrement with
      | some increment =>
          Reader.ask 1
          return ((← readChomping).getD .clip, some increment)
      | none => return (.clip, none)

/-- Reads the indentation and the empty lines before a line of a block scalar. Tells the breaks,
and the deepest column reached. While the indentation is open, every space counts to it. -/
def blockBreaks (indent : Option Nat) : Nat → Nat → Reader (List Char × Nat)
  | 0, deepest => pure ([], deepest)
  | turns + 1, deepest => do
      let inIndent (cursor : Cursor) : Bool := indent.all (cursor.column < ·)
      Reader.ask 1
      spaces inIndent (← get).bound
      let cursor ← get
      let reached := max deepest cursor.column
      Reader.check !(inIndent cursor && cursor.sees '\t')
      if cursor.seesAny isBreak then
        Reader.ask 2
        let lineEnd ← Reader.takeBreak
        let (breaks, last) ← blockBreaks indent turns reached
        return (lineEnd ++ breaks, last)
      else return ([], reached)
where
  /-- Passes spaces inside the indentation. -/
  spaces (inIndent : Cursor → Bool) : Nat → Reader Unit
    | 0 => pure ()
    | turns + 1 => do
        if inIndent (← get) && (← get).sees ' ' then
          Reader.skip
          Reader.ask 1
          spaces inIndent turns

/-- The breaks behind a line of a block scalar. -/
structure BlockGap where
  /-- The end of the line. -/
  lead : List Char
  /-- The empty lines behind it. -/
  trail : List Char
  /-- Whether the line starts with a blank. -/
  blank : Bool
  deriving DecidableEq, Repr

namespace BlockGap

/-- How a gap reads before a line which starts with a blank or not. -/
def text (gap : BlockGap) (literal blank : Bool) : List Char :=
  if !literal && !gap.blank && !blank && gap.lead = ['\n'] then
    (if gap.trail = [] then [' '] else []) ++ gap.trail
  else gap.lead ++ gap.trail

/-- What is left of the last gap. -/
def tail (gap : BlockGap) : Chomping → List Char
  | .strip => []
  | .clip => gap.lead
  | .keep => gap.lead ++ gap.trail

end BlockGap

/-- Reads the lines at an indentation behind a gap, and what is left of the last gap. -/
def blockLines (literal : Bool) (chomping : Chomping) (indent : Nat) :
    Nat → BlockGap → Reader (List Char)
  | 0, gap => pure (gap.tail chomping)
  | turns + 1, gap => do
      let cursor ← get
      if cursor.column = indent && cursor.peek?.isSome then
        let blank := cursor.seesAny isBlank
        let content ← Reader.takeWhile (!isBreak ·) cursor.bound
        Reader.ask 2
        let lead ← if (← get).seesAny isBreak then Reader.takeBreak else pure []
        let (trail, _) ← blockBreaks (some indent) cursor.bound 0
        let others ← blockLines literal chomping indent turns ⟨lead, trail, blank⟩
        return gap.text literal blank ++ content ++ others
      else return gap.tail chomping

/-- Reads a block scalar, from its indicator on, inside a block collection at a column. -/
def readBlock (literal : Bool) (column : Option Nat) : Reader ReadScalar := do
  Reader.skip
  let (chomping, increment) ← readBlockHeader
  Reader.finishLine
  let bound := (← get).bound
  let stated := increment.map (column.getD 0 + ·)
  let (breaks, deepest) ← blockBreaks stated bound 0
  let indent := stated.getD (max (max deepest (column.elim 0 (· + 1))) 1)
  Reader.ask 1
  let text ← blockLines literal chomping indent bound ⟨[], breaks, false⟩
  return ⟨String.ofList text, true⟩

end Flowplan.Yaml
