/-!
# Reading YAML text

A cursor stands in a text and knows its line, its column and how many characters it has
passed. Lines end at a line feed, a carriage return or both, a next-line character, a line
separator or a paragraph separator.

The text comes in blocks, and a cursor sees it through a window. Whoever is about to look at
some characters asks for them first: if the window does not hold them, it moves up to the
cursor, and further blocks come in until it does. A block with a character that is not allowed
cannot come in, so such a character does no harm behind the last block that was asked for.

A byte order mark at the very start of a text is dropped. One at the start of the window makes
the window marked: from then on the first character of every line is passed over, whichever it
is, until the window moves again. Any other byte order mark is a character like others.
-/

namespace Flowplan.Yaml

/-- Spaces and tabs. -/
def isBlank (c : Char) : Bool := c = ' ' || c = '\t'

/-- Characters that end a line. -/
def isBreak (c : Char) : Bool :=
  c = '\n' || c = '\r' || c = '\u0085' || c = '\u2028' || c = '\u2029'

/-- Characters a text may hold. -/
def isAllowed (c : Char) : Bool :=
  c = '\t' || c = '\n' || c = '\r' || (0x20 ≤ c.toNat && c.toNat ≤ 0x7E) || c = '\u0085' ||
    (0xA0 ≤ c.toNat && c.toNat ≤ 0xFFFD) || 0x10000 ≤ c.toNat

/-- The byte order mark. -/
def orderMark : Char := '\ufeff'

/-- Whether a text ends here, or goes on with a blank or a break. -/
def endsWord : List Char → Bool
  | [] => true
  | c :: _ => isBlank c || isBreak c

/-- A part of a text that comes in at once. -/
structure Block where
  /-- The number of its characters. -/
  size : Nat
  /-- Whether all of them are allowed. -/
  readable : Bool
  deriving DecidableEq, Repr

namespace Block

/-- The most bytes of a block. -/
def capacity : Nat := 512

/-- The blocks of a text. Characters are not torn apart; `room` bytes are left in the block at
hand, which has so far the given size. -/
def split (room size : Nat) (readable : Bool) : List Char → List Block
  | [] => if size = 0 then [] else [⟨size, readable⟩]
  | c :: rest =>
      if c.utf8Size ≤ room then
        split (room - c.utf8Size) (size + 1) (readable && isAllowed c) rest
      else ⟨size, readable⟩ :: split (capacity - c.utf8Size) 1 (isAllowed c) rest

/-- Takes in blocks until enough characters are ahead. At the end of the text there is one more
character ahead, which stands for the end. -/
def takeIn (wanted : Nat) : Nat → List Block → Option (Nat × List Block)
  | ahead, [] => some (ahead + 1, [])
  | ahead, block :: rest =>
      if block.readable then
        if wanted ≤ ahead + block.size then some (ahead + block.size, rest)
        else takeIn wanted (ahead + block.size) rest
      else none

end Block

/-- A place in a text. Lines and columns count from zero. -/
structure Cursor where
  rest : List Char
  line : Nat
  column : Nat
  index : Nat
  /-- The number of characters in the window from the cursor on. -/
  ahead : Nat
  /-- What has not come into the window. -/
  blocks : List Block
  /-- Whether the window starts with a byte order mark. -/
  marked : Bool
  /-- More than the number of characters of the text. -/
  bound : Nat
  deriving DecidableEq, Repr

namespace Cursor

/-- The start of a text, behind its byte order mark. -/
def start (text : List Char) : Cursor :=
  let dropped := text.head? = some orderMark
  let body := if dropped then text.drop 1 else text
  let room := if dropped then Block.capacity - orderMark.utf8Size else Block.capacity
  { rest := body, line := 0, column := 0, index := 0, ahead := 0,
    blocks := Block.split room 0 true body, marked := false, bound := body.length + 1 }

/-- The next character. -/
def peek? (cursor : Cursor) : Option Char :=
  cursor.rest.head?

/-- Whether the next character is the given one. -/
def sees (cursor : Cursor) (c : Char) : Bool :=
  cursor.peek? = some c

/-- Whether the next character passes a test. -/
def seesAny (cursor : Cursor) (test : Char → Bool) : Bool :=
  cursor.peek?.any test

/-- Whether a line or the text ends here. -/
def atLineEnd (cursor : Cursor) : Bool :=
  cursor.peek?.all isBreak

/-- Whether a blank, the end of a line or of the text comes next. -/
def atWordEnd (cursor : Cursor) : Bool :=
  endsWord cursor.rest

/-- Passes a number of characters of one line. -/
def pass (cursor : Cursor) (count : Nat) : Cursor :=
  { cursor with
    rest := cursor.rest.drop count
    column := cursor.column + count
    index := cursor.index + count
    ahead := cursor.ahead - count }

/-- Passes a number of characters which end a line. -/
def passBreak (cursor : Cursor) (count : Nat) : Cursor :=
  { cursor.pass count with line := cursor.line + 1, column := 0 }

/-- Passes the end of a line, and tells how it reads. -/
def takeBreak (cursor : Cursor) : List Char × Cursor :=
  match cursor.rest with
  | '\r' :: '\n' :: _ => (['\n'], cursor.passBreak 2)
  | '\u2028' :: _ => (['\u2028'], cursor.passBreak 1)
  | '\u2029' :: _ => (['\u2029'], cursor.passBreak 1)
  | _ => (['\n'], cursor.passBreak 1)

/-- Whether three equal characters stand alone at the start of a line. -/
def seesMark (cursor : Cursor) (c : Char) : Bool :=
  cursor.column = 0 && cursor.rest.take 3 = [c, c, c] && endsWord (cursor.rest.drop 3)

/-- Whether a mark of the start or the end of a document stands here. -/
def seesDocumentMark (cursor : Cursor) : Bool :=
  cursor.seesMark '-' || cursor.seesMark '.'

/-- Asks for a number of characters. -/
def ask (wanted : Nat) (cursor : Cursor) : Option Cursor :=
  if wanted ≤ cursor.ahead then some cursor
  else
    (Block.takeIn wanted cursor.ahead cursor.blocks).map fun (ahead, blocks) =>
      { cursor with ahead := ahead, blocks := blocks, marked := cursor.sees orderMark }

end Cursor

/-- A reading of text, which moves a cursor and may fail. -/
abbrev Reader := StateT Cursor Option

namespace Reader

/-- Asks for a number of characters. -/
def ask (wanted : Nat) : Reader Unit := fun cursor =>
  (cursor.ask wanted).map fun asked => ((), asked)

/-- Passes one character. -/
def skip : Reader Unit := modify (·.pass 1)

/-- Passes the end of a line, and tells how it reads. -/
def takeBreak : Reader (List Char) := modifyGet Cursor.takeBreak

/-- Fails unless a condition holds. -/
def check (condition : Bool) : Reader Unit :=
  if condition then pure () else failure

/-- Passes characters as long as they pass a test. -/
def skipWhile (test : Char → Bool) : Nat → Reader Unit
  | 0 => pure ()
  | turns + 1 => do
      if (← get).seesAny test then
        skip
        ask 1
        skipWhile test turns

/-- Takes characters as long as they pass a test. -/
def takeWhile (test : Char → Bool) : Nat → Reader (List Char)
  | 0 => pure []
  | turns + 1 => do
      match (← get).peek? with
      | some c =>
          if test c then
            skip
            ask 1
            return c :: (← takeWhile test turns)
          else return []
      | none => return []

/-- Passes blanks. -/
def skipBlanks : Reader Unit := do
  skipWhile isBlank (← get).bound

/-- Passes a comment, if one starts here. -/
def skipComment : Reader Unit := do
  if (← get).sees '#' then skipWhile (!isBreak ·) (← get).bound

/-- Passes blanks, a comment and the end of a line. Tells whether a line has ended. A marked
window makes the first character of a line pass too. -/
def skipLine (tabs : Bool) : Reader Bool := do
  ask 1
  let cursor ← get
  if cursor.column = 0 && cursor.marked then skip
  ask 1
  skipWhile (fun c => c = ' ' || (tabs && c = '\t')) cursor.bound
  skipComment
  if (← get).seesAny isBreak then
    ask 2
    let _ ← takeBreak
    return true
  else return false

/-- Passes blanks and a comment up to the end of a line, and the end itself. -/
def finishLine : Reader Unit := do
  ask 1
  skipBlanks
  skipComment
  check (← get).atLineEnd
  if (← get).seesAny isBreak then
    ask 2
    let _ ← takeBreak

end Reader

/-- Blanks and breaks between two pieces of a scalar. -/
structure Gap where
  /-- Whether a line ended. -/
  broken : Bool
  /-- The blanks before any break. -/
  blanks : List Char
  /-- The first break. -/
  lead : List Char
  /-- The breaks after the first. -/
  trail : List Char
  deriving DecidableEq, Repr

namespace Gap

def none : Gap := ⟨false, [], [], []⟩

/-- The gap that an escaped break starts. -/
def escaped : Gap := ⟨true, [], [], []⟩

/-- How a gap reads: blanks as they are, one break as a space, several breaks as all but the
first. A first break that is a separator stays. -/
def text (gap : Gap) : List Char :=
  if gap.broken then
    if gap.lead = ['\n'] then if gap.trail = [] then [' '] else gap.trail
    else gap.lead ++ gap.trail
  else gap.blanks

/-- The gap with a blank more. -/
def addBlank (gap : Gap) (c : Char) : Gap :=
  if gap.broken then gap else { gap with blanks := gap.blanks ++ [c] }

/-- The gap with a break more. -/
def addBreak (gap : Gap) (read : List Char) : Gap :=
  if gap.broken then { gap with trail := gap.trail ++ read } else ⟨true, [], read, gap.trail⟩

/-- Reads blanks and breaks. A tab at the start of a line must not stand left of `indent`. -/
def read (indent : Nat) : Nat → Gap → Reader Gap
  | 0, gap => pure gap
  | turns + 1, gap => do
      let cursor ← get
      match cursor.peek? with
      | Option.none => return gap
      | some c =>
          if isBlank c then
            Reader.check !(gap.broken && cursor.column < indent && c = '\t')
            Reader.skip
            Reader.ask 1
            read indent turns (gap.addBlank c)
          else if isBreak c then
            Reader.ask 2
            let lineEnd ← Reader.takeBreak
            Reader.ask 1
            read indent turns (gap.addBreak lineEnd)
          else return gap

end Gap

end Flowplan.Yaml
