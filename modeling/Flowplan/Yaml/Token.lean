import Flowplan.Yaml.Tag

/-!
# Tokens of YAML text

The tokens of a text in order. Indentation shows in the tokens: a block collection has a start
and an end of its own. A simple key is known for a key only at the colon behind it, so the
tokens before it are spliced in at the position that was remembered when it was read.

A text that breaks a rule yields the tokens before the fault. Tokens from the earliest key that
is still waiting for its colon are held back, since nothing is known of them yet. A pair of
brackets with nothing between them is not held back: unless an earlier key holds it, it is
settled at its closing bracket, and a colon behind it comes too late to make it a key.
-/

namespace Flowplan.Yaml

/-- What a token stands for. -/
inductive TokenKind where
  | streamEnd
  | documentStart
  | documentEnd
  | blockSequenceStart
  | blockMappingStart
  | blockEnd
  | flowSequenceStart
  | flowSequenceEnd
  | flowMappingStart
  | flowMappingEnd
  | blockEntry
  | flowEntry
  | key
  | value
  | reference (name : String)
  | anchor (name : String)
  | tag (tag : WrittenTag)
  | directive (directive : Directive)
  | scalar (text : String) (plain : Bool)
  deriving DecidableEq, Repr

/-- A token and the line it starts on. -/
structure Token where
  kind : TokenKind
  line : Nat
  deriving DecidableEq, Repr

/-- A piece of text that a colon would make a key. -/
structure WaitingKey where
  /-- Whether nothing else but a key may stand there. -/
  required : Bool
  /-- Whether its tokens are held back. -/
  held : Bool
  /-- The position of its first token. -/
  position : Nat
  line : Nat
  column : Nat
  index : Nat
  deriving DecidableEq, Repr

/-- A key must be on one line and at most this many characters before its colon. -/
def longestKey : Nat := 1024

/-- At most this many brackets, and this many block collections, are open at once. -/
def deepestNesting : Nat := 10000

/-- What is known of keys between two brackets, or outside of all. -/
structure Level where
  /-- What may still turn out to be a key. -/
  waiting : Option WaitingKey
  /-- The position of what waited last, or of the opening bracket if nothing has. -/
  last : Nat
  deriving DecidableEq, Repr

/-- How far a text has been read. -/
structure Scan where
  cursor : Cursor
  /-- The tokens so far, last one first. -/
  tokens : List Token
  /-- The number of tokens so far. -/
  count : Nat
  /-- The column of the innermost open block collection. -/
  indent : Option Nat
  /-- The columns around it, innermost first. -/
  outer : List (Option Nat)
  /-- The level of the innermost open bracket. -/
  level : Level
  /-- The levels around it, innermost first. -/
  enclosing : List Level
  /-- Whether a key may start here. -/
  keyAllowed : Bool
  deriving Repr

namespace WaitingKey

/-- Whether a colon at the cursor still makes this a key. -/
def isOpen (key : WaitingKey) (cursor : Cursor) : Bool :=
  key.line = cursor.line && cursor.index ≤ key.index + longestKey

end WaitingKey

namespace Level

/-- The level around a pair of brackets that has been closed. What started at the opening
bracket is not held back any more if nothing has waited between the brackets. -/
def after (outer inner : Level) : Level :=
  { outer with
    waiting := outer.waiting.map fun key =>
      { key with held := key.held && key.position ≠ inner.last } }

end Level

namespace Scan

/-- The scan of a text that has not begun. -/
def start (text : List Char) : Scan :=
  { cursor := Cursor.start text, tokens := [], count := 0, indent := none, outer := [],
    level := ⟨none, 0⟩, enclosing := [], keyAllowed := true }

/-- Reads from the text. -/
def reading {α : Type} (read : Reader α) (scan : Scan) : Option (α × Scan) :=
  (read scan.cursor).map fun (value, cursor) => (value, { scan with cursor := cursor })

/-- Asks for a number of characters. -/
def ask (wanted : Nat) (scan : Scan) : Option Scan :=
  (scan.cursor.ask wanted).map fun cursor => { scan with cursor := cursor }

/-- Whether a bracket is open. -/
def inFlow (scan : Scan) : Bool := !scan.enclosing.isEmpty

/-- Adds a token on a line. -/
def emitAt (line : Nat) (kind : TokenKind) (scan : Scan) : Scan :=
  { scan with tokens := ⟨kind, line⟩ :: scan.tokens, count := scan.count + 1 }

/-- Adds a token on the current line. -/
def emit (kind : TokenKind) (scan : Scan) : Scan :=
  scan.emitAt scan.cursor.line kind

/-- Adds a token which takes a number of characters. -/
def emitTaking (count : Nat) (kind : TokenKind) (scan : Scan) : Scan :=
  { scan.emit kind with cursor := scan.cursor.pass count }

/-- Puts a token before the tokens from a position on. -/
def insert (position line : Nat) (kind : TokenKind) (scan : Scan) : Scan :=
  let behind := scan.count - position
  { scan with
    tokens := scan.tokens.take behind ++ ⟨kind, line⟩ :: scan.tokens.drop behind
    count := scan.count + 1 }

def allowKey (allowed : Bool) (scan : Scan) : Scan :=
  { scan with keyAllowed := allowed }

/-- Forgets the waiting key. -/
def forgetKey (scan : Scan) : Scan :=
  { scan with level := { scan.level with waiting := none } }

/-- Gives up the waiting key. Fails where only a key may stand. -/
def dropKey (scan : Scan) : Option Scan :=
  if scan.level.waiting.any (·.required) then none else some scan.forgetKey

/-- Remembers what comes next as a waiting key, where a key may start. -/
def awaitKey (scan : Scan) : Option Scan :=
  if scan.keyAllowed then
    scan.dropKey.map fun dropped =>
      let key : WaitingKey :=
        { required := !scan.inFlow && scan.indent = some scan.cursor.column
          held := true
          position := scan.count
          line := scan.cursor.line
          column := scan.cursor.column
          index := scan.cursor.index }
      { dropped with level := ⟨some key, key.position⟩ }
  else some scan

/-- Whether a column is right of an indentation. -/
def isDeeper (column : Nat) : Option Nat → Bool
  | none => true
  | some indent => indent < column

/-- Opens a block collection at a column, if it is indented more than the innermost one. The
start goes before the tokens from a position on. Fails where the nesting gets too deep. -/
def openBlock (column position line : Nat) (kind : TokenKind) (scan : Scan) : Option Scan :=
  if !scan.inFlow && isDeeper column scan.indent then
    if scan.outer.length < deepestNesting then
      some
        { scan.insert position line kind with
          indent := some column, outer := scan.indent :: scan.outer }
    else none
  else some scan

/-- Ends the open block collections, innermost first, as long as the innermost is not to be
kept. -/
def closeBlocks (keep : Option Nat → Bool) (scan : Scan) : List (Option Nat) → Scan
  | [] => scan
  | next :: others =>
      if keep scan.indent then scan
      else closeBlocks keep { scan.emit .blockEnd with indent := next, outer := others } others

/-- Ends the block collections which are indented more than the cursor. -/
def dedent (scan : Scan) : Scan :=
  if scan.inFlow then scan
  else scan.closeBlocks (fun indent => indent.all (· ≤ scan.cursor.column)) scan.outer

/-- Ends all block collections. -/
def dedentAll (scan : Scan) : Scan :=
  if scan.inFlow then scan else scan.closeBlocks Option.isNone scan.outer

/-- Passes blanks, comments and breaks, at most as many lines as `turns`. A tab is a blank only
where no key may start, and behind a break outside of brackets one may. -/
def skipGap : Nat → Scan → Option Scan
  | 0, scan => some scan
  | turns + 1, scan => do
      let (ended, after) ← scan.reading (Reader.skipLine (scan.inFlow || !scan.keyAllowed))
      if ended then skipGap turns { after with keyAllowed := scan.keyAllowed || !scan.inFlow }
      else some after

/-- The end of the text. -/
def readEnd (scan : Scan) : Option Scan :=
  let cursor := scan.cursor
  let ended : Scan :=
    if cursor.column = 0 then scan
    else { scan with cursor := { cursor with line := cursor.line + 1, column := 0 } }
  ended.dedentAll.dropKey.map fun last => (last.allowKey false).emit .streamEnd

/-- A mark of the start or the end of a document. -/
def readDocumentMark (kind : TokenKind) (scan : Scan) : Option Scan :=
  scan.dedentAll.dropKey.map fun last => (last.allowKey false).emitTaking 3 kind

/-- An opening bracket. -/
def readOpening (kind : TokenKind) (scan : Scan) : Option Scan := do
  let awaiting ← scan.awaitKey
  if scan.enclosing.length < deepestNesting then
    return { awaiting.emitTaking 1 kind with
      level := ⟨none, awaiting.count⟩
      enclosing := awaiting.level :: awaiting.enclosing
      keyAllowed := true }
  else none

/-- A closing bracket. -/
def readClosing (kind : TokenKind) (scan : Scan) : Option Scan :=
  scan.dropKey.map fun dropped =>
    let closed := dropped.emitTaking 1 kind
    match dropped.enclosing with
    | [] => closed.allowKey false
    | outer :: others =>
        { closed with
          level := outer.after dropped.level, enclosing := others, keyAllowed := false }

/-- A comma between brackets. -/
def readComma (scan : Scan) : Option Scan :=
  scan.dropKey.map fun dropped => (dropped.allowKey true).emitTaking 1 .flowEntry

/-- Opens a block collection at the cursor, where one may start. -/
def openHere (kind : TokenKind) (scan : Scan) : Option Scan :=
  if scan.inFlow then some scan
  else if scan.keyAllowed then
    scan.openBlock scan.cursor.column scan.count scan.cursor.line kind
  else none

/-- The dash of an item. -/
def readDash (scan : Scan) : Option Scan := do
  let opened ← scan.openHere .blockSequenceStart
  let dropped ← opened.dropKey
  return (dropped.allowKey true).emitTaking 1 .blockEntry

/-- The question mark of a key. -/
def readQuestion (scan : Scan) : Option Scan := do
  let opened ← scan.openHere .blockMappingStart
  let dropped ← opened.dropKey
  return (dropped.allowKey (!scan.inFlow)).emitTaking 1 .key

/-- The keys that wait for a colon, innermost first. -/
def waitingKeys (scan : Scan) : List WaitingKey :=
  (scan.level :: scan.enclosing).filterMap Level.waiting

/-- Whether tokens are held back here. -/
def holds (scan : Scan) : Bool :=
  scan.waitingKeys.any fun key => key.held && key.isOpen scan.cursor

/-- Makes a key of what waited for a colon. What is not held back any more stays as it is. -/
def settleKey (key : WaitingKey) (scan : Scan) : Option Scan :=
  if scan.holds then
    (scan.insert key.position key.line .key).openBlock key.column key.position key.line
      .blockMappingStart
  else
    let keyed := scan.emitAt key.line .key
    keyed.openBlock key.column keyed.count key.line .blockMappingStart

/-- The colon before a value. -/
def readColon (scan : Scan) : Option Scan :=
  match scan.level.waiting.filter (·.isOpen scan.cursor) with
  | some key =>
      (scan.settleKey key).map fun settled =>
        (settled.forgetKey.allowKey false).emitTaking 1 .value
  | none =>
      if scan.level.waiting.any (·.required) then none
      else
        (scan.forgetKey.openHere .blockMappingStart).map fun opened =>
          (opened.allowKey (!scan.inFlow)).emitTaking 1 .value

/-- A token on the current line which is read from the text. -/
def emitRead {α : Type} (read : Reader α) (kind : α → TokenKind) (scan : Scan) :
    Option (α × Scan) :=
  (scan.reading read).map fun (value, after) =>
    (value, after.emitAt scan.cursor.line (kind value))

/-- A directive. -/
def readDirectiveLine (scan : Scan) : Option Scan := do
  let dropped ← scan.dedentAll.dropKey
  let (_, after) ← dropped.emitRead readDirective .directive
  return after.allowKey false

/-- A reference, or a property of the node behind it. A colon may make it a key. -/
def readProperty {α : Type} (read : Reader α) (kind : α → TokenKind) (scan : Scan) :
    Option Scan := do
  let awaiting ← scan.awaitKey
  let (_, after) ← awaiting.emitRead read kind
  return after.allowKey false

/-- A scalar. Behind it a key may start only if a line has ended. -/
def readScalar (plain : Bool) (read : Reader ReadScalar) (scan : Scan) : Option Scan := do
  let (found, after) ← scan.emitRead read (.scalar ·.text plain)
  return after.allowKey found.broken

/-- A scalar between quotes. -/
def readQuotedScalar (quote : Char) (scan : Scan) : Option Scan := do
  (← scan.awaitKey).readScalar false (readQuoted quote)

/-- A scalar without quotes. -/
def readPlainScalar (scan : Scan) : Option Scan := do
  (← scan.awaitKey).readScalar true (readPlain scan.inFlow (scan.indent.elim 0 (· + 1)))

/-- A block scalar. -/
def readBlockScalar (literal : Bool) (scan : Scan) : Option Scan := do
  (← scan.dropKey).readScalar false (readBlock literal scan.indent)

/-- Characters that do not start a plain scalar. -/
def isIndicator (c : Char) : Bool :=
  ['-', '?', ':', ',', '[', ']', '\x7b', '\x7d', '#', '&', '*', '!', '|', '>', '\'', '"', '%',
    '@', Char.ofNat 0x60].contains c

/-- Whether a plain scalar starts here. -/
def startsPlain (inFlow : Bool) : List Char → Bool
  | [] => false
  | c :: rest =>
      !(isBlank c || isBreak c || isIndicator c) ||
        (c = '-' && !(rest.head?.any isBlank)) ||
        (!inFlow && (c = '?' || c = ':') && !endsWord rest)

/-- Reads the next token. -/
def next (before : Scan) : Option Scan := do
  let arrived ← (← before.ask 1).skipGap before.cursor.bound
  let scan ← arrived.dedent.ask 4
  let cursor := scan.cursor
  match cursor.rest with
  | [] => scan.readEnd
  | c :: rest =>
      if cursor.column = 0 && c = '%' then scan.readDirectiveLine
      else if cursor.seesMark '-' then scan.readDocumentMark .documentStart
      else if cursor.seesMark '.' then scan.readDocumentMark .documentEnd
      else if c = '[' then scan.readOpening .flowSequenceStart
      else if c = '\x7b' then scan.readOpening .flowMappingStart
      else if c = ']' then scan.readClosing .flowSequenceEnd
      else if c = '\x7d' then scan.readClosing .flowMappingEnd
      else if c = ',' then scan.readComma
      else if c = '-' && endsWord rest then scan.readDash
      else if c = '?' && (scan.inFlow || endsWord rest) then scan.readQuestion
      else if c = ':' && (scan.inFlow || endsWord rest) then scan.readColon
      else if c = '*' then scan.readProperty readName .reference
      else if c = '&' then scan.readProperty readName .anchor
      else if c = '!' then scan.readProperty readTag .tag
      else if c = '|' && !scan.inFlow then scan.readBlockScalar true
      else if c = '>' && !scan.inFlow then scan.readBlockScalar false
      else if c = '\'' || c = '"' then scan.readQuotedScalar c
      else if startsPlain scan.inFlow cursor.rest then scan.readPlainScalar
      else none

/-- Whether a key that had to come has not come. -/
def isOverdue (scan : Scan) : Bool :=
  (scan.level :: scan.enclosing).any fun level =>
    level.waiting.any fun key => key.held && key.required && !key.isOpen scan.cursor

/-- The tokens of which all is known: those before the earliest that is held back. -/
def settled (scan : Scan) : List Token :=
  let holding := scan.waitingKeys.filter fun key =>
    key.held && (key.required || key.isOpen scan.cursor)
  let known := holding.foldl (fun position key => min position key.position) scan.count
  (scan.tokens.drop (scan.count - known)).reverse

/-- Reads tokens to the end of the text or to a fault, at most as many as `turns`. -/
def run : Nat → Scan → List Token
  | 0, scan => scan.settled
  | turns + 1, scan =>
      if scan.isOverdue then scan.settled
      else
        match scan.next with
        | none => scan.settled
        | some after =>
            if after.tokens.head?.any (·.kind = .streamEnd) then after.tokens.reverse
            else run turns after

end Scan

/-- The tokens of a text. The last one is the end of the stream, unless there is a fault. -/
def tokens (text : String) : List Token :=
  let scan := Scan.start text.toList
  Scan.run (scan.cursor.bound + 1) scan

end Flowplan.Yaml
