import Flowplan.Yaml.Token

/-!
# YAML documents

A document is one node: a scalar, a sequence or a mapping. What is missing, such as the value of
a key with nothing behind its colon, is an empty plain scalar. A reference means the last node
before it with an anchor of its name. That may be a collection which it stands in itself, so a
reference holds only the place of that node among the nodes with anchors.

Only the first document of a text is read, and one token beyond it: text that follows a document
is not looked at.
-/

namespace Flowplan.Yaml

/-- A node and the line it starts on, counted from zero. -/
inductive Node where
  | scalar (line : Nat) (tag : Option String) (text : String) (plain : Bool)
  | sequence (line : Nat) (items : List Node)
  | mapping (line : Nat) (entries : List (Node × Node))
  /-- A reference, with its number among all references, to one of the nodes with anchors. -/
  | reference (line : Nat) (number : Nat) (target : Nat)
  deriving Repr

namespace Node

/-- The line a node starts on, counted from zero. -/
def line : Node → Nat
  | .scalar line .. => line
  | .sequence line _ => line
  | .mapping line _ => line
  | .reference line .. => line

/-- The node that stands for nothing. -/
def missing (line : Nat) : Node := .scalar line none "" true

end Node

/-- A document. -/
structure Document where
  root : Node
  /-- The nodes with anchors, in the order in which they start. -/
  anchored : Array Node
  /-- The number of references. -/
  references : Nat
  /-- More than nodes lie in each other. -/
  bound : Nat
  deriving Repr

/-- Where a node stands, which decides what may stand there. -/
inductive Position where
  /-- In a block, where a sequence must be indented. -/
  | block
  /-- Behind a key of a block, where a sequence need not be indented. -/
  | blockEntry
  /-- Between brackets. -/
  | flow
  deriving DecidableEq, Repr

/-- What is left of the tokens of a document, and what is known. -/
structure Feed where
  tokens : List Token
  /-- What handles of tags stand for. -/
  handles : List (String × String)
  /-- The names of anchors with the places of their nodes, last one first. -/
  names : List (String × Nat)
  /-- The nodes with anchors. One that has not been read yet is kept a place. -/
  anchored : Array Node
  /-- The number of references so far. -/
  references : Nat

/-- A reading of tokens, which may fail. -/
abbrev Parser := StateT Feed Option

namespace Parser

/-- The next token. There must be one. -/
def peek : Parser Token := do
  match (← get).tokens with
  | [] => failure
  | token :: _ => return token

/-- Passes a token. -/
def advance : Parser Unit :=
  modify fun feed => { feed with tokens := feed.tokens.drop 1 }

/-- The line of the next token. -/
def nextLine : Parser Nat := do
  return (← get).tokens.head?.elim 0 Token.line

/-- Reads a node, which its anchor names from its start on, if it has one. -/
def anchored (name : Option String) (read : Parser Node) : Parser Node := do
  match name with
  | none => read
  | some name =>
      let place := (← get).anchored.size
      modify fun feed =>
        { feed with
          names := (name, place) :: feed.names
          anchored := feed.anchored.push (Node.missing 0) }
      let node ← read
      modify fun feed => { feed with anchored := feed.anchored.setIfInBounds place node }
      return node

/-- What a reference on a line means. -/
def refer (line : Nat) (name : String) : Parser Node := do
  let feed ← get
  match feed.names.lookup name with
  | none => failure
  | some target =>
      set { feed with references := feed.references + 1 }
      return .reference line feed.references target

/-- A tag in full. -/
def expand (written : WrittenTag) : Parser String := do
  match written.handle with
  | none => return written.rest
  | some handle =>
      match (← get).handles.lookup handle with
      | none => failure
      | some text => return text ++ written.rest

end Parser

/-- The anchor and the tag of a node. -/
structure Properties where
  anchor : Option String
  tag : Option String
  deriving DecidableEq, Repr

namespace Properties

/-- Whether there is neither an anchor nor a tag. -/
def isEmpty (properties : Properties) : Bool :=
  properties.anchor.isNone && properties.tag.isNone

/-- Reads an anchor and a tag, each at most as often as `turns` and not twice. -/
def read : Nat → Properties → Parser Properties
  | 0, properties => pure properties
  | turns + 1, properties => do
      match (← Parser.peek).kind, properties with
      | .anchor name, ⟨none, tag⟩ =>
          Parser.advance
          read turns ⟨some name, tag⟩
      | .tag written, ⟨anchor, none⟩ =>
          Parser.advance
          read turns ⟨anchor, some (← Parser.expand written)⟩
      | _, _ => return properties

/-- The scalar with these properties. A lone exclamation mark makes any scalar count as plain. -/
def scalar (properties : Properties) (line : Nat) (text : String) (plain : Bool) : Node :=
  .scalar line properties.tag text
    (if properties.tag.isNone then plain else properties.tag = some "!")

/-- The empty scalar with these properties. -/
def nothing (properties : Properties) (line : Nat) : Node :=
  .scalar line properties.tag "" properties.tag.isNone

end Properties

/-- Passes the comma before every entry in brackets but the first. -/
def passSeparator (first : Bool) (closing : TokenKind) : Parser Unit := do
  let token ← Parser.peek
  if first || token.kind = closing then pure ()
  else if token.kind = .flowEntry then Parser.advance
  else failure

mutual

/-- Reads a node. Fails where none stands. -/
def parseNode (position : Position) : Nat → Parser Node
  | 0 => failure
  | turns + 1 => do
      let first ← Parser.peek
      if let .reference name := first.kind then
        Parser.advance
        Parser.refer first.line name
      else
        let properties ← Properties.read 2 ⟨none, none⟩
        let token ← Parser.peek
        Parser.anchored properties.anchor do
          match token.kind, position with
          | .blockEntry, .blockEntry => return .sequence first.line (← parseUnindented turns)
          | .scalar text plain, _ =>
              Parser.advance
              return properties.scalar first.line text plain
          | .flowSequenceStart, _ =>
              Parser.advance
              return .sequence first.line (← parseFlowItems true turns)
          | .flowMappingStart, _ =>
              Parser.advance
              return .mapping first.line (← parseFlowEntries true turns)
          | .blockSequenceStart, .block | .blockSequenceStart, .blockEntry =>
              Parser.advance
              return .sequence first.line (← parseBlockItems turns)
          | .blockMappingStart, .block | .blockMappingStart, .blockEntry =>
              Parser.advance
              return .mapping first.line (← parseBlockEntries turns)
          | _, _ =>
              if properties.isEmpty then failure else return properties.nothing first.line

/-- Reads a node, or takes it for missing on a line before one of the given tokens. -/
def parseNodeOr (line : Nat) (follows : List TokenKind) (position : Position) :
    Nat → Parser Node
  | 0 => failure
  | turns + 1 => do
      if follows.contains (← Parser.peek).kind then return Node.missing line
      else parseNode position turns

/-- Reads the items of an indented sequence. -/
def parseBlockItems : Nat → Parser (List Node)
  | 0 => failure
  | turns + 1 => do
      let token ← Parser.peek
      match token.kind with
      | .blockEntry =>
          Parser.advance
          let item ← parseNodeOr token.line [.blockEntry, .blockEnd] .block turns
          return item :: (← parseBlockItems turns)
      | .blockEnd =>
          Parser.advance
          return []
      | _ => failure

/-- Reads the items of a sequence that is not indented more than its key. -/
def parseUnindented : Nat → Parser (List Node)
  | 0 => failure
  | turns + 1 => do
      let token ← Parser.peek
      match token.kind with
      | .blockEntry =>
          Parser.advance
          let item ← parseNodeOr token.line [.blockEntry, .key, .value, .blockEnd] .block turns
          return item :: (← parseUnindented turns)
      | _ => return []

/-- Reads the entries of a block mapping. -/
def parseBlockEntries : Nat → Parser (List (Node × Node))
  | 0 => failure
  | turns + 1 => do
      let token ← Parser.peek
      match token.kind with
      | .key =>
          Parser.advance
          let key ← parseNodeOr token.line [.key, .value, .blockEnd] .blockEntry turns
          let value ← parseBlockValue turns
          return (key, value) :: (← parseBlockEntries turns)
      | .blockEnd =>
          Parser.advance
          return []
      | _ => failure

/-- Reads the value of an entry of a block mapping. -/
def parseBlockValue : Nat → Parser Node
  | 0 => failure
  | turns + 1 => do
      let token ← Parser.peek
      match token.kind with
      | .value =>
          Parser.advance
          parseNodeOr token.line [.key, .value, .blockEnd] .blockEntry turns
      | _ => return Node.missing token.line

/-- Reads the items of a sequence in brackets. A pair without brackets of its own is a mapping
with one entry. -/
def parseFlowItems (first : Bool) : Nat → Parser (List Node)
  | 0 => failure
  | turns + 1 => do
      passSeparator first .flowSequenceEnd
      let token ← Parser.peek
      match token.kind with
      | .flowSequenceEnd =>
          Parser.advance
          return []
      | .key =>
          Parser.advance
          let entry ← parsePair turns
          return .mapping token.line [entry] :: (← parseFlowItems false turns)
      | _ =>
          let item ← parseNode .flow turns
          return item :: (← parseFlowItems false turns)

/-- Reads a pair in a sequence in brackets. A key that is missing swallows the token behind
it. -/
def parsePair : Nat → Parser (Node × Node)
  | 0 => failure
  | turns + 1 => do
      let token ← Parser.peek
      if [TokenKind.value, .flowEntry, .flowSequenceEnd].contains token.kind then
        Parser.advance
        return (Node.missing token.line, ← parseFlowValue .flowSequenceEnd turns)
      else
        let key ← parseNode .flow turns
        return (key, ← parseFlowValue .flowSequenceEnd turns)

/-- Reads the entries of a mapping in brackets. -/
def parseFlowEntries (first : Bool) : Nat → Parser (List (Node × Node))
  | 0 => failure
  | turns + 1 => do
      passSeparator first .flowMappingEnd
      match (← Parser.peek).kind with
      | .flowMappingEnd =>
          Parser.advance
          return []
      | .key =>
          Parser.advance
          let line ← Parser.nextLine
          let key ← parseNodeOr line [.value, .flowEntry, .flowMappingEnd] .flow turns
          let value ← parseFlowValue .flowMappingEnd turns
          return (key, value) :: (← parseFlowEntries false turns)
      | _ =>
          let key ← parseNode .flow turns
          let value := Node.missing (← Parser.nextLine)
          return (key, value) :: (← parseFlowEntries false turns)

/-- Reads the value of an entry in brackets that end with the given token. -/
def parseFlowValue (closing : TokenKind) : Nat → Parser Node
  | 0 => failure
  | turns + 1 => do
      let token ← Parser.peek
      match token.kind with
      | .value =>
          Parser.advance
          parseNodeOr (← Parser.nextLine) [.flowEntry, closing] .flow turns
      | _ => return Node.missing token.line

end

/-- What a text holds. -/
inductive Content where
  /-- No document at all. -/
  | empty
  | document (document : Document)
  deriving Repr

/-- Whether a document without a node ends at a token. -/
def endsDocument : TokenKind → Bool
  | .documentStart | .documentEnd | .streamEnd | .directive _ => true
  | _ => false

/-- Reads the directives before a document, and tells what handles stand for. The version must
be 1.1, and nothing may be stated twice. -/
def takeDirectives (versioned : Bool) (handles : List (String × String)) :
    List Token → Option (List (String × String) × List Token)
  | [] => some (handles, [])
  | token :: rest =>
      match token.kind with
      | .directive (.version major minor) =>
          if versioned || (major, minor) ≠ (1, 1) then none
          else takeDirectives true handles rest
      | .directive (.handle handle text) =>
          if (handles.lookup handle).isSome then none
          else takeDirectives versioned ((handle, text) :: handles) rest
      | _ => some (handles, token :: rest)

/-- What handles stand for unless a directive says otherwise. -/
def standardHandles : List (String × String) :=
  [("!", "!"), ("!!", "tag:yaml.org,2002:")]

/-- Reads the node of a document, and sees that something follows it. -/
def parseRoot : Parser Content := do
  let first ← Parser.peek
  let bound := (← get).tokens.length + 1
  let root ←
    if endsDocument first.kind then pure (Node.missing first.line)
    else parseNode .block (4 * bound)
  let _ ← Parser.peek
  let feed ← get
  return .document ⟨root, feed.anchored, feed.references, bound⟩

/-- Reads the first document of the given tokens. -/
def parseFirst (tokens : List Token) : Option Content := do
  let (stated, body) ← takeDirectives false [] tokens
  let handles := stated ++ standardHandles
  let bare := body.length = tokens.length
  match body with
  | [] => none
  | token :: rest =>
      match token.kind with
      | .streamEnd => if bare then some .empty else none
      | .documentStart => parseRoot.run' ⟨rest, handles, [], #[], 0⟩
      | .documentEnd => none
      | _ => if bare then parseRoot.run' ⟨body, handles, [], #[], 0⟩ else none

/-- The content of a text, unless the text is not well formed. -/
def parse (text : String) : Option Content :=
  parseFirst (tokens text)

end Flowplan.Yaml
