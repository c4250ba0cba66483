import Flowplan.Settings.Basic
import Flowplan.Settings.Misfit
import Flowplan.Yaml.Node

/-!
# Reading settings

Settings are read from a mapping whose keys name them. What the text leaves out keeps its
standard value, and what it sets to null becomes blank. Every name must be known and stand
once, and every value must fit; all that is wrong with a well-formed text is told at once, in
its order.

A mapping may merge others into itself. References are followed, which may lead back to a node
that is being read: a reference that is met again while it is followed makes the text malformed,
and so does a text of which nearly all is read behind references.
-/

namespace Flowplan

open Yaml (Content Document Meaning)

namespace Settings

/-- Settings on the way. -/
structure Progress where
  settings : Settings
  /-- What did not fit so far. -/
  misfits : Array Misfit
  /-- How many nodes have been read, the document included. -/
  visits : Nat
  /-- How many of them were read behind a reference. -/
  referred : Nat

namespace Progress

/-- Whether too much is read behind references. Of few nodes 99 in 100 may be, of many only one
in 10, and in between the share falls evenly. -/
def isExcessive (progress : Progress) : Bool :=
  let few := 400000
  let many := 4000000
  100 < progress.referred && 1000 < progress.visits &&
    if progress.visits ≤ few then 99 * progress.visits < 100 * progress.referred
    else if many ≤ progress.visits then progress.visits < 10 * progress.referred
    else
      (99 * (many - few) - 89 * (progress.visits - few)) * progress.visits <
        100 * (many - few) * progress.referred

end Progress

/-- A reading of nodes. It fails where the text is not well formed. -/
abbrev Decoding := StateT Progress Option

namespace Decoding

/-- Notes what does not fit. -/
def note (misfit : Misfit) : Decoding Unit :=
  modify fun progress => { progress with misfits := progress.misfits.push misfit }

/-- Notes what does not fit in place of a value. -/
def refuse {α : Type} (misfit : Misfit) : Decoding (Option α) := do
  note misfit
  return none

/-- Puts a value into the settings, if there is one. -/
def store {α : Type} (read : Decoding (Option α)) (set : Settings → α → Settings) :
    Decoding Unit := do
  if let some value ← read then
    modify fun progress => { progress with settings := set progress.settings value }

/-- Counts a node that is read behind the given references. -/
def visit (behind : List Nat) : Decoding Unit := do
  modify fun progress =>
    { progress with
      visits := progress.visits + 1
      referred := progress.referred + if behind.isEmpty then 0 else 1 }
  if (← get).isExcessive then failure

/-- Follows references to a node which is none, at most as many as `turns`. Tells the references
that have been followed up to there. -/
def follow (document : Document) :
    Nat → List Nat → Yaml.Node → Decoding (List Nat × Yaml.Node)
  | 0, _, _ => failure
  | turns + 1, behind, node => do
      visit behind
      match node with
      | .reference _ number target =>
          match behind.contains number, document.anchored[target]? with
          | false, some found => follow document turns (number :: behind) found
          | _, _ => failure
      | _ => return (behind, node)

/-- Reads a node, or what it refers to. No more references can be followed than there are. -/
def arrive (document : Document) (behind : List Nat) (node : Yaml.Node) :
    Decoding (List Nat × Yaml.Node) :=
  follow document (document.references + 1) behind node

/-- Reads a scalar of which some meanings fit. Nothing else fits. -/
def judge {α : Type} (wanted : Wanted) (read? : String → Meaning → Option α) :
    Yaml.Node → Decoding (Option α)
  | .scalar line tag text plain => do
      match Meaning.ofScalar? tag text plain with
      | none => failure
      | some meaning =>
          match read? text meaning with
          | some value => return some value
          | none => refuse (.unwanted line (tag.getD meaning.tag) text wanted)
  | .sequence line _ => refuse (.sequence line wanted)
  | .mapping line _ => refuse (.mapping line wanted)
  | .reference .. => failure

end Decoding

open Decoding

/-- Reads a truth value. -/
def readTruth (document : Document) (behind : List Nat) (node : Yaml.Node) :
    Decoding (Option Bool) := do
  let (_, found) ← arrive document behind node
  found |> judge .truth fun _ meaning =>
    match meaning with
    | .null => some false
    | .truth value => some value
    | _ => none

/-- Reads a whole number. -/
def readWhole (document : Document) (behind : List Nat) (node : Yaml.Node) :
    Decoding (Option Int) := do
  let (_, found) ← arrive document behind node
  found |> judge .whole fun _ meaning => if meaning = .null then some 0 else meaning.whole?

/-- Reads a text. A scalar of any meaning is a text: what is none by itself, as it is
written. -/
def readText (document : Document) (behind : List Nat) (node : Yaml.Node) :
    Decoding (Option String) := do
  let (_, found) ← arrive document behind node
  found |> judge .text fun written meaning =>
    match meaning with
    | .null => some ""
    | .text value => some value
    | _ => some written

/-- Reads a list of texts. -/
def readTexts (document : Document) (behind : List Nat) (node : Yaml.Node) :
    Decoding (Option (List String)) := do
  let (beyond, found) ← arrive document behind node
  match found with
  | .sequence _ items => return some (← items.filterMapM (readText document beyond))
  | _ => found |> judge .texts fun _ meaning => if meaning = .null then some [] else none

/-- A setting by itself. -/
inductive Field where
  | passes
  | verifyProducts
  | strictStageEdges
  | concurrency
  | defaultParallelism
  | logLevel
  deriving DecidableEq, Repr

/-- The setting of a name. -/
def Field.ofName? : String → Option Field
  | "passes" => some .passes
  | "verify_products" => some .verifyProducts
  | "strict_stage_edge_merge" => some .strictStageEdges
  | "max_concurrent_compilations" => some .concurrency
  | "default_parallelism" => some .defaultParallelism
  | "log_level" => some .logLevel
  | _ => none

/-- Reads one setting. -/
def takeField (document : Document) (behind : List Nat) (field : Field) (node : Yaml.Node) :
    Decoding Unit :=
  match field with
  | .passes =>
      store (readTexts document behind node) fun settings passes =>
        { settings with passes := passes }
  | .verifyProducts =>
      store (readTruth document behind node) fun settings verify =>
        { settings with verifyProducts := verify }
  | .strictStageEdges =>
      store (readTruth document behind node) fun settings strict =>
        { settings with strictStageEdges := strict }
  | .concurrency =>
      store (readWhole document behind node) fun settings limit =>
        { settings with concurrency := limit }
  | .defaultParallelism =>
      store (readWhole document behind node) fun settings degree =>
        { settings with defaultParallelism := degree }
  | .logLevel =>
      store (readText document behind node) fun settings name =>
        { settings with logLevel := name }

/-- Reads an entry of a mapping of which some names have stood before. Tells which have stood
behind it. -/
def takeEntry (document : Document) (behind : List Nat) (seen : List Field)
    (key value : Yaml.Node) : Decoding (List Field) := do
  match ← readText document behind key with
  | none => return seen
  | some name =>
      match Field.ofName? name with
      | none =>
          note (.unknownName key.line name)
          return seen
      | some field =>
          if seen.contains field then
            note (.repeatedName key.line name)
            return seen
          else
            takeField document behind field value
            return field :: seen

/-- Whether a key asks for the entries of other mappings. -/
def isMerge : Yaml.Node → Bool
  | .scalar _ tag text plain =>
      text = "<<" && (plain || tag = some (Yaml.standardTag "merge"))
  | _ => false

/-- Whether a node is a mapping or refers to one. -/
def isMapping (document : Document) : Yaml.Node → Bool
  | .mapping .. => true
  | .reference _ _ target => (document.anchored[target]? matches some (.mapping ..))
  | _ => false

/-- Takes what is merged: a mapping, or mappings of which earlier ones count more, so the last
one comes first. -/
def takeMerged (document : Document) (take : Yaml.Node → Decoding Unit) :
    Yaml.Node → Decoding Unit
  | .sequence _ items =>
      items.reverse.forM fun item => if isMapping document item then take item else failure
  | node => if isMapping document node then take node else failure

/-- Reads settings from a mapping. Null makes all of them blank. -/
def takeSettings (document : Document) : Nat → List Nat → Yaml.Node → Decoding Unit
  | 0, _, _ => failure
  | turns + 1, behind, node => do
      let (beyond, found) ← arrive document behind node
      match found with
      | .mapping _ entries =>
          let _ ← entries.foldlM (fun seen (key, value) => do
            if isMerge key then
              takeMerged document (fun merged => takeSettings document turns beyond merged) value
              return seen
            else takeEntry document beyond seen key value) []
      | _ =>
          let nothing := judge .settings fun _ meaning =>
            if meaning = .null then some blank else none
          store (nothing found) fun _ settings => settings

/-- Reads the content of a text. Between two references, mappings lie in each other, so a
document bounds how deep the reading goes. -/
def ofContent? : Content → Option Progress
  | .empty => some ⟨standard, #[], 0, 0⟩
  | .document document =>
      let turns := (document.references + 1) * document.bound
      ((takeSettings document turns [] document.root).run ⟨standard, #[], 1, 0⟩).map Prod.snd

/-- The usable settings a text holds. -/
def load (text : String) : Except SettingsError Settings :=
  match (Yaml.parse text).bind ofContent? with
  | none => .error .malformed
  | some progress =>
      if progress.misfits.isEmpty then
        match progress.settings.validate with
        | .ok () => .ok progress.settings
        | .error fault => .error (.unusable fault)
      else .error (.misfits progress.misfits.toList)

end Settings

end Flowplan
