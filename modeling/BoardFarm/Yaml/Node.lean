import BoardFarm.SortedMap
import BoardFarm.Yaml.Lexeme

/-!
# YAML documents as trees of nodes

A document is a tree of scalars, sequences and mappings. An alias stands for the node with a
number. A node takes its number from its anchor: the number of anchor names known before it.
An anchor name that is used again therefore takes a number that a later anchor may take once
more; of several nodes with one number the last one counts.

* `Document.ofText?`: the only document of a text; there is none if the text is malformed.
-/

namespace BoardFarm.Yaml

/-- A node of a document. -/
inductive Node where
  | scalar (tag : Option String) (isPlain : Bool) (text : String)
  | sequence (tag : Option String) (items : List Node)
  | mapping (tag : Option String) (entries : List (Node × Node))
  | reference (number : Nat)
  deriving Repr

/-- A document: its root, if it has one, the numbered nodes, and its size. -/
structure Document where
  root : Option Node
  anchored : SortedMap Nat Node
  /-- The number of scalars, aliases, and starts and ends of collections. -/
  size : Nat

/-- What is left to read of a document, and what is known of it. -/
structure Reading where
  lexemes : List Lexeme
  /-- The meanings of tag handles. -/
  handles : List (List Char × List Char)
  /-- The numbers of anchor names. -/
  numbers : SortedMap String Nat
  /-- The numbered nodes, each with the size of the document before it. -/
  anchored : SortedMap Nat (Nat × Node)
  size : Nat

namespace Reading

def pass (r : Reading) : Reading := { r with lexemes := r.lexemes.drop 1 }

def count (r : Reading) : Reading := { r with size := r.size + 1 }

def next (r : Reading) : Option Lexeme := r.lexemes.head?

/-- Whether the next lexeme is one of some. -/
def sees (r : Reading) (ts : List Lexeme) : Bool :=
  match r.next with
  | none => false
  | some t => ts.contains t

/-- Passes the next lexeme if it is the given one. -/
def expect (r : Reading) (t : Lexeme) : Option Reading :=
  if r.sees [t] then some r.pass else none

/-- The empty scalar that stands for a node that is left out. -/
def absentNode : Node := .scalar none true ""

/-! ## Properties -/

/-- The tag that a written tag denotes. -/
def tagText (r : Reading) (t : TagName) : Option String :=
  if t.handle.isEmpty then some (String.ofList t.suffix)
  else (r.handles.find? (fun h => h.1 == t.handle)).map
    (fun h => String.ofList (h.2 ++ t.suffix))

def readAnchor (r : Reading) : Option String × Reading :=
  match r.next with
  | some (.anchor name) => (some (String.ofList name), r.pass)
  | _ => (none, r)

def readTag (r : Reading) : Option (Option String × Reading) :=
  match r.next with
  | some (.tag name) => (r.tagText name).map (fun t => (some t, r.pass))
  | _ => some (none, r)

/-- An anchor and a tag in any order. -/
def readProperties (r : Reading) : Option (Option String × Option String × Reading) := do
  let (anchor, r) := r.readAnchor
  let (tag, r) ← r.readTag
  match anchor with
  | some a => return (some a, tag, r)
  | none =>
    if tag.isNone then return (none, none, r)
    let (anchor, r) := r.readAnchor
    return (anchor, tag, r)

/-- The number that a node with an anchor takes. -/
def number (r : Reading) (anchor : Option String) : Option Nat × Reading :=
  match anchor with
  | none => (none, r)
  | some a =>
    let n := r.numbers.size
    (some n, { r with numbers := r.numbers.insert a n })

/-- Files a node under its number; a node that started later stays. -/
def file (r : Reading) (number : Option Nat) (start : Nat) (node : Node) : Reading :=
  match number with
  | none => r
  | some n =>
    match r.anchored.get? n with
    | some (other, _) =>
      if start < other then r else { r with anchored := r.anchored.insert n (start, node) }
    | none => { r with anchored := r.anchored.insert n (start, node) }

/-! ## Nodes

The `fuel` of the readers bounds their depth; every round passes a lexeme or follows one that
did. -/

mutual

/-- Reads a node. Block collections stand only in a block; a sequence without an indentation
of its own stands only below a key. -/
def readNode (block unindented : Bool) : (fuel : Nat) → Reading → Option (Node × Reading)
  | 0, _ => none
  | fuel + 1, r =>
    match r.next with
    | some (.reference name) => do
      let n ← r.numbers.get? (String.ofList name)
      return (.reference n, r.pass.count)
    | _ => do
      let (anchor, tag, r) ← r.readProperties
      let start := r.size
      let (number, r) := r.number anchor
      let r := r.count
      let (node, r) ← match r.next with
        | some .item =>
          if unindented then do
            let (items, r) ← readUnindented fuel r
            pure (Node.sequence tag items, r.count)
          else if anchor.isSome || tag.isSome then some (.scalar tag true "", r)
          else none
        | some (.scalar isPlain text) =>
          let tag := if tag == some "!" then none else tag
          some (.scalar tag isPlain (String.ofList text), r.pass)
        | some .flowSequence => do
          let (items, r) ← readFlowItems true fuel r.pass
          pure (Node.sequence tag items, r.count)
        | some .flowMapping => do
          let (entries, r) ← readFlowEntries true fuel r.pass
          pure (Node.mapping tag entries, r.count)
        | t =>
          if block && t == some .blockSequence then do
            let (items, r) ← readBlockItems fuel r.pass
            pure (Node.sequence tag items, r.count)
          else if block && t == some .blockMapping then do
            let (entries, r) ← readBlockEntries fuel r.pass
            pure (Node.mapping tag entries, r.count)
          else if anchor.isSome || tag.isSome then some (.scalar tag true "", r)
          else none
      return (node, r.file number start node)

/-- Reads a node, or none before some lexemes. -/
def readNodeUnless (ends : List Lexeme) (block unindented : Bool) :
    (fuel : Nat) → Reading → Option (Node × Reading)
  | 0, _ => none
  | fuel + 1, r =>
    if r.sees ends then some (absentNode, r.count) else readNode block unindented fuel r

/-- Reads the items of a block sequence and its end. -/
def readBlockItems : (fuel : Nat) → Reading → Option (List Node × Reading)
  | 0, _ => none
  | fuel + 1, r =>
    match r.next with
    | some .item => do
      let (node, r) ← readNodeUnless [.item, .blockEnd] true false fuel r.pass
      let (nodes, r) ← readBlockItems fuel r
      return (node :: nodes, r)
    | some .blockEnd => some ([], r.pass)
    | _ => none

/-- Reads the items of a sequence without an indentation of its own. -/
def readUnindented : (fuel : Nat) → Reading → Option (List Node × Reading)
  | 0, _ => none
  | fuel + 1, r =>
    match r.next with
    | some .item => do
      let (node, r) ← readNodeUnless [.item, .key, .value, .blockEnd] true false fuel r.pass
      let (nodes, r) ← readUnindented fuel r
      return (node :: nodes, r)
    | _ => some ([], r)

/-- Reads the value behind a key of a block mapping. -/
def readBlockValue : (fuel : Nat) → Reading → Option (Node × Reading)
  | 0, _ => none
  | fuel + 1, r =>
    match r.next with
    | some .value => readNodeUnless [.key, .value, .blockEnd] true true fuel r.pass
    | _ => some (absentNode, r.count)

/-- Reads the entries of a block mapping and its end. -/
def readBlockEntries : (fuel : Nat) → Reading → Option (List (Node × Node) × Reading)
  | 0, _ => none
  | fuel + 1, r =>
    match r.next with
    | some .key => do
      let (key, r) ← readNodeUnless [.key, .value, .blockEnd] true true fuel r.pass
      let (value, r) ← readBlockValue fuel r
      let (entries, r) ← readBlockEntries fuel r
      return ((key, value) :: entries, r)
    | some .blockEnd => some ([], r.pass)
    | _ => none

/-- Reads the single entry of a mapping that is an item of a flow sequence. A colon, a comma
or a bracket that stands for an absent key is passed. -/
def readSingleEntry : (fuel : Nat) → Reading → Option (List (Node × Node) × Reading)
  | 0, _ => none
  | fuel + 1, r => do
    let (key, r) ←
      if r.sees [.value, .comma, .flowSequenceEnd] then some (absentNode, r.pass.count)
      else readNode false false fuel r
    let (value, r) ←
      if r.sees [.value] then readNodeUnless [.comma, .flowSequenceEnd] false false fuel r.pass
      else some (absentNode, r.count)
    return ([(key, value)], r.count)

/-- Reads the items of a flow sequence and its end. -/
def readFlowItems (first : Bool) : (fuel : Nat) → Reading → Option (List Node × Reading)
  | 0, _ => none
  | fuel + 1, r =>
    if r.sees [.flowSequenceEnd] then some ([], r.pass)
    else do
      let r ← if first then some r else r.expect .comma
      match r.next with
      | some .flowSequenceEnd => return ([], r.pass)
      | some .key =>
        let (entries, r) ← readSingleEntry fuel r.pass.count
        let (nodes, r) ← readFlowItems false fuel r
        return (.mapping none entries :: nodes, r)
      | _ =>
        let (node, r) ← readNode false false fuel r
        let (nodes, r) ← readFlowItems false fuel r
        return (node :: nodes, r)

/-- Reads the value behind a key of a flow mapping. -/
def readFlowValue : (fuel : Nat) → Reading → Option (Node × Reading)
  | 0, _ => none
  | fuel + 1, r =>
    match r.next with
    | some .value => readNodeUnless [.comma, .flowMappingEnd] false false fuel r.pass
    | _ => some (absentNode, r.count)

/-- Reads the entries of a flow mapping and its end. -/
def readFlowEntries (first : Bool) :
    (fuel : Nat) → Reading → Option (List (Node × Node) × Reading)
  | 0, _ => none
  | fuel + 1, r =>
    if r.sees [.flowMappingEnd] then some ([], r.pass)
    else do
      let r ← if first then some r else r.expect .comma
      match r.next with
      | some .flowMappingEnd => return ([], r.pass)
      | some .key =>
        let (key, r) ← readNodeUnless [.value, .comma, .flowMappingEnd] false false fuel r.pass
        let (value, r) ← readFlowValue fuel r
        let (entries, r) ← readFlowEntries false fuel r
        return ((key, value) :: entries, r)
      | _ =>
        let (key, r) ← readNode false false fuel r
        let (entries, r) ← readFlowEntries false fuel r.count
        return ((key, absentNode) :: entries, r)

end

/-! ## Documents -/

/-- The handles that every document knows. -/
def standardHandles : List (List Char × List Char) :=
  [(['!'], ['!']), (['!', '!'], "tag:yaml.org,2002:".toList)]

/-- Reads directives: a version, 1.1 or 1.2, and each handle at most once. -/
def readDirectives : (lexemes : List Lexeme) → (versions : Nat) →
    (handles : List (List Char × List Char)) → Option (List (List Char × List Char) × List Lexeme)
  | .directive (.version major minor) :: rest, versions, handles =>
    if versions = 0 && major = 1 && (minor = 1 || minor = 2) then
      readDirectives rest (versions + 1) handles
    else none
  | .directive (.handle handle meaning) :: rest, versions, handles =>
    if handles.any (fun h => h.1 == handle) then none
    else readDirectives rest versions (handles ++ [(handle, meaning)])
  | rest, _, handles => some (handles, rest)

/-- A document about to be read. -/
def start (handles : List (List Char × List Char)) (lexemes : List Lexeme) : Reading :=
  ⟨lexemes, handles ++ standardHandles, SortedMap.empty, SortedMap.empty, 0⟩

/-- Whether the content of an explicit document is left out. -/
def contentMissing (r : Reading) : Bool :=
  match r.next with
  | none => true
  | some (.directive _) => true
  | some t => t == .documentStart || t == .documentEnd

/-- Reads the root of a document. -/
def readRoot (r : Reading) (explicit : Bool) : Option (Node × Reading) :=
  if explicit && r.contentMissing then some (absentNode, r.count)
  else readNode true false (3 * r.lexemes.length + 3) r

/-- The document that has been read; nothing but end markers may follow. -/
def finish (r : Reading) (root : Node) : Option Document :=
  if r.lexemes.all (· == .documentEnd) then
    some ⟨some root, r.anchored.mapValues (fun _ e => e.2), r.size⟩
  else none

end Reading

/-- The only document of some lexemes. -/
def Document.ofLexemes? (ts : List Lexeme) : Option Document := do
  if ts.isEmpty then return ⟨none, SortedMap.empty, 1⟩
  let (handles, rest) ← Reading.readDirectives ts 0 []
  match rest with
  | .documentStart :: rest =>
    let (root, r) ← (Reading.start handles rest).readRoot true
    r.finish root
  | _ =>
    if rest.length < ts.length then none
    let (root, r) ← (Reading.start handles rest).readRoot false
    r.finish root

/-- The only document of a text. -/
def Document.ofText? (s : String) : Option Document := do
  let ts ← Lexeme.ofText? s
  Document.ofLexemes? ts

end BoardFarm.Yaml
