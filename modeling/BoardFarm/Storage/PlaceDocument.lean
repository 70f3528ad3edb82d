import BoardFarm.Data
import BoardFarm.Place
import BoardFarm.Time.Written
import BoardFarm.Yaml.Layout
import BoardFarm.Yaml.Record

/-!
# Stored places

What is stored of a place is its configuration; who holds it and what it holds is not. The
places are stored as one YAML mapping by name.

* `PlaceDocument.ofPlace`, `PlaceDocument.toPlace`: what is stored of a place, and the place
  that it describes.
* `PlaceDocument.write`, `PlaceDocument.read`: the places as text.
-/

namespace BoardFarm

/-- What is stored of a place. -/
structure PlaceDocument where
  aliases : SortedSet String
  comment : String
  tags : SortedMap String String
  patterns : List MatchView
  created : Timestamp
  changed : Timestamp
  deriving DecidableEq, Repr

namespace PlaceDocument

open Yaml (Node Document Decode)

/-- What is stored of a place. -/
def ofPlace (p : Place) : PlaceDocument :=
  ⟨p.aliases, p.comment, p.tags, p.patterns.map ResourceMatch.view, p.created, p.changed⟩

/-- Reads matches from their parts; the first error is reported. -/
def toPatterns : List MatchView → Except PatternError (List ResourceMatch)
  | [] => .ok []
  | v :: rest =>
    match ResourceMatch.ofView v with
    | .error e => .error e
    | .ok m =>
      match toPatterns rest with
      | .error e => .error e
      | .ok ms => .ok (m :: ms)

/-- The free place that is described. -/
def toPlace (name : String) (d : PlaceDocument) : Except PatternError Place :=
  match toPatterns d.patterns with
  | .error e => .error e
  | .ok patterns =>
    .ok { Place.new name 0 with
      aliases := d.aliases, comment := d.comment, tags := d.tags, patterns := patterns
      created := d.created, changed := d.changed }

/-! ## Writing -/

/-- A field that is left out without a value. -/
def optionalField (name : String) : Option String → List (Data × Data)
  | none => []
  | some s => [(.text name, .text s)]

/-- The stored form of a match. -/
def matchData (v : MatchView) : Data :=
  .mapping ([(.text "exporter", .text v.exporter), (.text "group", .text v.group),
    (.text "cls", .text v.cls)] ++ optionalField "name" v.name ++
    optionalField "rename" v.rename)

/-- The stored form of a place. -/
def data (d : PlaceDocument) : Data :=
  .mapping [
    (.text "aliases", .sequence (d.aliases.members.map .text)),
    (.text "comment", .text d.comment),
    (.text "tags", .mapping (d.tags.toList.map (fun e => (.text e.1, .text e.2)))),
    (.text "matches", .sequence (d.patterns.map matchData)),
    (.text "created", .text d.created.text),
    (.text "changed", .text d.changed.text)]

def write (places : SortedMap String PlaceDocument) : String :=
  (Data.mapping (places.toList.map (fun e => (.text e.1, e.2.data)))).document

/-! ## Reading -/

def decodeMatch (d : Document) (node : Node) : Decode MatchView := do
  let fields ← d.record ["exporter", "group", "cls", "name", "rename"] node
  return {
    exporter := ← fields.required "exporter" d.text
    group := ← fields.required "group" d.text
    cls := ← fields.required "cls" d.text
    name := ← fields.defaulted "name" (d.optional d.text) none
    rename := ← fields.defaulted "rename" (d.optional d.text) none }

def decodeTime (d : Document) (node : Node) : Decode Timestamp := do
  match Timestamp.parse? (← d.text node) with
  | none => failure
  | some t => return t

/-- A stored place; the times must be given. -/
def decode (d : Document) (node : Node) : Decode PlaceDocument := do
  let fields ← d.record ["aliases", "comment", "tags", "matches", "created", "changed"] node
  return {
    aliases := SortedSet.ofList (← fields.defaulted "aliases" (d.list d.text) [])
    comment := ← fields.defaulted "comment" d.text ""
    tags := ← fields.defaulted "tags" (d.named d.text) SortedMap.empty
    patterns := ← fields.defaulted "matches" (d.list (decodeMatch d)) []
    created := ← fields.required "created" (decodeTime d)
    changed := ← fields.required "changed" (decodeTime d) }

/-- The places that a text describes; an empty text describes none. -/
def read (text : String) : Option (SortedMap String PlaceDocument) := do
  let d ← Document.ofText? text
  return (← d.decode (d.named (decode d))).getD SortedMap.empty

end PlaceDocument

end BoardFarm
