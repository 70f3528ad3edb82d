import BoardFarm.Matching.Glob
import BoardFarm.ResourcePath

/-!
# Resource matches

A match claims resources by a pattern for each part of their path: exporter, group, class
and, where it is given, name. It may carry a name under which clients see the resource.

* `ResourceMatch.parse`: reads a written pattern.
* `ResourceMatch.claims`: which paths a match claims.
* `ResourceMatch.sameTarget`: the equality of matches, which leaves the client name out.
-/

namespace BoardFarm

/-- One compiled part of a pattern, with its text. -/
structure Component where
  text : String
  expression : Expression
  compiled : Glob.compile text.toList = some expression

namespace Component

/-- Compiles the text of one part. -/
def ofText? (text : String) : Option Component :=
  match h : Glob.compile text.toList with
  | some expression => some ⟨text, expression, h⟩
  | none => none

/-- Whether the part matches a whole text. -/
def isMatch (c : Component) (s : String) : Bool := c.expression.isMatch s

theorem ext_text {a b : Component} (h : a.text = b.text) : a = b := by
  obtain ⟨ta, ea, ha⟩ := a
  obtain ⟨tb, eb, hb⟩ := b
  simp only at h
  subst h
  rw [ha] at hb
  cases hb
  rfl

instance : DecidableEq Component := fun a b =>
  if h : a.text = b.text then isTrue (ext_text h) else isFalse (fun he => h (by rw [he]))

instance : Repr Component where
  reprPrec c n := reprPrec c.text n

theorem text_of_ofText? {s : String} {c : Component} (h : ofText? s = some c) : c.text = s := by
  unfold ofText? at h
  split at h
  · cases h
    rfl
  · cases h

end Component

/-- What is wrong with a pattern. -/
inductive PatternFault where
  | shape
  | emptyComponent
  | component
  deriving DecidableEq, Repr

/-- A pattern that can not be used, and why. -/
structure PatternError where
  pattern : String
  fault : PatternFault
  deriving DecidableEq, Repr

namespace PatternFault

def reason : PatternFault → String
  | shape => "expected exporter/group/cls or exporter/group/cls/name"
  | emptyComponent => "empty component"
  | component => "component does not compile"

end PatternFault

namespace PatternError

def message (e : PatternError) : String :=
  "invalid pattern '" ++ e.pattern ++ "': " ++ e.fault.reason

end PatternError

/-- A claim on resources. -/
structure ResourceMatch where
  exporter : Component
  group : Component
  cls : Component
  name : Option Component
  rename : Option String
  deriving DecidableEq, Repr

/-- The parts of a match as texts. -/
structure MatchView where
  exporter : String
  group : String
  cls : String
  name : Option String
  rename : Option String
  deriving DecidableEq, Repr

/-- Splits a text at every slash. -/
def splitSlashes : List Char → List (List Char)
  | [] => [[]]
  | c :: rest =>
    if c = '/' then [] :: splitSlashes rest
    else
      match splitSlashes rest with
      | [] => [[c]]
      | part :: parts => (c :: part) :: parts

/-- An optional text in which the empty text counts as absent. -/
def nonEmpty? (s : Option String) : Option String := s.filter (fun t => !t.isEmpty)

namespace MatchView

def pattern (v : MatchView) : String :=
  let base := v.exporter ++ "/" ++ v.group ++ "/" ++ v.cls
  match v.name with
  | none => base
  | some n => base ++ "/" ++ n

end MatchView

namespace ResourceMatch

/-- Compiles the parts of a pattern. -/
def ofComponents? (parts : List String) (rename : Option String) : Option ResourceMatch :=
  match parts with
  | [e, g, c] => do
    return ⟨← Component.ofText? e, ← Component.ofText? g, ← Component.ofText? c, none, rename⟩
  | [e, g, c, n] => do
    return ⟨← Component.ofText? e, ← Component.ofText? g, ← Component.ofText? c,
      some (← Component.ofText? n), rename⟩
  | _ => none

/-- Reads a pattern of three or four parts; an empty client name counts as absent. -/
def parse (pattern : String) (rename : Option String) : Except PatternError ResourceMatch :=
  let parts := splitSlashes pattern.toList
  if parts.length ≠ 3 ∧ parts.length ≠ 4 then .error ⟨pattern, .shape⟩
  else if parts.any (·.isEmpty) then .error ⟨pattern, .emptyComponent⟩
  else
    match ofComponents? (parts.map String.ofList) (nonEmpty? rename) with
    | some m => .ok m
    | none => .error ⟨pattern, .component⟩

/-- Reads a match from its parts, through their joined text. -/
def ofView (v : MatchView) : Except PatternError ResourceMatch := parse v.pattern v.rename

/-- The parts of a match as texts. -/
def view (m : ResourceMatch) : MatchView :=
  ⟨m.exporter.text, m.group.text, m.cls.text, m.name.map (·.text), m.rename⟩

def text (m : ResourceMatch) : String := m.view.pattern

/-- Whether the match claims a resource. -/
def claims (m : ResourceMatch) (p : ResourcePath) : Bool :=
  m.exporter.isMatch p.exporter && m.group.isMatch p.group && m.cls.isMatch p.cls &&
    match m.name with
    | none => true
    | some n => n.isMatch p.name

/-- Whether two matches have the same pattern, whatever their client names. -/
def sameTarget (a b : ResourceMatch) : Bool :=
  a.exporter = b.exporter && a.group = b.group && a.cls = b.cls && a.name = b.name

end ResourceMatch

end BoardFarm
