import BoardFarm.Matching.Expression

/-!
# Glob components

One component of a match pattern: `*` stands for any text within a line, `?` for any
character but a line feed, a bracket set for one of its characters, and any other character
for itself. An opening bracket without a closing one stands for itself. A set that begins with
`!` is a complement, and a closing bracket in the place of its first member is a member.

A component is translated to a regular expression that describes whole texts.

* `Glob.translate`: the written expression of a component.
* `Glob.compile`: its expression; it fails exactly on a descending range of a set.
-/

namespace BoardFarm

/-- A set that opens just before a text: whether it is a complement, what stands between its
brackets, and how many characters it takes up. -/
structure SetSpan where
  negated : Bool
  content : List Char
  length : Nat
  deriving DecidableEq, Repr

namespace SetSpan

/-- The set whose first member stands at the head of `cs`, with `before` characters in front
of it; a closing bracket in that place is a member. -/
def closeAt? (negated : Bool) (before : Nat) : List Char → Option SetSpan
  | [] => none
  | first :: rest =>
    let more := rest.takeWhile (· ≠ ']')
    if more.length < rest.length then some ⟨negated, first :: more, before + more.length + 2⟩
    else none

/-- The set that opens just before `cs`, if a closing bracket ends it. -/
def read? : List Char → Option SetSpan
  | '!' :: rest => closeAt? true 1 rest
  | cs => closeAt? false 0 cs

end SetSpan

namespace Glob

/-- The written form of a character that stands for itself. -/
def escape (c : Char) : List Char := if c ∈ Sign.marks then ['\\', c] else [c]

/-- The written form of a character within a class; the hyphen keeps its meaning there. -/
def escapeMember (c : Char) : List Char :=
  if c ∈ ['\\', '[', ']', '^', '&', '~'] then ['\\', c] else [c]

/-- The written form of a class. -/
def classText (negated : Bool) (content : List Char) : List Char :=
  '[' :: (if negated then ['^'] else []) ++ content.flatMap escapeMember ++ [']']

/-- The written expression of a component, after passing over `skip` characters. -/
def translateFrom : (skip : Nat) → List Char → List Char
  | _, [] => []
  | skip + 1, _ :: rest => translateFrom skip rest
  | 0, c :: rest =>
    if c = '*' then ['.', '*'] ++ translateFrom 0 rest
    else if c = '?' then '.' :: translateFrom 0 rest
    else if c = '[' then
      match SetSpan.read? rest with
      | none => ['\\', '['] ++ translateFrom 0 rest
      | some span => classText span.negated span.content ++ translateFrom span.length rest
    else escape c ++ translateFrom 0 rest

/-- The written expression of a component, for whole texts. -/
def translate (cs : List Char) : List Char := '^' :: translateFrom 0 cs ++ ['$']

def compile (cs : List Char) : Option Expression := Expression.read? (translate cs)

end Glob

end BoardFarm
