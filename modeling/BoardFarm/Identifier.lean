import BoardFarm.Order
import BoardFarm.Identifier.Base32

/-!
# Typed identifiers

An identifier is 128 bits of one kind, written as the kind's mark, an underscore and
twenty-six base 32 digits. Reading is strict about the kind and the length; the digits may
be of either letter case, and the two surplus bits of the first digit are dropped.

* `Identifier.text`, `Identifier.parse`: the written form and its reader.
* `Identifier.text_inj`: different identifiers of a kind are written differently.
* `IdError.message`: the wording of every refusal.
-/

namespace BoardFarm

/-- What an identifier names. -/
inductive IdKind where
  | reservation
  | session
  | request
  deriving DecidableEq, Repr

namespace IdKind

/-- The text in front of the underscore. -/
def mark : IdKind → String
  | reservation => "rsv"
  | session => "sess"
  | request => "req"

end IdKind

/-- An identifier of one kind. -/
structure Identifier (kind : IdKind) where
  /-- The 128 bits, as a number. -/
  value : Fin (1 <<< 128)
  deriving DecidableEq, Repr

abbrev Token : Type := Identifier .reservation

/-- What is wrong with the digits of an identifier. -/
inductive DigitsError where
  | length
  | character
  deriving DecidableEq, Repr

/-- Why a text is no identifier of the wanted kind. -/
inductive IdError where
  | empty
  | missingSeparator
  | wrongKind (expected : IdKind) (actual : String)
  | digits (cause : DigitsError)
  deriving DecidableEq, Repr

namespace IdError

def message : IdError → String
  | empty => "id cannot be empty"
  | missingSeparator => "id missing underscore separator"
  | wrongKind expected actual =>
    "invalid id prefix: expected '" ++ expected.mark ++ "', got '" ++ actual ++ "'"
  | digits .length => "invalid ULID: invalid length"
  | digits .character => "invalid ULID: invalid character"

/-- Whether the text names something of another kind. -/
def isWrongKind : IdError → Bool
  | wrongKind _ _ => true
  | _ => false

end IdError

namespace Identifier

variable {kind : IdKind}

instance : LT (Identifier kind) := ⟨fun a b => a.value.val < b.value.val⟩

instance : DecidableLT (Identifier kind) :=
  fun a b => inferInstanceAs (Decidable (a.value.val < b.value.val))

instance : KeyOrder (Identifier kind) :=
  KeyOrder.ofInjective (fun a => a.value.val) (fun _ _ => Iff.rfl)
    (fun a b h => by cases a; cases b; simpa [Fin.ext_iff] using h)

/-- The number of base 32 digits of an identifier. -/
def digitCount : Nat := 26

/-- The identifier with the low 128 bits of a number. -/
def ofNat (kind : IdKind) (n : Nat) : Identifier kind :=
  ⟨⟨n % (1 <<< 128), Nat.mod_lt _ (by decide)⟩⟩

def text (id : Identifier kind) : String :=
  kind.mark ++ "_" ++ String.ofList (Base32.encode digitCount id.value.val)

/-- Different identifiers of a kind are written differently. -/
theorem text_inj {a b : Identifier kind} (h : a.text = b.text) : a = b := by
  have hlist := congrArg String.toList h
  simp only [text, String.toList_append, String.toList_ofList] at hlist
  have hdigits := List.append_cancel_left hlist
  have hfits : ∀ id : Identifier kind, id.value.val < 1 <<< (5 * digitCount) := fun id =>
    Nat.lt_trans id.value.isLt (by decide)
  have hvalue : a.value = b.value := Fin.ext (Base32.encode_inj (hfits a) (hfits b) hdigits)
  cases a
  cases b
  exact congrArg Identifier.mk hvalue

/-- Splits a list at the first underscore, which is dropped. -/
def splitAtUnderscore : List Char → Option (List Char × List Char)
  | [] => none
  | c :: rest =>
    if c = '_' then some ([], rest)
    else (splitAtUnderscore rest).map (fun p => (c :: p.1, p.2))

/-- Reads the digits of an identifier; the length is checked in bytes and first. -/
def parseDigits (kind : IdKind) (cs : List Char) : Except DigitsError (Identifier kind) :=
  if (String.ofList cs).utf8ByteSize ≠ digitCount then .error .length
  else
    match Base32.decode cs with
    | none => .error .character
    | some n => .ok (ofNat kind n)

/-- Reads an identifier of one kind. -/
def parse (kind : IdKind) (s : String) : Except IdError (Identifier kind) :=
  if s.isEmpty then .error .empty
  else
    match splitAtUnderscore s.toList with
    | none => .error .missingSeparator
    | some (mark, rest) =>
      if mark ≠ kind.mark.toList then .error (.wrongKind kind (String.ofList mark))
      else
        match parseDigits kind rest with
        | .error e => .error (.digits e)
        | .ok id => .ok id

end Identifier

end BoardFarm
