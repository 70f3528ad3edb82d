import BoardFarm.Data
import BoardFarm.Resource

/-!
# Equipment

Each class of equipment has named fields of a type. Equipment of a class is built from untyped
parameters: every entry must be a field of the right type, and a field without an entry takes
its default value if it has one.

* `EquipmentClass.build`: the equipment described by untyped parameters.
* `Catalogue.build`: the same, for a class that is looked up by name.
* `ParamsFault.message`: why parameters are refused.
-/

namespace BoardFarm

/-- The types of fields. -/
inductive FieldType where
  | text
  | integer
  deriving DecidableEq, Repr

/-- What stands for a field without an entry. -/
inductive Absence where
  | refused
  | omitted
  | filled (value : ParamValue)
  deriving DecidableEq, Repr

/-- A field of a class. A null entry counts as no entry where the field may be omitted. -/
structure Field where
  name : String
  type : FieldType
  absence : Absence
  deriving DecidableEq, Repr

/-- The classes of equipment. -/
inductive EquipmentClass where
  | networkService
  | rawSerialPort
  | powerPort
  deriving DecidableEq, Repr

/-- A piece of equipment: its class and its parameters. -/
structure Equipment where
  cls : EquipmentClass
  params : SortedMap String ParamValue
  deriving DecidableEq, Repr

namespace FieldType

/-- How a message names a type. -/
def expected : FieldType → String
  | text => "a string"
  | integer => "i64"

end FieldType

namespace EquipmentClass

def name : EquipmentClass → String
  | networkService => "NetworkService"
  | rawSerialPort => "RawSerialPort"
  | powerPort => "PowerPort"

/-- The fields of a class, in the order of their declaration. -/
def fields : EquipmentClass → List Field
  | networkService =>
    [⟨"address", .text, .refused⟩, ⟨"username", .text, .refused⟩, ⟨"port", .integer, .omitted⟩]
  | rawSerialPort => [⟨"port", .text, .refused⟩, ⟨"speed", .integer, .filled (.int 115200)⟩]
  | powerPort =>
    [⟨"model", .text, .refused⟩, ⟨"host", .text, .refused⟩, ⟨"index", .integer, .refused⟩]

end EquipmentClass

/-- Why parameters do not describe equipment of a class. -/
inductive ParamsFault where
  | shape (cls : EquipmentClass) (found : Data)
  | key (found : Data)
  | unknownField (cls : EquipmentClass) (name : String)
  | type (expected : FieldType) (found : Data)
  | tooLarge (n : Int)
  | missingField (name : String)
  deriving Repr

namespace ParamsFault

def ticked (s : String) : String := "`" ++ s ++ "`"

/-- The fields of a class, as a message lists them. -/
def choices (cls : EquipmentClass) : String :=
  match cls.fields.map (fun f => ticked f.name) with
  | [a, b] => a ++ " or " ++ b
  | names => "one of " ++ String.intercalate ", " names

def message : ParamsFault → String
  | shape cls found => "invalid type: " ++ found.found ++ ", expected struct " ++ cls.name
  | key found => "invalid type: " ++ found.found ++ ", expected field identifier"
  | unknownField cls name => "unknown field " ++ ticked name ++ ", expected " ++ choices cls
  | type expected found => "invalid type: " ++ found.found ++ ", expected " ++ expected.expected
  | tooLarge n => "invalid value: integer " ++ ticked (Digits.integer n) ++ ", expected i64"
  | missingField name => "missing field " ++ ticked name

end ParamsFault

namespace Field

/-- The value of an entry of a field; a null entry of a field that may be omitted has none. -/
def read (f : Field) (value : Data) : Except ParamsFault (Option ParamValue) :=
  match f.absence, f.type, value with
  | .omitted, _, .null => .ok none
  | _, .text, .text s => .ok (some (.text s))
  | _, .integer, .int n =>
    if n < (1 <<< 63 : Nat) then .ok (some (.int n)) else .error (.tooLarge n)
  | _, type, value => .error (.type type value)

/-- Completes the parameters with what stands for an absent field. -/
def complete (f : Field) (present : List String) (params : SortedMap String ParamValue) :
    Except ParamsFault (SortedMap String ParamValue) :=
  if present.contains f.name then .ok params
  else
    match f.absence with
    | .refused => .error (.missingField f.name)
    | .omitted => .ok params
    | .filled value => .ok (params.insert f.name value)

end Field

namespace EquipmentClass

/-- Reads entries in order; the first fault is reported. -/
def readEntries (cls : EquipmentClass) (params : SortedMap String ParamValue) :
    List (Data × Data) → Except ParamsFault (SortedMap String ParamValue)
  | [] => .ok params
  | (.text key, value) :: rest =>
    match cls.fields.find? (fun f => f.name == key) with
    | none => .error (.unknownField cls key)
    | some f =>
      match f.read value with
      | .error e => .error e
      | .ok none => readEntries cls params rest
      | .ok (some v) => readEntries cls (params.insert key v) rest
  | (key, _) :: _ => .error (.key key)

/-- Completes the absent fields in order; the first fault is reported. -/
def completeFields (present : List String) (params : SortedMap String ParamValue) :
    List Field → Except ParamsFault (SortedMap String ParamValue)
  | [] => .ok params
  | f :: rest =>
    match f.complete present params with
    | .error e => .error e
    | .ok params => completeFields present params rest

def keys (entries : List (Data × Data)) : List String :=
  entries.filterMap (fun e =>
    match e.1 with
    | .text key => some key
    | _ => none)

def buildFrom (cls : EquipmentClass) (entries : List (Data × Data)) :
    Except ParamsFault Equipment :=
  match cls.readEntries SortedMap.empty entries with
  | .error e => .error e
  | .ok params =>
    match completeFields (keys entries) params cls.fields with
    | .error e => .error e
    | .ok params => .ok ⟨cls, params⟩

/-- The equipment that untyped parameters describe; null stands for no entries. -/
def build (cls : EquipmentClass) (params : Data) : Except ParamsFault Equipment :=
  match params with
  | .null => cls.buildFrom []
  | .mapping entries => cls.buildFrom entries
  | found => .error (.shape cls found)

end EquipmentClass

/-- Why there is no equipment of a class. -/
inductive EquipmentError where
  | unknownClass (name : String)
  | params (name : String) (fault : ParamsFault)
  deriving Repr

namespace EquipmentError

def message : EquipmentError → String
  | unknownClass name => "unknown resource class '" ++ name ++ "'"
  | params name fault => "invalid parameters for " ++ name ++ ": " ++ fault.message

end EquipmentError

/-- Classes by the names under which they are known. -/
abbrev Catalogue : Type := SortedMap String EquipmentClass

namespace Catalogue

/-- All classes under their own names. -/
def standard : Catalogue :=
  SortedMap.ofList
    ([EquipmentClass.networkService, .rawSerialPort, .powerPort].map (fun c => (c.name, c)))

/-- The equipment of a known class. -/
def build (catalogue : Catalogue) (name : String) (params : Data) :
    Except EquipmentError Equipment :=
  match catalogue.get? name with
  | none => .error (.unknownClass name)
  | some cls =>
    match cls.build params with
    | .error fault => .error (.params name fault)
    | .ok e => .ok e

end Catalogue

end BoardFarm
