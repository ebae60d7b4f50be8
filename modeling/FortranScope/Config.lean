import FortranScope.Integer
import FortranScope.Text.Json

/-!
# Configuration

A `Config` gives the kinds that constants have where the source does not say.  It is
written as a JSON object with a member for each kind that differs from
`Config.standard`.
-/

namespace FortranScope

/-- The default kinds of the four types whose constants may be written without one. -/
structure Config where
  integerKind : Int
  realKind : Int
  logicalKind : Int
  characterKind : Int
deriving DecidableEq, Repr

namespace Config

/-- The kinds of a processor whose default numbers have four bytes. -/
def standard : Config := ⟨4, 4, 4, 1⟩

instance : Inhabited Config := ⟨standard⟩

/-- The parts of a configuration. -/
inductive Field where
  | integerKind
  | realKind
  | logicalKind
  | characterKind
deriving DecidableEq, Repr

namespace Field

/-- Every part, in the order of declaration. -/
def all : List Field := [integerKind, realKind, logicalKind, characterKind]

/-- The word for a part in the written form of a configuration. -/
def key : Field → String
  | integerKind => "default_integer_kind"
  | realKind => "default_real_kind"
  | logicalKind => "default_logical_kind"
  | characterKind => "default_character_kind"

/-- The part that a word stands for. -/
def ofKey? (key : String) : Option Field := all.find? fun field => field.key = key

end Field

/-- The kind that `config` gives for a part. -/
def get (config : Config) : Field → Int
  | .integerKind => config.integerKind
  | .realKind => config.realKind
  | .logicalKind => config.logicalKind
  | .characterKind => config.characterKind

/-- `config` with `kind` for a part. -/
def set (config : Config) (field : Field) (kind : Int) : Config :=
  match field with
  | .integerKind => { config with integerKind := kind }
  | .realKind => { config with realKind := kind }
  | .logicalKind => { config with logicalKind := kind }
  | .characterKind => { config with characterKind := kind }

/-- The kind that `value` writes: an integer without fraction and exponent that lies in the
range of kinds.  A negative zero is no integer. -/
def kindOfJson? : Json → Option Int
  | .number digits =>
    if digits = "-0" then none else Integer.ofText? .kind digits
  | _ => none

/-- `config` with the members of a JSON object set, none of the parts in `seen` or twice.
Members that are no part of a configuration are ignored. -/
def setMembers (seen : List Field) (config : Config) :
    List (Option String × Json) → Option Config
  | [] => some config
  | (none, _) :: _ => none
  | (some key, value) :: members =>
    match Field.ofKey? key with
    | none => setMembers seen config members
    | some field =>
      if field ∈ seen then none
      else
        match kindOfJson? value with
        | none => none
        | some kind => setMembers (field :: seen) (config.set field kind) members

/-- `config` with the items of a JSON array set for the given parts, in order. -/
def setItems (config : Config) : List Field → List Json → Option Config
  | _, [] => some config
  | [], _ :: _ => none
  | field :: fields, value :: items =>
    match kindOfJson? value with
    | none => none
    | some kind => setItems (config.set field kind) fields items

/-- The configuration that `value` writes: an object whose members are set over
`Config.standard`, or an array of the kinds in the order of declaration. -/
def ofJson? : Json → Option Config
  | .object members => setMembers [] standard members
  | .array items => setItems standard Field.all items
  | _ => none

/-- The configuration that the text `s` writes. -/
def ofText? (s : String) : Option Config := (Json.ofText? s).bind ofJson?

/-- A field that was set holds what it was set to. -/
@[simp]
theorem get_set (config : Config) (field : Field) (kind : Int) :
  (config.set field kind).get field = kind
  := by
  cases field <;> rfl

/-- Setting one field leaves every other field as it was. -/
theorem get_set_of_ne (config : Config) {field other : Field} (kind : Int)
    (h : other ≠ field) :
  (config.set field kind).get other = config.get other
  := by
  cases field <;> cases other <;> simp_all [get, set]

end Config

end FortranScope
