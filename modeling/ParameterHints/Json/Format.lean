import ParameterHints.Json.Printer
import ParameterHints.Json.Reader

/-! # Formats

A format says how the values of a type are written as JSON, and reads them back. A record is a list
of fields, each of which changes its part of a record and shows it again; a choice is a list of
variants.
-/

namespace ParameterHints.Json

/-- How the values of a type are written and read. -/
structure Format (α : Type) where
  read : Reader α
  write : α → Json

/-- When a field of a record may be left out. -/
inductive Presence where
  /-- Never. -/
  | required
  /-- When the record is written as an object. -/
  | byName
  /-- Always; in a list, only behind the last field that is there. -/
  | free
  deriving DecidableEq

namespace Presence

/-- Whether a field may be left out of a record that was written in some form. -/
def mayMiss : Presence → Reader.RecordForm → Bool
  | required, _ | byName, .list => false
  | byName, .object | free, _ => true

end Presence

structure RecordField (σ : Type) where
  name : String
  presence : Presence
  /-- Reads a value and answers the change that it makes to a record. -/
  read : Reader (σ → σ)
  /-- The value in a record, unless it is not written. -/
  write : σ → Option Json

/-- One of several variants of a type. -/
inductive Variant (α : Type) where
  /-- A name alone. -/
  | bare (name : String) (value : α)
  /-- A name with a content. -/
  | holding (name : String) (read : Reader α)

namespace Variant

def name {α : Type} : Variant α → String
  | bare name _ | holding name _ => name

end Variant

namespace Format

def readText {α : Type} (f : Format α) (s : String) : Except JsonError α :=
  Reader.readAll f.read s.toList

def boolean : Format Bool := ⟨Reader.boolean, .boolean⟩

def text : Format String := ⟨Reader.text, .text⟩

def unsigned32 : Format Nat := ⟨Reader.unsigned32, .number⟩

def optional {α : Type} (f : Format α) : Format (Option α) where
  read := Reader.optional f.read
  write
    | some value => f.write value
    | none => .null

def list {α : Type} (f : Format α) : Format (List α) where
  read := Reader.list f.read
  write values := .list (values.map f.write)

def array {α : Type} (f : Format α) : Format (Array α) where
  read := Reader.mapped List.toArray (Reader.list f.read)
  write values := .list (values.toList.map f.write)

/-- Objects whose keys are free, in ascending order. -/
def dictionary {α : Type} (f : Format α) : Format (List (String × α)) where
  read := Reader.dictionary f.read
  write entries := .object (entries.map fun (key, value) => (key, f.write value))

/-! ## Records -/

/-- The record that the changes of its fields make of a blank one. -/
def assemble {σ : Type} (expected : String) (blank : σ) (fields : List (RecordField σ))
    (form : Reader.RecordForm) (changes : List (String × (σ → σ))) : Except JsonError σ :=
  let isMissing := fun field : RecordField σ =>
    !field.presence.mayMiss form && !changes.any (·.1 == field.name)
  match fields.find? isMissing, form with
  | none, _ => .ok (changes.foldl (fun value (_, change) => change value) blank)
  | some field, .object => .error (.missingField field.name)
  | some _, .list => .error (.tooShort changes.length expected)

def record {σ : Type} (expected : String) (blank : σ) (fields : List (RecordField σ)) :
    Format σ where
  read s := do
    let ((form, changes), rest) ←
      Reader.record expected (fields.map fun field => ⟨field.name, field.read⟩) s
    return (← assemble expected blank fields form changes, rest)
  write value := .object (fields.filterMap fun field => (field.write value).map (field.name, ·))

/-! ## Choices -/

def ofName {α : Type} (variants : List (Variant α)) (name : String) : Except JsonError α :=
  match variants.find? (·.name == name) with
  | some (.bare _ value) => .ok value
  | some (.holding _ _) => .error (.wrongType .bareVariant "a variant with its content")
  | none => .error (.unknownVariant name)

/-- The name of a variant behind an opening brace. Anything else than a text is out of place. -/
def variantName : Reader String := fun s =>
  match skipSpaces s with
  | [] => .error (.ended .object)
  | '"' :: s => do
      let (name, rest) ← quotedRest s
      return (String.ofList name, rest)
  | _ => .error (.malformed .keyNotText)

/-- The variant behind an opening brace, up to its closing brace. -/
def ofMember {α : Type} (variants : List (Variant α)) : Reader α := fun s => do
  let (name, s) ← variantName s
  match variants.find? (·.name == name) with
  | none => throw (.unknownVariant name)
  | some variant =>
      let s ← colon s
      let (value, s) ←
        match variant with
        | .bare _ value => Reader.mapped (fun _ => value) Reader.nothing s
        | .holding _ read => read s
      match skipSpaces s with
      | [] => throw (.ended .object)
      | '\x7d' :: rest => return (value, rest)
      | _ => throw (.malformed .expectedValue)

/-- A choice of variants: the name of one, or an object with its name and its content. -/
def choice {α : Type} (variants : List (Variant α)) (write : α → Json) : Format α where
  read s :=
    match skipSpaces s with
    | [] => .error (.ended .value)
    | '\x7b' :: s => ofMember variants s
    | '"' :: s => do
        let (name, rest) ← quotedRest s
        return (← ofName variants (String.ofList name), rest)
    | _ => .error (.malformed .expectedValue)
  write := write

end Format

namespace RecordField

def of {α σ : Type} (presence : Presence) (name : String) (f : Format α) (get : σ → α)
    (set : σ → α → σ) : RecordField σ where
  name := name
  presence := presence
  read := Reader.mapped (fun value record => set record value) f.read
  write record := some (f.write (get record))

def required {α σ : Type} (name : String) (f : Format α) (get : σ → α) (set : σ → α → σ) :
    RecordField σ := of .required name f get set

def free {α σ : Type} (name : String) (f : Format α) (get : σ → α) (set : σ → α → σ) :
    RecordField σ := of .free name f get set

def missable {α σ : Type} (name : String) (f : Format α) (get : σ → Option α)
    (set : σ → Option α → σ) : RecordField σ := of .byName name f.optional get set

end RecordField

end ParameterHints.Json
