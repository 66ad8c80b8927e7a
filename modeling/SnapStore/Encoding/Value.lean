/-!
# Structured values

Snapshots are exchanged as structured values: `SnapStore.Value`, the data model of JSON.
Numbers are whole numbers; that a number is not whole is all that is kept of any other.
The fields of an object have no order, and no name occurs twice.

Reading a value of some type can fail (`SnapStore.Value.Fault`), and the functions here
read the shapes that all types are built from.

* A **record** is an object with its fields; unknown fields are passed over. It may also be
  an array of all fields in their order, which `SnapStore.Value.Row` reads item by item.
* A **variant** is its name, or an object with that one field
  (`SnapStore.Value.variant`).

When more than one part is wrong the fault of the first counts. The fields of an object are
looked at in the order of their names, missing ones last; the items of an array in theirs.
-/

namespace SnapStore

/-- A structured value. -/
inductive Value
  /-- The value that says there is none. -/
  | null
  /-- A truth value. -/
  | bool (b : Bool)
  /-- A whole number. -/
  | number (n : Int)
  /-- A number that is not whole, or not written as one. -/
  | fraction
  /-- A text. -/
  | string (s : String)
  /-- Values in a row. -/
  | array (items : List Value)
  /-- Values by name. -/
  | object (fields : List (String × Value))
  deriving Inhabited

namespace Value

/-- Why a value cannot be read. -/
inductive Fault
  /-- It is not of the shape that is asked for. -/
  | shape
  /-- A segment of a relative path is `.` or `..`. -/
  | dottedSegment
  deriving DecidableEq

/-- The wording of a fault, for the faults that have one of their own. -/
def Fault.message? : Fault → Option String
  | shape => none
  | dottedSegment => some "Path segment cannot contain '..'"

/-- A result of reading. -/
abbrev Decoded := Except Fault

/-! ### Plain values -/

/-- Reads a truth value. -/
def toBool : Value → Decoded Bool
  | bool b => .ok b
  | _ => .error .shape

/-- Reads a text. -/
def toText : Value → Decoded String
  | string s => .ok s
  | _ => .error .shape

/-- Reads a whole number from zero up to, but without, `bound`. -/
def toNat (bound : Nat) : Value → Decoded Nat
  | number n => if 0 ≤ n ∧ n < bound then .ok n.toNat else .error .shape
  | _ => .error .shape

/-- Reads each of the items. -/
def readAll {α : Type} (read : Value → Decoded α) : List Value → Decoded (List α)
  | [] => .ok []
  | v :: vs => do
    let a ← read v
    let as ← readAll read vs
    return a :: as

/-- Reads an array of any length. -/
def toList {α : Type} (read : Value → Decoded α) : Value → Decoded (List α)
  | array items => readAll read items
  | _ => .error .shape

/-- Reads a value that may be absent. -/
def toOption {α : Type} (read : Value → Decoded α) : Value → Decoded (Option α)
  | null => .ok none
  | v => (read v).map some

/-! ### Records -/

/-- Reads the field called `name`, if the object has it. -/
def field {α : Type} (fields : List (String × Value)) (name : String)
    (read : Value → Decoded α) : Decoded (Option α) :=
  match fields.lookup name with
  | none => .ok none
  | some v => (read v).map some

/-- A field that must not be missing. -/
def require {α : Type} : Option α → Decoded α
  | some a => .ok a
  | none => .error .shape

/-- Reading item by item. -/
abbrev Row := StateT (List Value) Decoded

/-- Reads the next item. -/
def item {α : Type} (read : Value → Decoded α) : Row α := fun items =>
  match items with
  | [] => .error .shape
  | v :: rest => (read v).map (·, rest)

/-- Reads a record from an array, which must hold nothing else. -/
def readRow {α : Type} (row : Row α) (items : List Value) : Decoded α :=
  match row items with
  | .error fault => .error fault
  | .ok (a, []) => .ok a
  | .ok (_, _ :: _) => .error .shape

/-! ### Variants -/

/-- The name of a variant and what comes with it. -/
def variant : Value → Decoded (String × Option Value)
  | string s => .ok (s, none)
  | object [(name, v)] => .ok (name, some v)
  | _ => .error .shape

/-- Reads a variant that nothing comes with. -/
def alone {α : Type} (a : α) : Option Value → Decoded α
  | none => .ok a
  | some null => .ok a
  | _ => .error .shape

/-- Reads what comes with a variant. -/
def carried {α : Type} (read : Value → Decoded α) : Option Value → Decoded α
  | some v => read v
  | none => .error .shape

/-- Reads the fields that come with a variant. -/
def carriedFields {α : Type} (read : List (String × Value) → Decoded α) :
    Option Value → Decoded α
  | some (object fields) => read fields
  | _ => .error .shape

end Value

end SnapStore
