import Clipboard.Json
import Clipboard.Toml

/-!
# Documents

A configuration is written in JSON or in TOML. What counts for it is what the two have in common:
absence, truth values, integers, texts, lists and records. Anything else is never what is asked for.

A record may also be written as the list of its fields in order; in a `Dialect` it is laid down
whether there may be more items than fields, and what stands for an alternative that has no parts.
-/

namespace Clipboard

inductive Document where
  | absent
  | bool (b : Bool)
  | integer (n : Int)
  | text (s : String)
  | list (items : List Document)
  | record (fields : List (String × Document))
  | other
  deriving Repr

/-- What is left open about records. -/
structure Dialect where
  /-- Whether a list may have more items than the record has fields. -/
  ignoresMoreItems : Bool
  isNothing : Document → Bool

namespace Dialect

/-- In JSON, lists are as long as the record at most, and null is nothing. -/
def json : Dialect where
  ignoresMoreItems := false
  isNothing
    | .absent => true
    | _ => false

/-- In TOML, more items are ignored, and empty lists and tables are nothing. -/
def toml : Dialect where
  ignoresMoreItems := true
  isNothing
    | .list [] | .record [] => true
    | _ => false

end Dialect

namespace Document

def ofJson (v : Json.Value) : Document :=
  match v with
  | .null => absent
  | .bool b => bool b
  | .number (.whole n) => integer n
  | .number (.real _) => other
  | .string s => text s
  | .array items => list (items.attach.map (fun ⟨v, _⟩ => ofJson v))
  | .object members => record (members.attach.map (fun ⟨(name, v), _⟩ => (name, ofJson v)))
decreasing_by
  · simp_wf; have := List.sizeOf_lt_of_mem ‹_›; omega
  · simp_wf; have := List.sizeOf_lt_of_mem ‹_›; simp at this; omega

/-- The name under which a moment is found. -/
def momentField : String := "$__toml_private_datetime"

/-- The document of a TOML value. A moment is a record of its text alone. -/
def ofToml (v : Toml.Value) : Document :=
  match v with
  | .boolean b => bool b
  | .integer n => integer n
  | .float _ => other
  | .moment m => record [(momentField, text (String.ofList m.write))]
  | .string s => text s
  | .array items => list (items.attach.map (fun ⟨v, _⟩ => ofToml v))
  | .table entries => record (entries.attach.map (fun ⟨(name, v), _⟩ => (name, ofToml v)))
decreasing_by
  · simp_wf; have := List.sizeOf_lt_of_mem ‹_›; omega
  · simp_wf; have := List.sizeOf_lt_of_mem ‹_›; simp at this; omega

/-! ## Reading -/

def bool? : Document → Option Bool
  | bool b => some b
  | _ => none

def text? : Document → Option String
  | text s => some s
  | _ => none

def integerIn? (low high : Int) : Document → Option Int
  | integer n => if low ≤ n && n ≤ high then some n else none
  | _ => none

/-- The items of a list, all of one sort. -/
def list? {α : Type} (item : Document → Option α) : Document → Option (List α)
  | list items => items.mapM item
  | _ => none

def nullable? {α : Type} (read : Document → Option α) : Document → Option (Option α)
  | absent => some none
  | d => (read d).map some

/-- The fields of a record with the names given. -/
def fields? (dialect : Dialect) (names : List String) : Document →
    Option (List (String × Document))
  | record fields => some fields
  | list items =>
    if items.length ≤ names.length || dialect.ignoresMoreItems then some (names.zip items) else none
  | _ => none

def required? {α : Type} (fields : List (String × Document)) (name : String)
    (read : Document → Option α) : Option α :=
  (fields.lookup name).bind read

def optional? {α : Type} (fields : List (String × Document)) (name : String)
    (read : Document → Option α) (default : α) : Option α :=
  match fields.lookup name with
  | none => some default
  | some d => read d

end Document

end Clipboard
