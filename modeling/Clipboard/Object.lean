import Clipboard.Error
import Clipboard.Json.Reader

/-!
# Objects

Objects leave the process as bytes. An `ObjectSerializer` writes and reads them; the one that
`ObjectSerializer.json` gives does so as JSON. A reference to an object elsewhere is marshalled: it
is written as an object of a type name and a payload.
-/

namespace Clipboard

/-- Writes and reads objects. -/
structure ObjectSerializer where
  serialize : Json.Value → Except Error Bytes
  deserialize : Bytes → Except Error Json.Value

def ObjectSerializer.json : ObjectSerializer where
  serialize v := .ok (Json.toBytes v)
  deserialize bytes :=
    match Json.ofBytes bytes with
    | .ok v => .ok v
    | .error fault => .error (.serialization (.notJson fault))

/-- The marshalled form of a reference to an object. -/
structure MarshalledObject where
  typeName : String
  payload : Json.Value

namespace MarshalledObject

def toJson (m : MarshalledObject) : Json.Value :=
  .ofMembers [("type_name", .string m.typeName), ("payload", m.payload)]

/-- The reference that an object is: its two members, others not counting, or an array of the two. -/
def ofJson? : Json.Value → Option MarshalledObject
  | .object members =>
    match Dictionary.find? members "type_name", Dictionary.find? members "payload" with
    | some (.string typeName), some payload => some { typeName, payload }
    | _, _ => none
  | .array [.string typeName, payload] => some { typeName, payload }
  | _ => none

def marshal (m : MarshalledObject) (s : ObjectSerializer) : Except Error Bytes :=
  s.serialize m.toJson

def unmarshal (s : ObjectSerializer) (bytes : Bytes) : Except Error MarshalledObject :=
  match s.deserialize bytes with
  | .error e => .error e
  | .ok v =>
    match ofJson? v with
    | some m => .ok m
    | none => .error (.invalidData .notMarshalled)

/-- A reference is recovered from the object it is written as. -/
theorem ofJson?_toJson (m : MarshalledObject) : ofJson? m.toJson = some m := by
  have ht : ¬ ("payload" : String) = "type_name" := by decide
  have hlt : ("payload" : String) < "type_name" := by decide
  simp [toJson, Json.Value.ofMembers, Dictionary.ofList, Dictionary.insert, hlt, ofJson?,
    Dictionary.find?, List.lookup_cons]

end MarshalledObject

end Clipboard
