import Clipboard.Object
import Clipboard.Proofs.Json.Value

/-!
# Objects that are marshalled

A marshalled object is an object of two members, so its payload stands one level deeper in it than in a
text of its own. A payload that the serializer keeps is kept by marshalling too, unless it is nested as
deeply as the reader takes at all (`unmarshal_marshal`).
-/

namespace Clipboard

open Json (Value ReadAs MembersReadAs depthLimit)

/-- A value is written and read back as it was. -/
def ObjectSerializer.Keeps (s : ObjectSerializer) (v : Value) : Prop :=
  ∃ bytes, s.serialize v = .ok bytes ∧ s.deserialize bytes = .ok v

theorem ObjectSerializer.json_deserialize_toBytes {v w : Value} {ts : List Json.Token}
    (h : ReadAs v w ts) :
    json.deserialize (Json.toBytes v)
      = if v.depth ≤ depthLimit then .ok w else .error (.serialization (.notJson .tooDeep)) := by
  simp only [json, h.ofBytes_toBytes]
  by_cases hdepth : v.depth ≤ depthLimit
  · simp only [if_pos hdepth]
  · simp only [if_neg hdepth]

theorem ObjectSerializer.ofBytes_of_json_keeps {v : Value} (h : json.Keeps v) :
    Json.ofBytes (Json.toBytes v) = .ok v := by
  obtain ⟨bytes, hbytes, hv⟩ := h
  cases hbytes
  simp only [json] at hv
  split at hv
  · next w hw =>
    cases hv
    exact hw
  · cases hv

namespace MarshalledObject

variable {m : MarshalledObject}

/-- The two members in the order of their names. -/
theorem toJson_eq (m : MarshalledObject) :
    m.toJson = .object [("payload", m.payload), ("type_name", .string m.typeName)] := by
  have hlt : ("payload" : String) < "type_name" := by decide
  simp [toJson, Value.ofMembers, Dictionary.ofList, Dictionary.insert, hlt]

theorem depth_toJson (m : MarshalledObject) : m.toJson.depth = m.payload.depth + 1 := by
  rw [toJson_eq, Value.depth, Json.membersDepth, Json.membersDepth, Json.membersDepth, Value.depth]
  omega

theorem exists_readAs_toJson {ts : List Json.Token} (h : ReadAs m.payload m.payload ts) :
    ∃ us, ReadAs m.toJson m.toJson us := by
  have hmembers : Dictionary.ofList [("payload", m.payload), ("type_name", .string m.typeName)]
      = [("payload", m.payload), ("type_name", .string m.typeName)] := by
    have hlt : ¬("type_name" : String) < "payload" := by decide
    have hne : ("type_name" : String) ≠ "payload" := by decide
    simp [Dictionary.ofList, Dictionary.insert, hlt, hne]
  have hread := Json.readAs_object_cons "payload" h
    (MembersReadAs.cons "type_name" (Json.readAs_string m.typeName) .nil)
  rw [hmembers, ← toJson_eq] at hread
  exact ⟨_, hread⟩

/-- What is written is read back if there is room for one level more than the payload has. -/
theorem unmarshal_toBytes {ts : List Json.Token} (h : ReadAs m.payload m.payload ts) :
    unmarshal .json (Json.toBytes m.toJson)
      = if m.payload.depth < depthLimit then .ok m
        else .error (.serialization (.notJson .tooDeep)) := by
  obtain ⟨us, hm⟩ := exists_readAs_toJson h
  rw [unmarshal, ObjectSerializer.json_deserialize_toBytes hm, depth_toJson]
  by_cases hdepth : m.payload.depth + 1 ≤ depthLimit
  · rw [if_pos hdepth, if_pos (Nat.lt_of_succ_le hdepth)]
    simp only [ofJson?_toJson]
  · rw [if_neg hdepth, if_neg (show ¬m.payload.depth < depthLimit from hdepth)]

/-- **A payload that the serializer keeps is kept by marshalling**, under any type name, as long as the
object around it is one the reader takes. -/
theorem unmarshal_marshal (m : MarshalledObject) (h : ObjectSerializer.json.Keeps m.payload) :
    ∃ bytes, m.marshal .json = .ok bytes ∧
      unmarshal .json bytes
        = if m.payload.depth < depthLimit then .ok m
          else .error (.serialization (.notJson .tooDeep)) := by
  obtain ⟨⟨ts, hpayload⟩, -⟩ := Json.readAs_of_ofBytes (ObjectSerializer.ofBytes_of_json_keeps h)
  exact ⟨_, rfl, unmarshal_toBytes hpayload⟩

/-- Arrays in arrays, and null in the innermost. -/
def nested : Nat → Value
  | 0 => .null
  | n + 1 => .array [nested n]

theorem depth_nested (n : Nat) : (nested n).depth = n := by
  induction n with
  | zero => rfl
  | succ n ih => rw [nested, Value.depth, Json.itemsDepth, Json.itemsDepth, ih, Nat.max_zero]

theorem exists_readAs_nested (n : Nat) : ∃ ts, ReadAs (nested n) (nested n) ts := by
  induction n with
  | zero => exact ⟨_, Json.readAs_null⟩
  | succ n ih =>
    obtain ⟨ts, h⟩ := ih
    exact ⟨_, Json.readAs_array_cons h .nil⟩

theorem json_keeps_nested {n : Nat} (h : n ≤ depthLimit) : ObjectSerializer.json.Keeps (nested n) := by
  obtain ⟨ts, hread⟩ := exists_readAs_nested n
  refine ⟨_, rfl, ?_⟩
  rw [ObjectSerializer.json_deserialize_toBytes hread, depth_nested, if_pos h]

/-- The deepest payload that is kept. -/
theorem unmarshal_marshal_nested :
    ObjectSerializer.json.Keeps (nested 126) ∧
    ∃ bytes, marshal ⟨"Point", nested 126⟩ .json = .ok bytes ∧
      unmarshal .json bytes = .ok ⟨"Point", nested 126⟩ := by
  have hkeeps : ObjectSerializer.json.Keeps (nested 126) := json_keeps_nested (by decide)
  have h := unmarshal_marshal ⟨"Point", nested 126⟩ hkeeps
  rw [if_pos (by rw [depth_nested]; decide)] at h
  exact ⟨hkeeps, h⟩

/-- One level more, and the serializer still keeps the payload, but not within the object. -/
theorem not_unmarshal_marshal_nested :
    ObjectSerializer.json.Keeps (nested 127) ∧
    ∃ bytes, marshal ⟨"Point", nested 127⟩ .json = .ok bytes ∧
      unmarshal .json bytes = .error (.serialization (.notJson .tooDeep)) := by
  obtain ⟨ts, hread⟩ := exists_readAs_nested 127
  have h := unmarshal_toBytes (m := ⟨"Point", nested 127⟩) hread
  rw [if_neg (by rw [depth_nested]; decide)] at h
  exact ⟨json_keeps_nested (Nat.le_refl _), _, rfl, h⟩

end MarshalledObject

end Clipboard
