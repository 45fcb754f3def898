import Clipboard.Json.Token
import Clipboard.Utf8

/-!
# Reading JSON

A value is read token by token. The reader's state is what may come next, and the arrays and
objects that are open, the innermost first. `depthLimit` says how many of them there may be.

Of two members of one name the later counts.
-/

namespace Clipboard.Json

/-- As many arrays and objects can stand inside one another. -/
def depthLimit : Nat := 127

/-- An array or object that is open, its next value being awaited. -/
inductive Frame where
  /-- The items of an array so far, the latest first. -/
  | array (items : List Value)
  /-- The members of an object so far, and the name of the value awaited. -/
  | object (members : Dictionary Value) (name : String)

/-- What may come next. -/
inductive Reader where
  | value (frames : List Frame)
  /-- A value, or the end of the array just opened. -/
  | firstItem (frames : List Frame)
  /-- A comma or the end of the array. -/
  | afterItem (items : List Value) (frames : List Frame)
  /-- A name, or the end of the object just opened. -/
  | firstName (frames : List Frame)
  | nextName (members : Dictionary Value) (frames : List Frame)
  | colon (members : Dictionary Value) (name : String) (frames : List Frame)
  /-- A comma or the end of the object. -/
  | afterMember (members : Dictionary Value) (frames : List Frame)
  | done (v : Value)

namespace Reader

/-- A value is complete. -/
def receive (v : Value) : List Frame → Reader
  | [] => .done v
  | .array items :: frames => .afterItem (v :: items) frames
  | .object members name :: frames => .afterMember (Dictionary.insert name v members) frames

def beginValue (frames : List Frame) (t : Token) : Except Fault Reader :=
  match t with
  | .scalar v => .ok (receive v frames)
  | .string s => .ok (receive (.string s) frames)
  | .openArray => if frames.length < depthLimit then .ok (.firstItem frames) else .error .tooDeep
  | .openObject => if frames.length < depthLimit then .ok (.firstName frames) else .error .tooDeep
  | .closeArray | .closeObject | .comma | .colon => .error .unexpected

def step (r : Reader) (t : Token) : Except Fault Reader :=
  match r, t with
  | .value frames, t => beginValue frames t
  | .firstItem frames, .closeArray => .ok (receive (.array []) frames)
  | .firstItem frames, t => beginValue (.array [] :: frames) t
  | .afterItem items frames, .comma => .ok (.value (.array items :: frames))
  | .afterItem items frames, .closeArray => .ok (receive (.array items.reverse) frames)
  | .firstName frames, .closeObject => .ok (receive (.object []) frames)
  | .firstName frames, .string name => .ok (.colon [] name frames)
  | .nextName members frames, .string name => .ok (.colon members name frames)
  | .colon members name frames, .colon => .ok (.value (.object members name :: frames))
  | .afterMember members frames, .comma => .ok (.nextName members frames)
  | .afterMember members frames, .closeObject => .ok (receive (.object members) frames)
  | _, _ => .error .unexpected

def run (r : Reader) : List Token → Except Fault Reader
  | [] => .ok r
  | t :: ts =>
    match r.step t with
    | .error fault => .error fault
    | .ok r => r.run ts

end Reader

def ofTokens (ts : List Token) : Except Fault Value :=
  match (Reader.value []).run ts with
  | .error fault => .error fault
  | .ok (.done v) => .ok v
  | .ok _ => .error .unexpectedEnd

def ofChars (cs : List Char) : Except Fault Value :=
  match Token.all cs with
  | .error fault => .error fault
  | .ok ts => ofTokens ts

def ofBytes (bytes : Bytes) : Except Fault Value :=
  match Utf8.decode? bytes with
  | none => .error .notUtf8
  | some cs => ofChars cs

end Clipboard.Json
