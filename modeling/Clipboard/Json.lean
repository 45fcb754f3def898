import Clipboard.Binary64
import Clipboard.Dictionary

/-!
# JSON values

A number is whole or not; `1` and `1.0` are two values. The members of an object are a dictionary.
-/

namespace Clipboard.Json

inductive Number where
  /-- A whole number from `-2 ^ 63` to `2 ^ 64 - 1`. -/
  | whole (n : Int)
  | real (x : Binary64)
  deriving DecidableEq, Repr

inductive Value where
  | null
  | bool (b : Bool)
  | number (n : Number)
  | string (s : String)
  | array (items : List Value)
  | object (members : List (String × Value))
  deriving Repr

instance : Inhabited Value := ⟨.null⟩

namespace Value

def ofNat (n : Nat) : Value := .number (.whole n)

def ofInt (n : Int) : Value := .number (.whole n)

/-- An object with the members given, of which the later ones count. -/
def ofMembers (members : List (String × Value)) : Value := .object (Dictionary.ofList members)

def member? (v : Value) (name : String) : Option Value :=
  match v with
  | .object members => Dictionary.find? members name
  | _ => none

/-- The member of an object, unless it is null. -/
def present? (v : Value) (name : String) : Option Value :=
  match v.member? name with
  | some .null => none
  | found => found

end Value

end Clipboard.Json
