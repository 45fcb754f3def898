import Clipboard.Charset
import Clipboard.Dictionary
import Clipboard.Format
import Clipboard.Text.Blank
import Clipboard.Text.Number
import Clipboard.Text.Quoted

/-!
# Configurations

A configuration describes a table of formats: the formats in the order of preference, each with the
flavors that are mapped to it. It is what somebody wrote and need not make sense; `Config/Validation`
says when it does.
-/

namespace Clipboard

/-- The number of zero bytes behind a text, as a number or as the text of one. -/
inductive TerminatorCount where
  | count (n : Int)
  | text (s : String)
  deriving DecidableEq, Repr

/-- A number of zero bytes that is negative or no number, as it is shown. -/
structure InvalidTerminators where
  shown : String
  deriving DecidableEq, Repr

namespace InvalidTerminators

def message (e : InvalidTerminators) : String :=
  "invalid terminator count: " ++ Text.quoted e.shown

end InvalidTerminators

namespace TerminatorCount

def ofInt (n : Int) : Except InvalidTerminators Nat :=
  if 0 ≤ n then .ok n.toNat else .error ⟨toString n⟩

/-- The number meant; a blank text means none. -/
def resolve : TerminatorCount → Except InvalidTerminators Nat
  | count n => ofInt n
  | text s =>
    let digits := Text.trim s.toList
    if digits.isEmpty then .ok 0
    else
      match Text.signedWord? digits with
      | none => .error ⟨s⟩
      | some n => ofInt n

end TerminatorCount

/-- What is said of the text of a format. -/
structure TextEntry where
  charset : Option String
  eoln : Option String
  /-- The number of zero bytes behind the text. -/
  terminators : Option TerminatorCount
  deriving DecidableEq, Repr

/-- What is said of a format. -/
structure FormatEntry where
  id : FormatId
  name : String
  kind : FormatKind
  /-- Whether the source of the data names the charset. -/
  localeDependent : Bool
  /-- The flavors mapped to the format, the preferred one first. -/
  flavors : List String
  /-- What is said of its text, if it is a text format. -/
  text : Option TextEntry
  deriving DecidableEq, Repr

structure Config where
  defaultCharset : String
  /-- Whether all the flavors of a text are mapped to a text format, not only those listed. -/
  expandTextFlavors : Bool
  properties : Dictionary String
  formats : List FormatEntry
  deriving DecidableEq, Repr

namespace Config

/-- What holds where nothing is said. -/
def default : Config :=
  { defaultCharset := Charset.defaultName, expandTextFlavors := true, properties := [], formats := [] }

end Config

end Clipboard
