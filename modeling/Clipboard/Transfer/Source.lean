import Clipboard.Flavor.Standard
import Clipboard.Host
import Clipboard.Transfer.Value

/-!
# Sources of data

A source offers values in some flavors, the preferred one first. Asked for a flavor it answers with
a value, or that it has no data, or it fails; it may also break off, which is not an error that is
passed on but a failure of the source's own code. A source may bring the read permission that its
own context is limited to.
-/

namespace Clipboard

/-- How something ends that does not succeed. -/
inductive Failure where
  | error (e : Error)
  | breakdown
  deriving Repr

/-- A source of values. -/
structure Source where
  flavors : List Flavor
  /-- The value in a flavor; nothing if the source has no data. -/
  data : Flavor → Except Failure (Option TransferValue)
  /-- The permission that the source is limited to. -/
  permission : Option ReadPermission

namespace Source

def isOffered (s : Source) (f : Flavor) : Bool := f ∈ s.flavors

/-- A text, offered as a string and as plain text; the latter is answered with a character stream. -/
def ofText (text : List Char) : Source where
  flavors := [Flavor.string, Flavor.plainText]
  data f :=
    if f = Flavor.string then .ok (some (.string text))
    else if f = Flavor.plainText then .ok (some (.reader (.ofBytes (Utf8.encode text))))
    else .error (.error (.unsupportedConversion (.notOffered f)))
  permission := none

end Source

end Clipboard
