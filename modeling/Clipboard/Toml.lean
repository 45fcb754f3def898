import Clipboard.Toml.Moment

/-!
# TOML values

A document is a table: names with their values, in ascending order of the names.
-/

namespace Clipboard.Toml

inductive Value where
  | string (s : String)
  | integer (n : Int)
  | float (numeral : String)
  | boolean (b : Bool)
  | moment (m : Moment)
  | array (items : List Value)
  | table (entries : List (String × Value))
  deriving Repr

end Clipboard.Toml
