/-!
# What can be wrong with a JSON text
-/

namespace Clipboard.Json

/-- Why a text is not read. -/
inductive Fault where
  | unexpectedEnd
  | unexpected
  /-- A string holds a control character, an unknown escape or half a pair. -/
  | invalidString
  | invalidNumber
  | numberOutOfRange
  /-- Too many arrays and objects stand inside one another. -/
  | tooDeep
  | notUtf8
  deriving DecidableEq, Repr

def Fault.message : Fault → String
  | .unexpectedEnd => "unexpected end of input"
  | .unexpected => "unexpected input"
  | .invalidString => "invalid string"
  | .invalidNumber => "invalid number"
  | .numberOutOfRange => "number out of range"
  | .tooDeep => "recursion limit exceeded"
  | .notUtf8 => "invalid unicode code point"

end Clipboard.Json
