import Clipboard.Toml.Scalar
import Clipboard.Toml.Text
import Clipboard.Toml.Tree

/-!
# Reading TOML

A value is a string, an array, an inline table or a scalar. Arrays may be spread over several lines
and end in a comma, inline tables not. `depthLimit` bounds how deep values and keys go.
-/

namespace Clipboard.Toml

/-- Arrays and inline tables inside one another, and the names of a key, are fewer than this. -/
def depthLimit : Nat := 80

/-- A character of a name without quotes. -/
def isBare (c : Char) : Bool := c.isAlphanum || c = '_' || c = '-'

def name : Scan String := fun cs => do
  let cs := skipBlanks cs
  let (name, rest) ← (Text.short cs).or
    (let (bare, rest) := cs.span isBare
     if bare.isEmpty then none else some (String.ofList bare, rest))
  return (name, skipBlanks rest)

def key : Scan Key := fun cs => do
  let (first, rest) ← name cs
  let (others, rest) := Scan.many (fun cs => do
    let ((), cs) ← Scan.char '.' cs
    name cs) rest
  let names := first :: others
  if names.length < depthLimit then
    return ({ parents := names.dropLast, name := names.getLast (by simp [names]) }, rest)
  else none

/-- A key, the sign behind it and a value. -/
def assignment (value : Scan Value) : Scan (Key × Value) := fun cs => do
  let (key, rest) ← key cs
  let ((), rest) ← Scan.char '=' rest
  let (v, rest) ← value (skipBlanks rest)
  return ((key, v), rest)

/-- An item, and what may stand around it. -/
def item (value : Scan Value) : Scan Value := fun cs => do
  let (v, rest) ← value (skipFiller cs)
  return (v, skipFiller rest)

def separated {α : Type} (item : Scan α) : Scan (List α) := fun cs =>
  match item cs with
  | none => some ([], cs)
  | some (first, rest) =>
    let (others, rest) := Scan.many (fun cs => do
      let ((), cs) ← Scan.char ',' cs
      item cs) rest
    some (first :: others, rest)

/-- The rest of an array. -/
def array (value : Scan Value) : Scan Value := fun cs => do
  let (items, rest) ← separated (item value) cs
  let rest := match items, rest with
    | _ :: _, ',' :: rest => rest
    | _, rest => rest
  let ((), rest) ← Scan.char ']' (skipFiller rest)
  return (.array items, rest)

/-- The rest of an inline table. -/
def inlineTable (value : Scan Value) : Scan Value := fun cs => do
  let spaced : Scan (Key × Value) := fun cs => do
    let (p, rest) ← assignment value cs
    return (p, skipBlanks rest)
  let (pairs, rest) ← separated spaced cs
  let ((), rest) ← Scan.char '\x7d' (skipBlanks rest)
  let entries ← pairs.foldlM (fun es (key, v) => Node.assign key (.value v) es) []
  return (Node.valueOf entries, rest)

/-- A value with at most so many arrays and inline tables inside one another. -/
def value : (depth : Nat) → Scan Value
  | depth + 1, '[' :: rest => array (value depth) rest
  | depth + 1, '\x7b' :: rest => inlineTable (value depth) rest
  | _, cs => ((Text.string cs).map (fun (s, rest) => (.string s, rest))).or (Scalar.scan cs)

/-- A header of a table, or of an item of an array of tables. -/
def header : Scan Line := fun cs =>
  match cs with
  | '[' :: '[' :: rest => do
    let (key, rest) ← key rest
    let ((), rest) ← Scan.char ']' rest
    let ((), rest) ← Scan.char ']' rest
    return (.itemHeader key, rest)
  | '[' :: rest => do
    let (key, rest) ← key rest
    let ((), rest) ← Scan.char ']' rest
    return (.header key, rest)
  | _ => none

/-- A line, and its end; a line may say nothing, but there is no line at the end of the text. -/
def line : Scan (Option Line) := fun cs => do
  if cs.isEmpty then failure
  let cs := skipBlanks cs
  match lineEnd cs with
  | some ((), rest) => return (none, rest)
  | none =>
    let (l, rest) ← (header cs).or
      ((assignment (value (depthLimit - 1)) cs).map
        (fun ((key, v), rest) => (Line.assignment key v, rest)))
    let ((), rest) ← lineEnd rest
    return (some l, rest)

/-- The text behind a byte order mark. -/
def skipMark : List Char → List Char
  | '\ufeff' :: rest => rest
  | cs => cs

def document? (cs : List Char) : Option Value :=
  match Scan.many line (skipMark cs) with
  | (lines, []) => Draft.ofLines? (lines.filterMap id)
  | _ => none

end Clipboard.Toml
