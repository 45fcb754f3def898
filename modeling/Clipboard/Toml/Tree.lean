import Clipboard.Dictionary
import Clipboard.Toml

/-!
# The tables of a TOML document

A document gives names to values line by line. A line assigns a value to a key, which may lead
through tables; a header opens a table, or one more item of an array of tables, that the lines below
it belong to.

A table comes into being by a header of its own, or because a longer header or a key leads through
it. What has come into being one way cannot be defined in another: a header opens a table once, and
only if no key leads through it; a key leads only through tables that have no header yet, and a
value is assigned below a header or by keys, but not by both. A value that was assigned is never
extended.
-/

namespace Clipboard.Toml

/-- A name and the tables it stands in, the outermost first. -/
structure Key where
  parents : List String
  name : String
  deriving DecidableEq, Repr

/-- What a name of a document stands for. -/
inductive Node where
  | value (v : Value)
  /-- A table, whether it has no header yet, and whether keys made it. -/
  | table (isImplicit isDotted : Bool) (entries : List (String × Node))
  /-- An array of tables: the items before the last, and the last. -/
  | tables (earlier : List (List (String × Node))) (last : List (String × Node))

abbrev Entries := Dictionary Node

namespace Node

/-- A change of the table at a path; it is told whether keys made the table. `byKey` says whether a
key leads there or a header. -/
def edit (byKey : Bool) (path : List String) (isDotted : Bool) (entries : Entries)
    (change : Bool → Entries → Option Entries) : Option Entries :=
  match path with
  | [] => change isDotted entries
  | name :: path =>
    match Dictionary.find? entries name with
    | none =>
      (edit byKey path byKey [] change).map
        (fun es => Dictionary.insert name (.table true byKey es) entries)
    | some (.value _) => none
    | some (.tables earlier last) =>
      (edit byKey path false last change).map
        (fun es => Dictionary.insert name (.tables earlier es) entries)
    | some (.table isImplicit dotted inner) =>
      if byKey && !isImplicit then none
      else
        (edit byKey path dotted inner change).map
          (fun es => Dictionary.insert name (.table isImplicit dotted es) entries)

/-- A value assigned to a key in a table. -/
def assign (key : Key) (node : Node) (entries : Entries) : Option Entries :=
  edit true key.parents false entries (fun isDotted es =>
    if isDotted = key.parents.isEmpty ∨ (Dictionary.find? es key.name).isSome then none
    else some (Dictionary.insert key.name node es))

def openTable (key : Key) (entries : Entries) : Option Entries :=
  edit false key.parents false entries (fun _ es =>
    match Dictionary.find? es key.name with
    | none => some (Dictionary.insert key.name (.table false false []) es)
    | some (.table true false inner) =>
      some (Dictionary.insert key.name (.table false false inner) es)
    | some _ => none)

/-- One more item of an array of tables, opened by its header. -/
def openItem (key : Key) (entries : Entries) : Option Entries :=
  edit false key.parents false entries (fun _ es =>
    match Dictionary.find? es key.name with
    | none => some (Dictionary.insert key.name (.tables [] []) es)
    | some (.tables earlier last) =>
      some (Dictionary.insert key.name (.tables (earlier ++ [last]) []) es)
    | some _ => none)

/-- The value that a node has in the end. -/
def toValue (node : Node) : Value :=
  match node with
  | .value v => v
  | .table _ _ entries => .table (entries.attach.map (fun ⟨(name, n), _⟩ => (name, toValue n)))
  | .tables earlier last =>
    .array ((earlier ++ [last]).attach.map (fun ⟨entries, _⟩ =>
      .table (entries.attach.map (fun ⟨(name, n), _⟩ => (name, toValue n)))))
decreasing_by
  · simp_wf; have := List.sizeOf_lt_of_mem ‹_›; simp at this; omega
  · simp_wf
    have h₁ := List.sizeOf_lt_of_mem ‹(name, n) ∈ entries›
    have h₂ : sizeOf entries ≤ sizeOf earlier ∨ entries = last := by
      have hm : entries ∈ earlier ++ [last] := ‹_›
      rcases List.mem_append.mp hm with hm | hm
      · exact .inl (Nat.le_of_lt (List.sizeOf_lt_of_mem hm))
      · exact .inr (by simpa using hm)
    simp at h₁
    rcases h₂ with h₂ | h₂
    · omega
    · subst h₂; omega

def valueOf (entries : Entries) : Value := toValue (.table false false entries)

end Node

/-- A line of a document that says something. -/
inductive Line where
  | assignment (key : Key) (value : Value)
  | header (key : Key)
  /-- An item of an array of tables is opened. -/
  | itemHeader (key : Key)

/-- The document so far, and the path of the table that is open. -/
structure Draft where
  entries : Entries
  current : List String

namespace Draft

def empty : Draft := { entries := [], current := [] }

def addLine (d : Draft) : Line → Option Draft
  | .assignment key v =>
    (Node.edit false d.current false d.entries (fun _ es => Node.assign key (.value v) es)).map
      (fun entries => { d with entries })
  | .header key =>
    (Node.openTable key d.entries).map
      (fun entries => { entries, current := key.parents ++ [key.name] })
  | .itemHeader key =>
    (Node.openItem key d.entries).map
      (fun entries => { entries, current := key.parents ++ [key.name] })

def ofLines? (lines : List Line) : Option Value :=
  (lines.foldlM addLine empty).map (fun d => Node.valueOf d.entries)

end Draft

end Clipboard.Toml
