import Clipboard.FormatTable
import Clipboard.Ranking

/-!
# Negotiation

Given the flavors that a source offers, in its order of preference, `formatsForFlavors` finds the
formats that can be exported, the flavor that each is to be made from, and the preference of each.
A format is made from the first flavor that is mapped to it, but plain text and the string flavor
come before all others. The preferences fall from flavor to flavor and, for one flavor, from format
to format.

Given the formats that are offered, `flavorsForFormats` finds the flavors that can be imported and
the format that each is to be read from: the first of the flavor's own formats that is offered and
leads back to it, and if there is none, the last format offered that leads to it.

Flavors that no value can be converted to or from are left out.
-/

namespace Clipboard

/-- A format, the flavor to make it from, and the preference. -/
structure Candidate where
  format : FormatId
  flavor : Flavor
  index : Int
  deriving DecidableEq, Repr

/-- The formats that a source can be exported as, the best first. -/
abbrev RankedFormats := List Candidate

namespace RankedFormats

def entry? (ranked : RankedFormats) (id : FormatId) : Option Candidate :=
  ranked.find? (fun c => c.format = id)

/-- The flavor to make a format from. -/
def get? (ranked : RankedFormats) (id : FormatId) : Option Flavor :=
  (ranked.entry? id).map Candidate.flavor

def indexOf? (ranked : RankedFormats) (id : FormatId) : Option Int :=
  (ranked.entry? id).map Candidate.index

def formats (ranked : RankedFormats) : List FormatId := ranked.map Candidate.format

end RankedFormats

namespace Negotiation

/-- Whether values of a flavor can be converted at all. -/
def isConvertible (f : Flavor) : Memoized Bool := do
  let text ← TextClassifier.isText f
  return text || f.isFileList || f.isImage || f.representation.isSerializable
    || f.representation = .stream || f.representation = .remote

/-! ## Export -/

/-- Whether a flavor comes before all others: plain text in any representation, and the string
flavor. -/
def isPromoted (f : Flavor) : Bool := f.isPlainText || f = Flavor.string

/-- What formats are bound to, in any order. -/
abbrev Bindings (α : Type) := List (FormatId × α)

namespace Bindings

variable {α : Type}

def get? (b : Bindings α) (id : FormatId) : Option α := b.lookup id

/-- A format bound, whatever it was bound to before. -/
def insert (b : Bindings α) (id : FormatId) (a : α) : Bindings α :=
  (id, a) :: b.filter (fun p => p.1 ≠ id)

/-- Bindings with others in place of them. -/
def extend (b others : Bindings α) : Bindings α := others.foldl (fun b p => b.insert p.1 p.2) b

end Bindings

/-- What is known of the formats while the flavors are gone through, from the last to the first. -/
structure Tally where
  /-- The next preference to give, while the formats of a flavor are gone through. -/
  counter : Int
  flavors : Bindings Flavor
  indices : Bindings Int
  promotedFlavors : Bindings Flavor
  /-- The preference of each format that has such a flavor. -/
  promotedIndices : Bindings Int
  deriving Repr

namespace Tally

def empty : Tally :=
  { counter := 0, flavors := [], indices := [], promotedFlavors := [], promotedIndices := [] }

def raise (y : Tally) (n : Nat) : Tally := { y with counter := y.counter + n }

/-- One format of a flavor: it takes the counter for its preference, and the counter falls. -/
def count (y : Tally) (f : Flavor) (id : FormatId) : Tally :=
  { counter := y.counter - 1
    flavors := y.flavors.insert id f
    indices := y.indices.insert id y.counter
    promotedFlavors := if isPromoted f then y.promotedFlavors.insert id f else y.promotedFlavors
    promotedIndices :=
      if isPromoted f then y.promotedIndices.insert id y.counter else y.promotedIndices }

/-- The formats of a flavor, the preferred one first. The counter is raised by their number before,
so that their preferences are above all others, and after, as it has fallen by as much. -/
def enter (y : Tally) (f : Flavor) (ids : List FormatId) : Tally :=
  (ids.foldl (fun y id => y.count f id) (y.raise ids.length)).raise ids.length

/-- The entries by the preferences given, the best first. -/
def sortBy (indices : Bindings Int) (entries : Bindings Flavor) : RankedFormats :=
  let order : IndexOrder := { indices, selection := .best }
  -- no two preferences are equal, so the order of the entries does not matter
  (entries.mergeSort (fun a b => order.compare a.1 b.1 != .gt)).map
    (fun entry => { format := entry.1, flavor := entry.2, index := order.indexOf entry.1 })

/-- The formats in order, each with the flavor that comes before all others if it has one. -/
def ranked (y : Tally) : RankedFormats :=
  sortBy (y.indices.extend y.promotedIndices) (y.flavors.extend y.promotedFlavors)

end Tally

/-- The flavors gone through in order; those that cannot be converted are passed over. -/
def tally (t : FormatTable) : List Flavor → Tally → Memoized Tally
  | [], y => pure y
  | f :: fs, y => do
    if ← isConvertible f then tally t fs (y.enter f (t.formatsForFlavor f)) else tally t fs y

/-- The formats reachable from flavors. They are gone through from the last to the first, so that
the preferred ones overwrite. -/
def formatsForFlavors (t : FormatTable) (fs : List Flavor) : Memoized RankedFormats := do
  return (← tally t fs.reverse Tally.empty).ranked

/-! ## Import -/

/-- The flavors that a format offered leads to, each with the format. -/
def offersOf (t : FormatTable) (id : FormatId) : Memoized (List (FormatId × Flavor)) := do
  return (← Memoized.filter isConvertible (t.flavorsForFormat id)).map (fun f => (id, f))

/-- The flavors that formats lead to, each with the format. -/
def offers (t : FormatTable) : List FormatId → Memoized (List (FormatId × Flavor))
  | [] => pure []
  | id :: ids => do
    let first ← offersOf t id
    return first ++ (← offers t ids)

/-- The format that each flavor is read from, in any order. -/
abbrev Origins := List (Flavor × FormatId)

namespace Origins

def get? (o : Origins) (f : Flavor) : Option FormatId := o.lookup f

/-- A flavor bound, whatever it was bound to before. -/
def bind (o : Origins) (f : Flavor) (id : FormatId) : Origins :=
  (f, id) :: o.filter (fun p => p.1 ≠ f)

/-- Each flavor bound to the last format that leads to it. -/
def ofOffers (os : List (FormatId × Flavor)) : Origins := os.foldl (fun o p => o.bind p.2 p.1) []

end Origins

/-- The first of the flavor's own formats that leads back to it. -/
def preferred? (t : FormatTable) (os : List (FormatId × Flavor)) (f : Flavor) : Option FormatId :=
  (t.formatsForFlavor f).find? (fun id => os.contains (id, f))

/-- A flavor bound anew, to the format that it prefers. -/
def rebind (t : FormatTable) (os : List (FormatId × Flavor)) (o : Origins) (f : Flavor) : Origins :=
  match preferred? t os f with
  | some id => o.bind f id
  | none => o

/-- The flavors importable from formats, each with the format it is read from. They are gone through
twice: what comes later overwrites, and then the preferences of the flavors do. -/
def flavorsForFormats (t : FormatTable) (ids : List FormatId) : Memoized Origins := do
  let os ← offers t ids
  return (os.map Prod.snd).eraseDups.foldl (rebind t os) (.ofOffers os)

/-- The flavors importable from formats, each once. -/
def flavorSet (t : FormatTable) (ids : List FormatId) : Memoized (List Flavor) := do
  return ((← offers t ids).map Prod.snd).eraseDups

/-- The flavors importable from formats, the best first, unless the sorter breaks off. The set of them
is gone through in an order of its own, to which it is brought by `arrange`. -/
def flavorsSortedBy (sorter : Sorter Flavor) (arrange : List Flavor → List Flavor) (t : FormatTable)
    (r : FlavorRanker) (ids : List FormatId) : Memoized (Option (List Flavor)) := do
  r.sortBy sorter (arrange (← flavorSet t ids))

/-- The flavors importable from formats, the best first, sorted by insertion. -/
def flavorsSorted (t : FormatTable) (r : FlavorRanker) (ids : List FormatId) :
    Memoized (List Flavor) := do
  r.sort (← flavorSet t ids)

end Negotiation

end Clipboard
