import Clipboard.Flavor.TextClassifier
import Clipboard.Format
import Clipboard.Sorting

/-!
# Ranking

Charsets, flavors and formats are put in an order of preference. Comparisons first say which side
is better (`.gt`: the left one); `Selection` then turns that into an order with the best or with the
worst first.

Charsets go by a fixed rank, the default charset just above those without one, and by the name among
equals. Names that are no charset are all alike and last.

Two flavors that are both text go by MIME type, then by representation as characters, by charset and
by representation as bytes. Any other two go by primary type, by MIME type and by representation; an
unknown MIME type is the most telling one here. The texts of the flavors settle what is left.
-/

namespace Clipboard

/-- Which end of the order comes first. -/
inductive Selection where
  | best
  | worst
  deriving DecidableEq, Repr

/-- The order in which things are put, from which side is better. -/
def Selection.orient (s : Selection) (score : Ordering) : Ordering :=
  match s with
  | .best => score.swap
  | .worst => score

namespace Ranking

/-! ## Charsets -/

/-- What stands for every name that is no charset. -/
def unsupportedKey : String := "UNSUPPORTED"

/-- The rank of a charset, given the canonical name of the default one; ranks other than the least
two are those of charsets that are told apart by name. -/
def ownRank? (defaultCharset name : String) : Option Nat :=
  match name with
  | "US-ASCII" => some 1
  | "UTF-16LE" => some 5
  | "UTF-16BE" => some 6
  | "UTF-8" => some 7
  | "UTF-16" => some 8
  | name => if name = defaultCharset then some 3 else none

/-- What a charset is ranked by: the canonical name if that has a rank of its own, and the name as
it is otherwise. -/
def charsetKey (defaultCharset name : String) : String :=
  if !Charset.isSupported name then unsupportedKey
  else
    let canonical := Charset.canonicalName name
    if (ownRank? defaultCharset canonical).isSome then canonical else name

def keyRank (defaultCharset key : String) : Nat :=
  if key = unsupportedKey then 0 else (ownRank? defaultCharset key).getD 2

/-- Which of two charsets is better. -/
def charsetScore (defaultCharset a b : String) : Ordering :=
  let a := charsetKey defaultCharset a
  let b := charsetKey defaultCharset b
  (compare (keyRank defaultCharset a) (keyRank defaultCharset b)).then (compare b a)

/-- The charsets in order; those of one key stay as they stand. -/
def sortCharsets (defaultCharset : String) (s : Selection) (names : List String) : List String :=
  names.mergeSort (fun a b => s.orient (charsetScore defaultCharset a b) != .gt)

/-- The first of every run of names with one key. -/
def dropRepeats (defaultCharset : String) : List String → List String
  | [] => []
  | [name] => [name]
  | a :: b :: names =>
    if charsetScore defaultCharset a b = .eq then dropRepeats defaultCharset (a :: names)
    else a :: dropRepeats defaultCharset (b :: names)

/-- The charsets that text is offered in, the best first. -/
def standardCharsets (defaultCharset : String) : List String :=
  dropRepeats defaultCharset <|
    sortCharsets defaultCharset .best
      ["US-ASCII", "ISO-8859-1", "UTF-8", "UTF-16BE", "UTF-16LE", "UTF-16", defaultCharset]

/-! ## Flavors -/

/-- The MIME types of text from the worst to the best. -/
def textBases : List String :=
  [Flavor.serializedObjectBase, "text/calendar", "text/css", "text/directory", "text/parityfec",
    "text/rfc822-headers", "text/t140", "text/tab-separated-values", "text/uri-list",
    "text/richtext", "text/enriched", "text/rtf", "text/html", "text/xml", "text/sgml",
    "text/plain"]

/-- The MIME types of objects from the worst to the best. -/
def objectBases : List String :=
  ["application/x-java-file-list", Flavor.serializedObjectBase,
    "application/x-java-jvm-local-objectref", "application/x-java-remote-object"]

/-- The place in a list, counted from one; what is not in it comes before everything. -/
def rankOrLast {α : Type} [BEq α] (ranked : List α) (a : α) : Nat :=
  match ranked.idxOf? a with
  | some i => i + 1
  | none => 0

/-- The place in a list; what is not in it comes after everything. -/
def rankOrFirst {α : Type} [BEq α] (ranked : List α) (a : α) : Nat :=
  (ranked.idxOf? a).getD ranked.length

/-- Representations of text as characters from the worst to the best. -/
def decodedRanks : List Representation := [.charArray, .charBuffer, .string, .reader]

/-- Representations of text as bytes from the worst to the best. -/
def encodedRanks : List Representation := [.byteArray, .byteBuffer, .stream]

/-- Representations of objects from the worst to the best. -/
def objectRanks : List Representation := [.stream, .serializable, .remote]

def byRank {α : Type} (rank : α → Nat) (a b : α) : Ordering := compare (rank a) (rank b)

/-- Two answers, the second asked for only if the first does not decide. -/
def thenAsk (first : Ordering) (second : Memoized Ordering) : Memoized Ordering :=
  match first with
  | .eq => second
  | decided => pure decided

/-- Which of the charsets of two texts of one MIME type is better. -/
def textCharsetScore (c : TextClassifier) (defaultCharset : String) (a b : Flavor) :
    Memoized Ordering := do
  let charsetA ← c.textCharset? a
  let charsetB ← c.textCharset? b
  match charsetA, charsetB with
  | some charsetA, some charsetB => return charsetScore defaultCharset charsetA charsetB
  | _, _ => return .eq

/-- Which of two texts of one MIME type is better, as far as charsets go. -/
def decodedScore (c : TextClassifier) (defaultCharset : String) (a b : Flavor) :
    Memoized Ordering := do
  if ← TextClassifier.supportsCharset a then
    thenAsk (byRank (rankOrLast decodedRanks) a.representation b.representation)
      (textCharsetScore c defaultCharset a b)
  else return .eq

/-- Which of two texts is better. -/
def textScore (c : TextClassifier) (defaultCharset : String) (a b : Flavor) :
    Memoized Ordering :=
  thenAsk (byRank (rankOrLast textBases) a.mime.base b.mime.base) do
    let score ← decodedScore c defaultCharset a b
    return score.then (byRank (rankOrLast encodedRanks) a.representation b.representation)

/-- Which of two flavors is better when not both are text. -/
def objectScore (a b : Flavor) : Ordering :=
  (byRank (rankOrLast ["application"]) a.mime.primary b.mime.primary).then <|
    (byRank (rankOrFirst objectBases) a.mime.base b.mime.base).then <|
      byRank (rankOrLast objectRanks) a.representation b.representation

/-- Whether both flavors are text; the second is asked about only if the first is. -/
def areText (a b : Flavor) : Memoized Bool := do
  if ← TextClassifier.isText a then TextClassifier.isText b else return false

end Ranking

/-- Puts flavors in order. -/
structure FlavorRanker where
  classifier : TextClassifier
  defaultCharset : String
  selection : Selection
  deriving DecidableEq, Repr

namespace FlavorRanker

/-- Which of two flavors is better. -/
def score (r : FlavorRanker) (a b : Flavor) : Memoized Ordering :=
  if a = b then pure .eq
  else do
    let keyed ←
      if ← Ranking.areText a b then Ranking.textScore r.classifier r.defaultCharset a b
      else pure (Ranking.objectScore a b)
    return keyed.then (compare a.toString b.toString)

/-- Which of two flavors comes first. -/
def compare (r : FlavorRanker) (a b : Flavor) : Memoized Ordering := do
  return r.selection.orient (← r.score a b)

/-- The flavors as a sorter puts them in order, unless it breaks off. Of flavors that are text and
flavors that are not, each may come before the next one in a circle, so it may. -/
def sortBy (r : FlavorRanker) (sorter : Sorter Flavor) (fs : List Flavor) :
    Memoized (Option (List Flavor)) :=
  sorter.run r.compare fs

/-- The flavors put in order by insertion; those that rank the same stay as they stand. Every sorter
gives that list where the comparison orders the flavors. -/
def sort (r : FlavorRanker) (fs : List Flavor) : Memoized (List Flavor) := insertionSort r.compare fs

/-- The best of a flavor and others; of several the last one. -/
def bestFrom (r : FlavorRanker) (f : Flavor) : List Flavor → Memoized Flavor
  | [] => pure f
  | g :: gs => do
    if (← r.score f g) = .gt then r.bestFrom f gs else r.bestFrom g gs

def best? (r : FlavorRanker) : List Flavor → Memoized (Option Flavor)
  | [] => pure none
  | f :: fs => do return some (← r.bestFrom f fs)

end FlavorRanker

/-! ## Formats -/

/-- An order of formats by the preference given to each. -/
structure IndexOrder where
  indices : List (FormatId × Int)
  selection : Selection
  deriving Repr

namespace IndexOrder

/-- The least preference, that of a format without one. -/
def lowest : Int := -(Int.pow 2 63)

/-- The preference of a format; of several given the last counts. -/
def indexOf (o : IndexOrder) (id : FormatId) : Int :=
  (o.indices.reverse.lookup id).getD lowest

/-- Which of two formats comes first; the numbers settle what preference does not. -/
def compare (o : IndexOrder) (a b : FormatId) : Ordering :=
  (o.selection.orient (Ord.compare (o.indexOf a) (o.indexOf b))).then (Ord.compare a b)

def sort (o : IndexOrder) (ids : List FormatId) : List FormatId :=
  ids.mergeSort (fun a b => o.compare a b != .gt)

end IndexOrder

end Clipboard
