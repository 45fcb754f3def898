import Clipboard.Flavor.TextClassifier

/-!
# Sorting

What comes of sorting is up to the comparison. If it orders the elements (`IsOrder`), they come back
in that order, those that are level as they stood (`SortedBy`). If it does not, no more is promised
than that no element is lost and none is added: the elements may come back in any order, and the sort
may break off. A `Sorter` is whatever keeps that promise.

`insertionSort` is one that never breaks off, and the one that short lists are sorted by.
-/

namespace Clipboard

variable {α : Type}

/-- The comparison orders the elements of a list, some of which may be level: it is the other way
round when two of them change places, and it is transitive. -/
structure IsOrder (cmp : α → α → Ordering) (as : List α) : Prop where
  swap : ∀ a ∈ as, ∀ b ∈ as, cmp b a = (cmp a b).swap
  trans : ∀ a ∈ as, ∀ b ∈ as, ∀ c ∈ as, (cmp a b).isLE = true → (cmp b c).isLE = true →
    (cmp a c).isLE = true

instance (cmp : α → α → Ordering) (as : List α) : Decidable (IsOrder cmp as) :=
  decidable_of_iff
    ((∀ a ∈ as, ∀ b ∈ as, cmp b a = (cmp a b).swap) ∧
      ∀ a ∈ as, ∀ b ∈ as, ∀ c ∈ as, (cmp a b).isLE = true → (cmp b c).isLE = true →
        (cmp a c).isLE = true)
    ⟨fun h => ⟨h.1, h.2⟩, fun h => ⟨h.swap, h.trans⟩⟩

/-- Elements of a list are compared as `cmp` says, with nothing left to decide. -/
def Answers (compare : α → α → Memoized Ordering) (memo : SubtypeMemo) (cmp : α → α → Ordering)
    (as : List α) : Prop :=
  ∀ a ∈ as, ∀ b ∈ as, (compare a b).run memo = (cmp a b, memo)

/-- A list is another one sorted by an order. -/
structure SortedBy (cmp : α → α → Ordering) (as out : List α) : Prop where
  inOrder : out.Pairwise (fun a b => (cmp a b).isLE = true)
  /-- Elements that are level stay as they stood. -/
  stable : ∀ a ∈ as, out.filter (fun b => cmp a b = .eq) = as.filter (fun b => cmp a b = .eq)

/-- A way of sorting. -/
structure Sorter (α : Type) where
  /-- The elements sorted by a comparison, unless the sort breaks off. -/
  run : (α → α → Memoized Ordering) → List α → Memoized (Option (List α))
  /-- No element is lost and none is added, whatever the comparison. -/
  perm : ∀ {compare as memo out}, ((run compare as).run memo).1 = some out → out.Perm as
  /-- It does not break off if the comparison is an order, and the elements are sorted by that. -/
  sorts : ∀ {compare memo cmp as}, Answers compare memo cmp as → IsOrder cmp as →
    ∃ out, (run compare as).run memo = (some out, memo) ∧ SortedBy cmp as out

/-! ## By insertion -/

section Insertion

variable (compare : α → α → Memoized Ordering)

/-- An element put in its place; the list is in order, its last element first. -/
def insertFromEnd (a : α) : List α → Memoized (List α)
  | [] => pure [a]
  | b :: bs => do
    if (← compare a b) = .lt then return b :: (← insertFromEnd a bs) else return a :: b :: bs

/-- Elements put in their places one by one behind those that are, the last element first. -/
def insertAll (sorted : List α) : List α → Memoized (List α)
  | [] => pure sorted
  | a :: as => do insertAll (← insertFromEnd compare a sorted) as

/-- The elements in order; those that are level stay as they stand. -/
def insertionSort (as : List α) : Memoized (List α) := do
  return (← insertAll compare [] as).reverse

end Insertion

end Clipboard
