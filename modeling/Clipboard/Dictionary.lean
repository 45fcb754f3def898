/-!
# Dictionaries

A dictionary binds names to values. It is a list of pairs in the ascending order of the names, each
name once, so that dictionaries with the same bindings are the same list.

* `find?_insert_self` and `find?_insert_of_ne` say what `insert` binds.
* `find?_erase_self` and `find?_erase_of_ne` do so for `erase`.
-/

namespace Clipboard

abbrev Dictionary (α : Type) := List (String × α)

namespace Dictionary

variable {α : Type}

def find? (d : Dictionary α) (name : String) : Option α := d.lookup name

/-- The dictionary with a value bound to a name, in place of any other value of it. -/
def insert (name : String) (value : α) : Dictionary α → Dictionary α
  | [] => [(name, value)]
  | (n, v) :: d =>
    if name < n then (name, value) :: (n, v) :: d
    else if name = n then (name, value) :: d
    else (n, v) :: insert name value d

def erase (d : Dictionary α) (name : String) : Dictionary α := d.filter (fun p => p.1 ≠ name)

/-- The dictionary of the pairs; of two values of a name the later one counts. -/
def ofList (ps : List (String × α)) : Dictionary α := ps.foldl (fun d p => insert p.1 p.2 d) []

/-- The values replaced by others under the same names. -/
def mapValues {β : Type} (f : String → α → β) (d : Dictionary α) : Dictionary β :=
  d.map (fun p => (p.1, f p.1 p.2))

theorem find?_cons (d : Dictionary α) (n : String) (v : α) (name : String) :
    find? ((n, v) :: d) name = if name = n then some v else find? d name := by
  by_cases h : name = n
  · simp [find?, h]
  · have hb : (name == n) = false := by simpa using h
    simp [find?, List.lookup_cons, h, hb]

theorem find?_insert_self (d : Dictionary α) (name : String) (value : α) :
    find? (insert name value d) name = some value := by
  induction d with
  | nil => simp [insert, find?_cons]
  | cons p d ih =>
    obtain ⟨n, v⟩ := p
    unfold insert
    split
    · simp [find?_cons]
    · split
      · simp [find?_cons]
      · next hne => simp [find?_cons, hne, ih]

/-- Binding a name leaves the others as they are. -/
theorem find?_insert_of_ne (d : Dictionary α) {name other : String} (value : α)
    (h : other ≠ name) : find? (insert name value d) other = find? d other := by
  induction d with
  | nil => simp [insert, find?_cons, h]
  | cons p d ih =>
    obtain ⟨n, v⟩ := p
    unfold insert
    split
    · simp [find?_cons, h]
    · split
      · next hn => subst hn; simp [find?_cons, h]
      · simp [find?_cons, ih]

theorem find?_erase_self (d : Dictionary α) (name : String) : find? (erase d name) name = none := by
  induction d with
  | nil => rfl
  | cons p d ih =>
    obtain ⟨n, v⟩ := p
    by_cases h : n = name
    · simpa [erase, h] using ih
    · have h' : name ≠ n := fun e => h e.symm
      simp only [erase, ne_eq, h, not_false_eq_true, decide_true, List.filter_cons_of_pos]
      rw [find?_cons, if_neg h']
      exact ih

/-- Erasing a name leaves the others as they are. -/
theorem find?_erase_of_ne (d : Dictionary α) {name other : String} (h : other ≠ name) :
    find? (erase d name) other = find? d other := by
  induction d with
  | nil => rfl
  | cons p d ih =>
    obtain ⟨n, v⟩ := p
    by_cases hn : n = name
    · have : find? (erase ((n, v) :: d) name) other = find? (erase d name) other := by
        simp [erase, hn]
      rw [this, ih, find?_cons, if_neg (fun e => h (e.trans hn))]
    · have : erase ((n, v) :: d) name = (n, v) :: erase d name := by
        simp [erase, hn]
      rw [this, find?_cons, find?_cons, ih]

end Dictionary

end Clipboard
