import Clipboard.Flavor.Standard

/-!
# Which flavors are text

A text flavor is *charset text* if its bytes are read through a charset, *other text* if they are
not. It depends on the subtype: some are known to take a charset, some are known to take none, and
any other is decided once, when it is first met, by whether the flavor then asked about names a
charset. `SubtypeMemo` holds these decisions, and a question about flavors is a `Memoized` answer:
it may add to them.

* `supportsCharset_seeded` says that the known subtypes are never decided anew.
* `supportsCharset_again` says that a decision is final.
-/

namespace Clipboard

/-- The decisions made about subtypes that are not known, the latest first. -/
structure SubtypeMemo where
  /-- A subtype and whether it takes a charset. -/
  decided : List (String × Bool)
  deriving DecidableEq, Repr

/-- An answer that may depend on the decisions so far and add to them. -/
structure Memoized (α : Type) where
  run : SubtypeMemo → α × SubtypeMemo

namespace Memoized

instance : Monad Memoized where
  pure a := ⟨fun memo => (a, memo)⟩
  bind x f := ⟨fun memo => (f (x.run memo).1).run (x.run memo).2⟩

variable {α β : Type}

@[simp] theorem run_pure (a : α) (memo : SubtypeMemo) :
    (pure a : Memoized α).run memo = (a, memo) := rfl

@[simp] theorem run_bind (x : Memoized α) (f : α → Memoized β) (memo : SubtypeMemo) :
    (x >>= f).run memo = (f (x.run memo).1).run (x.run memo).2 := rfl

@[simp] theorem run_ite (c : Prop) [Decidable c] (x y : Memoized α) (memo : SubtypeMemo) :
    (if c then x else y).run memo = if c then x.run memo else y.run memo := by
  split <;> rfl

/-- The elements for which the answer is yes, asked in order. -/
def filter (p : α → Memoized Bool) : List α → Memoized (List α)
  | [] => pure []
  | a :: as => do
    let keep ← p a
    let rest ← filter p as
    return if keep then a :: rest else rest

end Memoized

namespace SubtypeMemo

def empty : SubtypeMemo := ⟨[]⟩

/-- What is known of a subtype beforehand. -/
def seeded? (subtype : String) : Option Bool :=
  match subtype with
  | "sgml" | "xml" | "html" | "enriched" | "richtext" | "uri-list" | "directory" | "css"
  | "calendar" | "plain" => some true
  | "rtf" | "tab-separated-values" | "t140" | "rfc822-headers" | "parityfec" => some false
  | _ => none

/-- What is known of a subtype by now. -/
def find? (memo : SubtypeMemo) (subtype : String) : Option Bool :=
  (seeded? subtype).or (memo.decided.lookup subtype)

/-- Whether a subtype takes a charset; if that is not known it is decided now. -/
def supportsCharset (subtype : String) (hasCharset : Bool) : Memoized Bool :=
  ⟨fun memo =>
    match memo.find? subtype with
    | some answer => (answer, memo)
    | none => (hasCharset, ⟨(subtype, hasCharset) :: memo.decided⟩)⟩

theorem supportsCharset_of_find? {memo : SubtypeMemo} {subtype : String} {answer : Bool}
    (h : memo.find? subtype = some answer) (hasCharset : Bool) :
    (supportsCharset subtype hasCharset).run memo = (answer, memo) := by
  simp only [supportsCharset, h]

theorem supportsCharset_of_find?_eq_none {memo : SubtypeMemo} {subtype : String}
    (h : memo.find? subtype = none) (hasCharset : Bool) :
    (supportsCharset subtype hasCharset).run memo
      = (hasCharset, ⟨(subtype, hasCharset) :: memo.decided⟩) := by
  simp only [supportsCharset, h]

/-- A known subtype is answered for from what is known beforehand. -/
theorem supportsCharset_seeded {subtype : String} {answer : Bool}
    (h : seeded? subtype = some answer) (hasCharset : Bool) (memo : SubtypeMemo) :
    (supportsCharset subtype hasCharset).run memo = (answer, memo) :=
  supportsCharset_of_find? (by simp [find?, h]) hasCharset

/-- After a question the answer to it is known. -/
theorem find?_supportsCharset (subtype : String) (hasCharset : Bool) (memo : SubtypeMemo) :
    find? ((supportsCharset subtype hasCharset).run memo).2 subtype
      = some ((supportsCharset subtype hasCharset).run memo).1 := by
  cases h : memo.find? subtype with
  | some answer => rw [supportsCharset_of_find? h]; exact h
  | none =>
    have hs : seeded? subtype = none := by
      cases hs : seeded? subtype with
      | none => rfl
      | some b => simp [find?, hs] at h
    rw [supportsCharset_of_find?_eq_none h]
    simp [find?, hs]

/-- A decision is final: asked again, whatever the flavor, the answer is the same. -/
theorem supportsCharset_again (subtype : String) (first second : Bool) (memo : SubtypeMemo) :
    (supportsCharset subtype second).run ((supportsCharset subtype first).run memo).2
      = (supportsCharset subtype first).run memo := by
  rw [supportsCharset_of_find? (find?_supportsCharset subtype first memo)]

end SubtypeMemo

/-- Tells text flavors from others. -/
structure TextClassifier where
  defaultCharset : String
  deriving DecidableEq, Repr

namespace TextClassifier

/-- Whether the subtype of a flavor takes a charset. -/
def supportsCharset (f : Flavor) : Memoized Bool :=
  SubtypeMemo.supportsCharset f.mime.subtype f.charset?.isSome

/-- Whether the representation is one of charset text: characters, or bytes in a charset that is
known, the default one being taken for granted. -/
def isReadable (f : Flavor) : Bool :=
  f.representation.isDecodedText
    || (f.representation.isEncodedText
      && match f.charset? with
        | none => true
        | some charset => Charset.isSupported charset)

/-- Whether the flavor is text that is read through a charset. -/
def isCharsetText (f : Flavor) : Memoized Bool :=
  if f = Flavor.string then pure true
  else if f.mime.primary ≠ "text" then pure false
  else do
    let supported ← supportsCharset f
    return supported && isReadable f

/-- Whether the flavor is text in bytes that no charset applies to. -/
def isOtherText (f : Flavor) : Memoized Bool :=
  if f.mime.primary ≠ "text" then pure false
  else do
    let supported ← supportsCharset f
    return !supported && f.representation.isEncodedText

/-- Whether the flavor is text of either kind. -/
def isText (f : Flavor) : Memoized Bool := do
  if ← isCharsetText f then pure true else isOtherText f

def textCharset? (c : TextClassifier) (f : Flavor) : Memoized (Option String) := do
  if ← isCharsetText f then return some (f.charset?.getD c.defaultCharset) else return none

/-- The charset of charset text, and the default one for anything else. -/
def textCharset (c : TextClassifier) (f : Flavor) : Memoized String := do
  return (← c.textCharset? f).getD c.defaultCharset

end TextClassifier

end Clipboard
