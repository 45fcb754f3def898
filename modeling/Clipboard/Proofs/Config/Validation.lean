import Clipboard.Config.Validation
import Clipboard.Proofs.Steps

/-!
# Configurations that make sense

A configuration passes its validation exactly if it makes sense as a whole (`validate_eq_ok_iff`): its
default charset is supported, every entry makes sense by itself (`FormatEntry.Valid`), and any two
entries differ in number and in name (`FormatEntry.Apart`).
-/

namespace Clipboard

namespace Check

theorem unless_eq_ok_iff {holds : Bool} {fault : ConfigFault} :
    Check.unless holds fault = .ok () ↔ holds = true := by
  cases holds with
  | true => exact iff_of_true rfl rfl
  | false => exact iff_of_false (fun h => by cases h) (fun h => by cases h)

/-- Checks made one after the other are passed if every one is. -/
theorem bind_eq_ok_iff {first : Check} {next : Unit → Check} :
    (first >>= next) = .ok () ↔ first = .ok () ∧ next () = .ok () := by
  cases first with
  | ok passed =>
    constructor
    · intro h
      exact ⟨rfl, h⟩
    · rintro ⟨-, h⟩
      exact h
  | error fault => exact iff_of_false (fun h => by cases h) (fun h => by cases h.1)

theorem forM_eq_ok_iff {α : Type} {check : α → Check} {as : List α} :
    as.forM check = .ok () ↔ ∀ a ∈ as, check a = .ok () := by
  induction as with
  | nil => exact iff_of_true rfl (fun a ha => by cases ha)
  | cons a as ih =>
    show (check a >>= fun _ => as.forM check) = .ok () ↔ _
    rw [bind_eq_ok_iff, ih, List.forall_mem_cons]

end Check

/-- The charset, unless it is left empty, is supported, and the zero bytes are a number. -/
structure TextEntry.Valid (text : TextEntry) : Prop where
  charset : ∀ name, text.charset = some name → name ≠ "" → Charset.isSupported name = true
  terminators : ∀ count, text.terminators = some count → ∃ n, count.resolve = .ok n

theorem TextEntry.valid_iff {text : TextEntry} :
    text.Valid ↔ (∀ name, text.charset = some name → name ≠ "" → Charset.isSupported name = true) ∧
      ∀ count, text.terminators = some count → ∃ n, count.resolve = .ok n :=
  ⟨fun h => ⟨h.charset, h.terminators⟩, fun h => ⟨h.1, h.2⟩⟩

namespace FormatEntry

/-- What must hold of an entry by itself. -/
structure Valid (e : FormatEntry) : Prop where
  name : e.name ≠ ""
  flavors : ∀ text ∈ e.flavors, (Flavor.parse? text).isSome = true
  text : ∀ text, e.text = some text → text.Valid

/-- The entries are not about one format. -/
def Apart (a b : FormatEntry) : Prop := a.id ≠ b.id ∧ a.name ≠ b.name

variable {e : FormatEntry} {earlier es : List FormatEntry}

theorem checkText_eq_ok_iff :
    e.checkText = .ok () ↔ ∀ text, e.text = some text → text.Valid := by
  rw [checkText]
  cases htext : e.text with
  | none => exact iff_of_true rfl (fun text h => by cases h)
  | some text =>
    have hvalid : (∀ other, some text = some other → other.Valid) ↔
        (∀ name, text.charset.filter (· ≠ "") = some name → Charset.isSupported name = true) ∧
        ∀ count, text.terminators = some count → ∃ n, count.resolve = .ok n := by
      simp [TextEntry.valid_iff, Option.filter_eq_some_iff]
    rw [hvalid]
    dsimp only
    cases text.charset.filter (· ≠ "") with
    | none =>
      cases text.terminators with
      | none => exact iff_of_true rfl ⟨fun name h => (by cases h), fun count h => (by cases h)⟩
      | some count => cases hresolve : count.resolve <;> simp [hresolve]
    | some name =>
      refine Check.bind_eq_ok_iff.trans (and_congr ?_ ?_)
      · rw [Check.unless_eq_ok_iff]
        simp
      · cases text.terminators with
        | none => exact iff_of_true rfl (fun count h => by cases h)
        | some count => cases hresolve : count.resolve <;> simp [hresolve]

theorem checkFlavors_eq_ok_iff :
    e.checkFlavors = .ok () ↔ ∀ text ∈ e.flavors, (Flavor.parse? text).isSome = true := by
  rw [checkFlavors, Check.forM_eq_ok_iff]
  exact forall₂_congr (fun _ _ => Check.unless_eq_ok_iff)

theorem check_eq_ok_iff :
    e.check earlier = .ok () ↔ e.Valid ∧ ∀ other ∈ earlier, other.Apart e := by
  rw [check, Check.bind_eq_ok_iff, Check.bind_eq_ok_iff, Check.bind_eq_ok_iff, Check.bind_eq_ok_iff,
    Check.unless_eq_ok_iff, Check.unless_eq_ok_iff, Check.unless_eq_ok_iff, decide_eq_true_iff,
    checkFlavors_eq_ok_iff, checkText_eq_ok_iff, List.all_eq_true, List.all_eq_true]
  constructor
  · rintro ⟨hids, hname, hnames, hflavors, htext⟩
    refine ⟨⟨hname, hflavors, htext⟩, fun other hother => ?_⟩
    exact ⟨of_decide_eq_true (hids other hother), of_decide_eq_true (hnames other hother)⟩
  · rintro ⟨h, hapart⟩
    exact ⟨fun other hother => decide_eq_true (hapart other hother).1, h.name,
      fun other hother => decide_eq_true (hapart other hother).2, h.flavors, h.text⟩

theorem checkAll_eq_ok_iff :
    checkAll earlier es = .ok () ↔
      (∀ e ∈ es, e.Valid) ∧ (∀ other ∈ earlier, ∀ e ∈ es, other.Apart e) ∧ es.Pairwise Apart := by
  induction es generalizing earlier with
  | nil => exact iff_of_true rfl ⟨by simp, by simp, .nil⟩
  | cons e es ih =>
    rw [checkAll, Check.bind_eq_ok_iff, check_eq_ok_iff, ih, List.forall_mem_cons,
      List.pairwise_cons, List.forall_mem_append, List.forall_mem_singleton]
    constructor
    · rintro ⟨⟨hvalid, hfirst⟩, hvalids, ⟨hearlier, hapart⟩, hpairs⟩
      refine ⟨⟨hvalid, hvalids⟩, fun other hother => ?_, hapart, hpairs⟩
      exact List.forall_mem_cons.mpr ⟨hfirst other hother, hearlier other hother⟩
    · rintro ⟨⟨hvalid, hvalids⟩, hearlier, hapart, hpairs⟩
      refine ⟨⟨hvalid, fun other hother => ?_⟩, hvalids, ⟨fun other hother => ?_, hapart⟩, hpairs⟩
      · exact (List.forall_mem_cons.mp (hearlier other hother)).1
      · exact (List.forall_mem_cons.mp (hearlier other hother)).2

end FormatEntry

namespace Config

/-- What must hold of a configuration. -/
structure Valid (c : Config) : Prop where
  defaultCharset : Charset.isSupported c.defaultCharset = true
  entries : ∀ e ∈ c.formats, e.Valid
  apart : c.formats.Pairwise FormatEntry.Apart

/-- **The validation is passed by what makes sense, and by nothing else.** -/
theorem validate_eq_ok_iff {c : Config} : c.validate = .ok () ↔ c.Valid := by
  rw [validate, Check.bind_eq_ok_iff, Check.unless_eq_ok_iff, FormatEntry.checkAll_eq_ok_iff]
  constructor
  · rintro ⟨hdefault, hentries, -, hapart⟩
    exact ⟨hdefault, hentries, hapart⟩
  · rintro ⟨hdefault, hentries, hapart⟩
    exact ⟨hdefault, hentries, fun _ hother => absurd hother List.not_mem_nil, hapart⟩

end Config

end Clipboard
