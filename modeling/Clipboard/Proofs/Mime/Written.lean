import Clipboard.Proofs.Mime
import Mathlib.Algebra.GroupWithZero.Nat

/-!
# MIME types written

Behind a type that is kept the way it is written, each parameter stands in a section of its own if it
can be written (`IsWritable`): if the cutting goes through it and ends outside quotes, and its value
comes out of the quotes as it went in. Then it is read as it is (`readsAs_written`).

Conversely, parameters of which values are read that hold as many semicolons as their own stand in
sections of their own (`of_reads_listing`). How many semicolons there are altogether is known: each is
in a name or a value, or before a section (`sum_weight_of_reads`).
-/

namespace Clipboard.MimeType

/-- A parameter as it is written behind a semicolon. -/
def written (p : String × String) : List Char :=
  ' ' :: (p.1.toList ++ '=' :: (showValue p.2).toList)

/-- Parameters as they are written, with semicolons between them. -/
def listing : List (String × String) → String × String → List Char
  | [], last => written last
  | p :: ps, last => written p ++ ';' :: listing ps last

/-- The parameter stands in a section of its own, and its value is read as it is. -/
def IsWritable (p : String × String) : Prop :=
  through .outside (written p) = some .outside ∧ unquote (showValue p.2).toList = p.2.toList

instance (p : String × String) : Decidable (IsWritable p) := inferInstanceAs (Decidable (_ ∧ _))

/-- The name is one that names are kept as. -/
structure IsParamName (name : String) : Prop where
  kept_eq : kept name.toList = name.toList
  ne_empty : name ≠ ""
  no_equals : '=' ∉ name.toList

/-- The type is one that types are kept as. -/
structure IsKept (m : MimeType) : Prop where
  primary_kept : kept m.primary.toList = m.primary.toList
  primary_isName : IsName m.primary.toList
  subtype_kept : kept m.subtype.toList = m.subtype.toList
  subtype_isName : IsName m.subtype.toList
  sorted : m.params.Sorted
  names : ∀ p ∈ m.params, IsParamName p.1

/-- The name is read behind a semicolon and a blank. -/
theorem IsParamName.kept_cons {name : String} (h : IsParamName name) :
    kept (' ' :: name.toList) = name.toList := by
  have hblank : Text.IsBlank [' '] := by decide
  have htrim := Text.trim_append_append hblank (r := []) (by simp [Text.IsBlank]) name.toList
  rw [List.append_nil, List.singleton_append] at htrim
  rw [kept, htrim]
  exact h.kept_eq

theorem isParamName_of_readsAs {s : List Char} {p : String × String} (h : ReadsAs s (some p)) :
    IsParamName p.1 := by
  cases h with
  | @param name value hname hnot =>
    refine ⟨?_, ?_, ?_⟩
    · rw [String.toList_ofList, kept_kept]
    · rw [ne_eq, String.ofList_eq_empty_iff]
      exact hnot
    · rw [String.toList_ofList, mem_kept_iff (by decide) (by decide)]
      exact hname

theorem isParamName_of_reads {ss : List (List Char)} {os : List (Option (String × String))}
    (h : List.Forall₂ ReadsAs ss os) : ∀ p ∈ os.filterMap id, IsParamName p.1 := by
  induction h with
  | nil =>
    intro p hp
    cases hp
  | @cons s o ss os hread _ ih =>
    intro p hp
    cases o with
    | none => exact ih p hp
    | some q =>
      rcases List.mem_cons.mp hp with rfl | hp
      · exact isParamName_of_readsAs hread
      · exact ih p hp

/-- What is read is kept. -/
theorem isKept_of_parse? {s : String} {m : MimeType} (h : parse? s = some m) : IsKept m := by
  obtain ⟨primary, subtype, ss, os, hreading⟩ := ofChars?_eq_some_iff.mp h
  have heq := hreading.eq
  subst heq
  refine ⟨?_, ?_, ?_, ?_, Dictionary.sorted_ofList _, ?_⟩
  · rw [String.toList_ofList, kept_kept]
  · rw [String.toList_ofList]
    exact hreading.primary_isName
  · rw [String.toList_ofList, kept_kept]
  · rw [String.toList_ofList]
    exact hreading.subtype_isName
  · intro p hp
    exact isParamName_of_reads hreading.reads p (Dictionary.mem_of_mem_ofList hp)

/-- A type behind which sections are read is read as it is. -/
theorem ofChars?_base_eq_some_iff {m n : MimeType} (h : m.IsKept) {cs : List Char} :
    ofChars? (m.base.toList ++ ';' :: cs) = some n ↔
      ∃ os, List.Forall₂ ReadsAs (sections cs) os ∧
        n = { m with params := Dictionary.ofList (os.filterMap id) } := by
  have hbase : m.base.toList = m.primary.toList ++ '/' :: m.subtype.toList := by simp [base]
  have hslash : '/' ∉ m.primary.toList := not_mem_of_isToken h.primary_isName.2 (by decide)
  have hthrough : through .outside m.base.toList = some .outside := by
    have hslash : through .outside ('/' :: m.subtype.toList) = through .outside m.subtype.toList := rfl
    rw [hbase, through_append, through_of_isToken h.primary_isName.2, Option.bind_some, hslash,
      through_of_isToken h.subtype_isName.2]
  rw [ofChars?_eq_some_iff]
  constructor
  · rintro ⟨primary, subtype, ss, os, hreading⟩
    have hsections := hreading.sections_eq
    rw [sections_append hthrough] at hsections
    obtain ⟨hfirst, rfl⟩ := List.cons.inj hsections
    have hcount : primary.count '/' = m.primary.toList.count '/' := by
      rw [List.count_eq_zero.mpr hslash, List.count_eq_zero.mpr hreading.no_slash]
    rw [hbase] at hfirst
    obtain ⟨rfl, rfl⟩ := Text.append_cons_inj hcount hfirst.symm
    refine ⟨os, hreading.reads, ?_⟩
    rw [hreading.eq, h.primary_kept, h.subtype_kept, String.ofList_toList, String.ofList_toList]
  · rintro ⟨os, hreads, rfl⟩
    refine ⟨m.primary.toList, m.subtype.toList, sections cs, os, ?_, hslash, ?_, ?_, hreads, ?_⟩
    · rw [sections_append hthrough, hbase]
    · rw [h.primary_kept]
      exact h.primary_isName
    · rw [h.subtype_kept]
      exact h.subtype_isName
    · rw [h.primary_kept, h.subtype_kept, String.ofList_toList, String.ofList_toList]

/-! ## Values -/

theorem showValue_eq (value : String) :
    (showValue value).toList = value.toList ∧ isToken value.toList = true ∧ value ≠ "" ∨
      (showValue value).toList = '\x22' :: (value.toList ++ ['\x22']) := by
  unfold showValue
  split
  · next h =>
    simp only [Bool.and_eq_true, Bool.not_eq_true', String.isEmpty_eq_false_iff] at h
    exact Or.inl ⟨rfl, h.2, h.1⟩
  · right
    simp

theorem showValue_of_isName {value : String} (h : IsName value.toList) : showValue value = value := by
  obtain ⟨hne, htoken⟩ := h
  rw [ne_eq, String.toList_eq_nil_iff] at hne
  rw [showValue, if_pos (by simp [hne, htoken])]

theorem trim_showValue (value : String) :
    Text.trim (showValue value).toList = (showValue value).toList := by
  rcases showValue_eq value with ⟨heq, htoken, -⟩ | heq
  · rw [heq, trim_of_isToken htoken]
  · rw [heq]
    exact Text.trim_of_ends (by decide) (by decide) _

theorem unquote_showValue {value : String} (hquote : '\x22' ∉ value.toList)
    (hbackslash : '\\' ∉ value.toList) : unquote (showValue value).toList = value.toList := by
  rcases showValue_eq value with ⟨heq, -, -⟩ | heq
  · rw [heq, unquote_of_not_mem hquote]
  · rw [heq, unquote_quoted, unescape_of_not_mem hbackslash]

/-- Without quotes and backslashes a value can be written under any token. -/
theorem isWritable_of_not_mem {p : String × String} (hname : isToken p.1.toList = true)
    (hquote : '\x22' ∉ p.2.toList) (hbackslash : '\\' ∉ p.2.toList) : IsWritable p := by
  have hfront : through .outside (' ' :: p.1.toList ++ ['=']) = some .outside := by
    have hblank : through .outside (' ' :: p.1.toList) = through .outside p.1.toList := rfl
    rw [through_append, hblank, through_of_isToken hname]
    rfl
  have hvalue : through .outside (showValue p.2).toList = some .outside := by
    rcases showValue_eq p.2 with ⟨heq, htoken, -⟩ | heq
    · rw [heq, through_of_isToken htoken]
    · rw [heq, through_quoted hquote hbackslash]
  have hwritten : written p = (' ' :: p.1.toList ++ ['=']) ++ (showValue p.2).toList := by
    simp [written]
  refine ⟨?_, unquote_showValue hquote hbackslash⟩
  rw [hwritten, through_append, hfront, Option.bind_some, hvalue]

/-- A parameter that can be written is read as it is. -/
theorem readsAs_written {p : String × String} (hname : IsParamName p.1)
    (h : unquote (showValue p.2).toList = p.2.toList) : ReadsAs (written p) (some p) := by
  have hnot : kept (' ' :: p.1.toList) ≠ [] := by
    rw [hname.kept_cons, ne_eq, String.toList_eq_nil_iff]
    exact hname.ne_empty
  have hequals : '=' ∉ ' ' :: p.1.toList := by simp [hname.no_equals]
  have hread : ReadsAs (written p) _ := .param hequals hnot
  rw [hname.kept_cons, trim_showValue, h, String.ofList_toList, String.ofList_toList] at hread
  exact hread

/-- What can be written is read as it is. -/
theorem reads_listing {ps : List (String × String)} {last : String × String}
    (h : ∀ p ∈ ps ++ [last], IsParamName p.1 ∧ IsWritable p) :
    List.Forall₂ ReadsAs (sections (listing ps last)) ((ps ++ [last]).map some) := by
  induction ps with
  | nil =>
    obtain ⟨hname, hthrough, hvalue⟩ := h last (List.mem_singleton.mpr rfl)
    rw [listing, sections, sectionsFrom_of_through hthrough]
    exact .cons (readsAs_written hname hvalue) .nil
  | cons p ps ih =>
    obtain ⟨hname, hthrough, hvalue⟩ := h p List.mem_cons_self
    rw [listing, sections_append hthrough]
    exact .cons (readsAs_written hname hvalue) (ih (fun q hq => h q (List.mem_cons_of_mem p hq)))

/-! ## What is read of a listing -/

theorem count_showValue (value : String) :
    (showValue value).toList.count ';' = value.toList.count ';' := by
  rcases showValue_eq value with ⟨heq, -, -⟩ | heq
  · rw [heq]
  · rw [heq, List.count_cons_of_ne (by decide), List.count_append]
    rfl

/-- A section that begins where a parameter does is read under the parameter's name. If the value that
is read holds as many semicolons as the parameter's, so does what stands for it. -/
theorem ReadsAs.of_written {s more tail : List Char} {o : Option (String × String)}
    {p : String × String} (h : ReadsAs s o) (hnone : o ≠ none) (hname : IsParamName p.1)
    (heq : s ++ more = written p ++ tail)
    (hcount : ∀ value, o = some (p.1, value) → value.toList.count ';' = p.2.toList.count ';') :
    ∃ value, s = ' ' :: (p.1.toList ++ '=' :: value) ∧
      value ++ more = (showValue p.2).toList ++ tail ∧
      o = some (p.1, String.ofList (unquote (Text.trim value))) ∧
      value.count ';' = (showValue p.2).toList.count ';' := by
  cases h with
  | blank => exact absurd rfl hnone
  | @param name value hequals hnot =>
    have hnames : name.count '=' = (' ' :: p.1.toList).count '=' := by
      rw [List.count_eq_zero.mpr hequals, List.count_eq_zero.mpr (by simp [hname.no_equals])]
    have hcut : name ++ '=' :: (value ++ more)
        = (' ' :: p.1.toList) ++ '=' :: ((showValue p.2).toList ++ tail) := by
      simpa [written] using heq
    obtain ⟨rfl, hvalue⟩ := Text.append_cons_inj hnames hcut
    rw [hname.kept_cons, String.ofList_toList] at hcount ⊢
    refine ⟨value, rfl, hvalue, rfl, ?_⟩
    have hsame := hcount _ rfl
    rw [String.toList_ofList, count_unquote (by decide) (by decide),
      Text.count_trim (by decide)] at hsame
    rw [hsame, count_showValue]

/-- If the values read under the name of a first parameter hold as many semicolons as its own, the
parameter is a section. -/
theorem of_reads_written {p : String × String} {rest : List Char}
    {os : List (Option (String × String))} (hname : IsParamName p.1)
    (hreads : List.Forall₂ ReadsAs (sections (written p ++ ';' :: rest)) os) (hnone : none ∉ os)
    (hcount : ∀ value, some (p.1, value) ∈ os → value.toList.count ';' = p.2.toList.count ';') :
    through .outside (written p) = some .outside ∧
      ∃ os', os = some (p.1, String.ofList (unquote (showValue p.2).toList)) :: os' ∧
        List.Forall₂ ReadsAs (sections rest) os' := by
  unfold sections at hreads
  rcases sectionsFrom_cases .outside (written p ++ ';' :: rest) with
    hwhole | ⟨front, behind, heq, hthrough, hsections⟩
  · -- the semicolon behind the parameter would be one of its value
    rw [hwhole] at hreads
    cases hreads with
    | @cons _ o _ os hread _ =>
      obtain ⟨value, -, hvalue, -, hsame⟩ := hread.of_written
        (fun ho => hnone (ho ▸ List.mem_cons_self)) hname (List.append_nil _)
        (fun value ho => hcount value (ho ▸ List.mem_cons_self))
      rw [List.append_nil] at hvalue
      rw [hvalue, List.count_append, List.count_cons_self] at hsame
      omega
  · -- with as many semicolons before it, the cut is the one behind the parameter
    rw [hsections] at hreads
    cases hreads with
    | @cons _ o _ os hread hbehind =>
      obtain ⟨value, hs, hvalue, ho, hsame⟩ := hread.of_written
        (fun ho => hnone (ho ▸ List.mem_cons_self)) hname heq.symm
        (fun value ho => hcount value (ho ▸ List.mem_cons_self))
      obtain ⟨rfl, rfl⟩ := Text.append_cons_inj hsame hvalue
      subst hs
      refine ⟨hthrough, os, ?_, hbehind⟩
      rw [ho, trim_showValue]

/-- The same for every parameter of a listing. -/
theorem of_reads_listing {ps : List (String × String)} {last : String × String}
    {os : List (Option (String × String))} (hnames : ∀ p ∈ ps, IsParamName p.1)
    (hreads : List.Forall₂ ReadsAs (sections (listing ps last)) os) (hnone : none ∉ os)
    (hcount : ∀ p ∈ ps, ∀ value, some (p.1, value) ∈ os →
      value.toList.count ';' = p.2.toList.count ';') :
    ∀ p ∈ ps, through .outside (written p) = some .outside ∧
      some (p.1, String.ofList (unquote (showValue p.2).toList)) ∈ os := by
  induction ps generalizing os with
  | nil =>
    intro p hp
    cases hp
  | cons q ps ih =>
    obtain ⟨hthrough, os, rfl, hrest⟩ := of_reads_written (hnames q List.mem_cons_self) hreads hnone
      (hcount q List.mem_cons_self)
    intro p hp
    rcases List.mem_cons.mp hp with rfl | hp
    · exact ⟨hthrough, List.mem_cons_self⟩
    · obtain ⟨hthrough, hmem⟩ := ih (fun r hr => hnames r (List.mem_cons_of_mem q hr)) hrest
        (fun hmem => hnone (List.mem_cons_of_mem _ hmem))
        (fun r hr value hmem =>
          hcount r (List.mem_cons_of_mem q hr) value (List.mem_cons_of_mem _ hmem)) p hp
      exact ⟨hthrough, List.mem_cons_of_mem _ hmem⟩

/-! ## Semicolons -/

/-- The semicolons of a parameter and the one before it. -/
def weight (p : String × String) : Nat := p.1.toList.count ';' + p.2.toList.count ';' + 1

theorem count_listing (ps : List (String × String)) (last : String × String) :
    (';' :: listing ps last).count ';' = ((ps ++ [last]).map weight).sum := by
  have hwritten : ∀ p : String × String, (written p).count ';' + 1 = weight p := by
    intro p
    unfold written weight
    rw [List.count_cons_of_ne (by decide), List.count_append, List.count_cons_of_ne (by decide),
      count_showValue]
  induction ps with
  | nil => simp [listing, hwritten]
  | cons p ps ih =>
    rw [listing, List.count_cons_self, List.count_append, ih, List.cons_append, List.map_cons,
      List.sum_cons, ← hwritten p]
    omega

/-- The semicolons of a section that is read are those of its name and its value. -/
theorem count_of_readsAs {s : List Char} {o : Option (String × String)} (h : ReadsAs s o) :
    (';' :: s).count ';' = o.elim 1 weight := by
  rw [List.count_cons_self]
  cases h with
  | blank h =>
    rw [← Text.count_trim (by decide), h]
    rfl
  | @param name value =>
    rw [Option.elim_some, weight, String.toList_ofList, String.toList_ofList,
      count_kept (by decide) (by decide), count_unquote (by decide) (by decide),
      Text.count_trim (by decide), List.count_append, List.count_cons_of_ne (by decide)]

/-- Every semicolon of a text that is read is in a parameter or before a section. -/
theorem sum_weight_of_reads {cs : List Char} {os : List (Option (String × String))}
    (h : List.Forall₂ ReadsAs (sections cs) os) :
    ((os.filterMap id).map weight).sum + os.count none = (';' :: cs).count ';' := by
  have hsum : ∀ {ss : List (List Char)} {os : List (Option (String × String))},
      List.Forall₂ ReadsAs ss os →
        ((os.filterMap id).map weight).sum + os.count none
          = (ss.flatMap (fun s => ';' :: s)).count ';' := by
    intro ss os h
    induction h with
    | nil => rfl
    | @cons s o ss os hread _ ih =>
      rw [List.flatMap_cons, List.count_append, count_of_readsAs hread, ← ih]
      cases o with
      | none =>
        rw [List.filterMap_cons_none rfl, List.count_cons_self, Option.elim_none]
        omega
      | some e =>
        rw [List.filterMap_cons_some (f := id) rfl, List.map_cons, List.sum_cons,
          List.count_cons_of_ne (by simp), Option.elim_some, Nat.add_assoc]
  rw [hsum h, sections, flatMap_sectionsFrom]

end Clipboard.MimeType
