import Clipboard.Flavor
import Clipboard.Proofs.Mime.Written
import Clipboard.Proofs.Text.Occurrences

/-!
# The mark of the class

In a flavor's text the name of the representation stands behind `; class=`. Reading loses none of
these marks (`occurrences_le_of_readsAs`): a mark within a section is one of the name or of the value
that the section is read as, and where a section begins behind the semicolon of a mark, the class is
read.
-/

namespace Clipboard.Flavor

open MimeType (ReadsAs kept unescape unquote written listing)
open Text (occurrences)

/-- What stands before the name of the representation. -/
def classMark : List Char := ';' :: ' ' :: (classParam.toList ++ ['='])

theorem classMark_eq_cons : classMark = ';' :: " class=".toList := by decide

theorem classMark_eq_concat : classMark = "; class".toList ++ ['='] := by decide

/-- The marks that a name with the equals sign and a value hold. -/
def marks (p : String × String) : Nat :=
  occurrences classMark (p.1.toList ++ ['=']) + occurrences classMark p.2.toList

/-- A listing that ends in the class holds one mark more than its other parameters. -/
theorem sum_marks_lt_occurrences (ps : List (String × String)) (value : String) :
    (ps.map marks).sum < occurrences classMark (';' :: listing ps (classParam, value)) := by
  induction ps with
  | nil =>
    have htext : ';' :: listing [] (classParam, value)
        = classMark ++ (MimeType.showValue value).toList := by
      simp [listing, written, classMark]
    have hle := Text.occurrences_append_le classMark classMark (MimeType.showValue value).toList
    have hone : occurrences classMark classMark = 1 := by decide
    rw [htext, List.map_nil, List.sum_nil]
    omega
  | cons p ps ih =>
    have hvalue : occurrences classMark p.2.toList
        ≤ occurrences classMark (MimeType.showValue p.2).toList := by
      rcases MimeType.showValue_eq p.2 with ⟨heq, -, -⟩ | heq
      · exact Nat.le_of_eq (congrArg (occurrences classMark) heq.symm)
      · have hopen := Text.occurrences_append_le classMark ['\x22'] (p.2.toList ++ ['\x22'])
        have hclose := Text.occurrences_append_le classMark p.2.toList ['\x22']
        rw [List.singleton_append] at hopen
        rw [heq]
        omega
    have htext : ';' :: listing (p :: ps) (classParam, value)
        = [';', ' '] ++ ((p.1.toList ++ ['=']) ++ ((MimeType.showValue p.2).toList
            ++ ';' :: listing ps (classParam, value))) := by
      simp [listing, written]
    have hstart := Text.occurrences_append_le classMark [';', ' '] ((p.1.toList ++ ['='])
      ++ ((MimeType.showValue p.2).toList ++ ';' :: listing ps (classParam, value)))
    have hname := Text.occurrences_append_le classMark (p.1.toList ++ ['='])
      ((MimeType.showValue p.2).toList ++ ';' :: listing ps (classParam, value))
    have hrest := Text.occurrences_append_le classMark (MimeType.showValue p.2).toList
      (';' :: listing ps (classParam, value))
    rw [htext, List.map_cons, List.sum_cons, marks]
    omega

/-- No mark lies across the end of a section. -/
theorem occurrences_flatMap (ss : List (List Char)) :
    occurrences classMark (ss.flatMap (fun s => ';' :: s))
      = (ss.map (fun s => occurrences classMark (';' :: s))).sum := by
  induction ss with
  | nil => rfl
  | cons s ss ih =>
    rw [List.flatMap_cons, List.map_cons, List.sum_cons, ← ih]
    cases ss with
    | nil => simp [occurrences]
    | cons t ss =>
      have hcut : (t :: ss).flatMap (fun s => ';' :: s)
          = ';' :: (t ++ ss.flatMap (fun s => ';' :: s)) := rfl
      rw [hcut, classMark_eq_cons]
      exact Text.occurrences_append_cons (by decide) _ _

/-! ## Marks that are read -/

theorem occurrences_append_left {l : List Char} (h : ';' ∉ l) (cs : List Char) :
    occurrences classMark (l ++ cs) = occurrences classMark cs := by
  rw [classMark_eq_cons]
  exact Text.occurrences_append_of_first h cs

theorem occurrences_append_right {r : List Char} (h : '=' ∉ r) (cs : List Char) :
    occurrences classMark (cs ++ r) = occurrences classMark cs := by
  rw [classMark_eq_concat]
  exact Text.occurrences_append_of_last h cs

theorem occurrences_trim (cs : List Char) :
    occurrences classMark (Text.trim cs) = occurrences classMark cs := by
  obtain ⟨l, r, hl, hr, heq⟩ := Text.exists_trim cs
  have hfirst : ';' ∉ l := by
    intro hmem
    have hblank := hl _ hmem
    cases hblank
  have hlast : '=' ∉ r := by
    intro hmem
    have hblank := hr _ hmem
    cases hblank
  have htext := congrArg (occurrences classMark) heq
  rw [occurrences_append_right hlast, occurrences_append_left hfirst] at htext
  exact htext.symm

theorem occurrences_unescape (cs : List Char) :
    occurrences classMark cs ≤ occurrences classMark (unescape cs) := by
  fun_induction unescape cs with
  | case1 => exact Nat.le_refl _
  | case2 cs ih =>
    calc occurrences classMark ('\\' :: '\x22' :: cs)
      _ = occurrences classMark cs := occurrences_append_left (l := ['\\', '\x22']) (by decide) cs
      _ ≤ occurrences classMark (unescape cs) := ih
      _ = occurrences classMark ('\x22' :: unescape cs) :=
        (occurrences_append_left (l := ['\x22']) (by decide) (unescape cs)).symm
  | case3 c cs hescape ih =>
    have hunescape : unescape (c :: cs) = c :: unescape cs := by rw [unescape]; exact hescape
    have hstarts : classMark <+: c :: cs → classMark <+: c :: unescape cs := by
      rintro ⟨rest, heq⟩
      rw [← hunescape, ← heq, MimeType.unescape_append (by decide)]
      exact List.prefix_append _ _
    rw [occurrences, occurrences]
    split
    · next hmark =>
      rw [if_pos (hstarts hmark)]
      omega
    · omega

theorem occurrences_unquote (value : List Char) :
    occurrences classMark value ≤ occurrences classMark (unquote value) := by
  rcases MimeType.unquote_cases value with heq | ⟨cs, rfl, heq⟩
  · exact Nat.le_of_eq (congrArg (occurrences classMark) heq.symm)
  · have hopen := occurrences_append_left (l := ['\x22']) (by decide) (cs ++ ['\x22'])
    have hclose := occurrences_append_right (r := ['\x22']) (by decide) cs
    rw [List.singleton_append] at hopen
    rw [heq, hopen, hclose]
    exact occurrences_unescape cs

/-- A mark that a name ends in is one of the name that is kept, unless the semicolon before it is the
one before the section. -/
theorem occurrences_kept {name : List Char} (hequals : '=' ∉ name)
    (hclass : kept name ≠ classParam.toList) :
    occurrences classMark (';' :: name ++ ['=']) ≤ occurrences classMark (kept name ++ ['=']) := by
  have hbefore : '=' ∉ ';' :: name := by simp [hequals]
  have hkept : '=' ∉ kept name := by
    rw [MimeType.mem_kept_iff (by decide) (by decide)]
    exact hequals
  have hsuffix : "; class".toList <:+ ';' :: name → "; class".toList <:+ kept name := by
    intro h
    rcases List.suffix_cons_iff.mp h with heq | ⟨l, rfl⟩
    · have hname : name = " class".toList := (List.cons.inj heq).2.symm
      rw [hname] at hclass
      exact absurd (by decide) hclass
    · have htrim : Text.trim (l ++ "; class".toList) = Text.trimLeft l ++ "; class".toList :=
        Text.trim_append_ends (by decide) (by decide) l " clas".toList
      have hlower : Text.lower "; class".toList = "; class".toList := by decide
      rw [kept, htrim, Text.lower_append, hlower]
      exact List.suffix_append _ _
  rw [classMark_eq_concat, Text.occurrences_concat hbefore, Text.occurrences_concat hkept]
  split
  · next h => exact Nat.le_of_eq (if_pos (hsuffix h)).symm
  · exact Nat.zero_le _

/-- No mark of a section is lost in reading, unless the section is read as the class. -/
theorem occurrences_le_of_readsAs {s : List Char} {o : Option (String × String)} (h : ReadsAs s o)
    (hclass : ∀ value, o ≠ some (classParam, value)) :
    occurrences classMark (';' :: s) ≤ o.elim 0 marks := by
  cases h with
  | blank h =>
    have hequals : '=' ∉ ';' :: s := by
      intro hmem
      rcases List.mem_cons.mp hmem with heq | hmem
      · cases heq
      · have hblank := Text.isBlank_of_trim_eq_nil h _ hmem
        cases hblank
    rw [Text.occurrences_eq_zero (by decide) hequals]
    exact Nat.zero_le _
  | @param name value hequals hnot =>
    have hname : kept name ≠ classParam.toList := by
      intro heq
      apply hclass (String.ofList (unquote (Text.trim value)))
      rw [heq, String.ofList_toList]
    have hcut : occurrences classMark (';' :: (name ++ '=' :: value))
        = occurrences classMark (';' :: name ++ ['=']) + occurrences classMark value := by
      have htext : ';' :: (name ++ '=' :: value) = (';' :: name) ++ ['='] ++ value := by simp
      rw [htext, classMark_eq_concat, Text.occurrences_concat_append (by decide)]
    have hvalue := occurrences_unquote (Text.trim value)
    rw [occurrences_trim] at hvalue
    rw [hcut, Option.elim_some, marks, String.toList_ofList, String.toList_ofList]
    exact Nat.add_le_add (occurrences_kept hequals hname) hvalue

theorem sum_occurrences_le_of_reads {ss : List (List Char)} {os : List (Option (String × String))}
    (h : List.Forall₂ ReadsAs ss os) (hclass : ∀ value, some (classParam, value) ∉ os) :
    (ss.map (fun s => occurrences classMark (';' :: s))).sum ≤ ((os.filterMap id).map marks).sum := by
  induction h with
  | nil => exact Nat.le_refl _
  | @cons s o ss os hread _ ih =>
    have hfirst := occurrences_le_of_readsAs hread
      (fun value heq => hclass value (heq ▸ List.mem_cons_self))
    have hrest := ih (fun value hmem => hclass value (List.mem_cons_of_mem o hmem))
    rw [List.map_cons, List.sum_cons]
    cases o with
    | none =>
      rw [Option.elim_none] at hfirst
      rw [List.filterMap_cons_none rfl]
      omega
    | some e =>
      rw [Option.elim_some] at hfirst
      rw [List.filterMap_cons_some (f := id) rfl, List.map_cons, List.sum_cons]
      omega

/-- Where no more marks are read than the other parameters hold, the class is read. -/
theorem class_mem_of_reads {ps : List (String × String)} {value : String}
    {os : List (Option (String × String))}
    (h : List.Forall₂ ReadsAs (MimeType.sections (listing ps (classParam, value))) os)
    (hmarks : ((os.filterMap id).map marks).sum ≤ (ps.map marks).sum) :
    ∃ read, some (classParam, read) ∈ os := by
  by_contra hnone
  have hread := sum_occurrences_le_of_reads h (fun read hmem => hnone ⟨read, hmem⟩)
  have hwritten := sum_marks_lt_occurrences ps value
  rw [← occurrences_flatMap, MimeType.sections, MimeType.flatMap_sectionsFrom] at hread
  omega

end Clipboard.Flavor
