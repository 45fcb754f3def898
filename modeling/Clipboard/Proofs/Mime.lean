import Clipboard.Mime
import Clipboard.Proofs.Dictionary
import Clipboard.Proofs.Text
import Mathlib.Data.List.Forall2

/-!
# MIME types read

`through` follows the cutting of a text at semicolons over a part that is not cut, so that sections
are found one by one (`sectionsFrom_cases`), and a part that the cutting leaves outside quotes is a
section wherever a semicolon is behind it (`sections_append`).

`ReadsAs` says what a section is read as: nothing if it is blank, and otherwise a name and a value.
A text is read exactly if all its sections are (`ofChars?_eq_some_iff`).
-/

namespace Clipboard.MimeType

/-! ## Tokens -/

theorem isTokenChar_toLower (c : Char) : isTokenChar c.toLower = isTokenChar c :=
  Text.apply_toLower (by decide) c

theorem isToken_lower (cs : List Char) : isToken (Text.lower cs) = isToken cs := by
  have hcomp : isTokenChar ∘ Char.toLower = isTokenChar := funext isTokenChar_toLower
  unfold isToken Text.lower
  rw [List.all_map, hcomp]

/-- A separator is no character of a token. -/
theorem not_mem_of_isToken {cs : List Char} (h : isToken cs = true) {c : Char}
    (hc : isTokenChar c = false) : c ∉ cs := by
  intro hmem
  have htoken := List.all_eq_true.mp h c hmem
  rw [hc] at htoken
  cases htoken

theorem not_isBlank_of_isTokenChar {c : Char} (h : isTokenChar c = true) : Text.isBlank c = false := by
  unfold isTokenChar at h
  simp only [Bool.and_eq_true, decide_eq_true_eq] at h
  unfold Text.isBlank
  simp only [Bool.or_eq_false_iff, Bool.and_eq_false_iff, decide_eq_false_iff_not, beq_eq_false_iff_ne]
  omega

theorem trim_of_isToken {cs : List Char} (h : isToken cs = true) : Text.trim cs = cs :=
  Text.trim_of_visible (fun c hc => not_isBlank_of_isTokenChar (List.all_eq_true.mp h c hc))

/-! ## Cutting -/

/-- Where the cutting stands behind a character at which it does not cut. -/
def Quoting.next : Quoting → Char → Quoting
  | .escaped, _ => .inside
  | .inside, c => if c = '\\' then .escaped else if c = '\x22' then .outside else .inside
  | .outside, c => if c = '\x22' then .inside else .outside

/-- Where the cutting stands behind a text; nothing if it cuts the text. -/
def through : Quoting → List Char → Option Quoting
  | q, [] => some q
  | q, c :: cs => if q = .outside ∧ c = ';' then none else through (q.next c) cs

theorem through_append (q : Quoting) (front rest : List Char) :
    through q (front ++ rest) = (through q front).bind (through · rest) := by
  induction front generalizing q with
  | nil => rfl
  | cons c front ih =>
    rw [List.cons_append, through, through]
    split
    · rfl
    · exact ih _

/-- Without quotes and semicolons the cutting stays outside. -/
theorem through_plain {cs : List Char} (h : ∀ c ∈ cs, c ≠ '\x22' ∧ c ≠ ';') :
    through .outside cs = some .outside := by
  induction cs with
  | nil => rfl
  | cons c cs ih =>
    obtain ⟨hquote, hsemicolon⟩ := h c List.mem_cons_self
    have hrest := ih (fun d hd => h d (List.mem_cons_of_mem c hd))
    rw [through, if_neg (fun hcut => hsemicolon hcut.2), Quoting.next, if_neg hquote, hrest]

theorem through_of_isToken {cs : List Char} (h : isToken cs = true) :
    through .outside cs = some .outside := by
  apply through_plain
  intro c hc
  constructor
  · rintro rfl
    exact not_mem_of_isToken h (by decide) hc
  · rintro rfl
    exact not_mem_of_isToken h (by decide) hc

/-- Without quotes and backslashes it stays inside. -/
theorem through_inside {cs : List Char} (hquote : '\x22' ∉ cs) (hbackslash : '\\' ∉ cs) :
    through .inside cs = some .inside := by
  induction cs with
  | nil => rfl
  | cons c cs ih =>
    rw [List.mem_cons, not_or] at hquote hbackslash
    rw [through, if_neg (by simp), Quoting.next, if_neg (Ne.symm hbackslash.1),
      if_neg (Ne.symm hquote.1), ih hquote.2 hbackslash.2]

/-- A text without quotes and backslashes is not cut between quotes. -/
theorem through_quoted {cs : List Char} (hquote : '\x22' ∉ cs) (hbackslash : '\\' ∉ cs) :
    through .outside ('\x22' :: (cs ++ ['\x22'])) = some .outside := by
  have hopen : through .outside ('\x22' :: (cs ++ ['\x22'])) = through .inside (cs ++ ['\x22']) := rfl
  rw [hopen, through_append, through_inside hquote hbackslash]
  rfl

/-- What is put before the first section of a text. -/
def onto (front : List Char) : List (List Char) → List (List Char)
  | [] => [front]
  | s :: ss => (front ++ s) :: ss

theorem sectionsFrom_cons (q : Quoting) (c : Char) (cs : List Char) :
    sectionsFrom q (c :: cs)
      = if q = .outside ∧ c = ';' then [] :: sectionsFrom .outside cs
        else onto [c] (sectionsFrom (q.next c) cs) := by
  cases q with
  | escaped =>
    rw [if_neg (by simp), sectionsFrom, Quoting.next]
    cases sectionsFrom .inside cs <;> rfl
  | inside =>
    rw [if_neg (by simp), sectionsFrom, Quoting.next]
    simp only
    split
    · cases sectionsFrom .escaped cs <;> rfl
    · split
      · cases sectionsFrom .outside cs <;> rfl
      · cases sectionsFrom .inside cs <;> rfl
  | outside =>
    rw [sectionsFrom, Quoting.next]
    simp only
    split
    · next hquote =>
      rw [if_neg (by simp [hquote])]
      cases sectionsFrom .inside cs <;> rfl
    · split
      · next hcut => simp [hcut]
      · next hcut =>
        rw [if_neg (fun h => hcut h.2)]
        cases sectionsFrom .outside cs <;> rfl

theorem sectionsFrom_ne_nil (q : Quoting) (cs : List Char) : sectionsFrom q cs ≠ [] := by
  cases cs with
  | nil => simp [sectionsFrom]
  | cons c cs =>
    rw [sectionsFrom_cons]
    split
    · exact List.cons_ne_nil _ _
    · cases sectionsFrom (q.next c) cs <;> exact List.cons_ne_nil _ _

theorem onto_nil {ss : List (List Char)} (h : ss ≠ []) : onto [] ss = ss := by
  cases ss with
  | nil => exact absurd rfl h
  | cons s ss => rfl

theorem onto_append (front middle : List Char) (ss : List (List Char)) :
    onto front (onto middle ss) = onto (front ++ middle) ss := by
  cases ss with
  | nil => rfl
  | cons s ss => simp [onto]

/-- A part that is not cut goes before the sections of what is behind it. -/
theorem sectionsFrom_append {q after : Quoting} {front : List Char}
    (h : through q front = some after) (rest : List Char) :
    sectionsFrom q (front ++ rest) = onto front (sectionsFrom after rest) := by
  induction front generalizing q with
  | nil =>
    cases h
    rw [List.nil_append, onto_nil (sectionsFrom_ne_nil _ rest)]
  | cons c front ih =>
    rw [through] at h
    split at h
    · cases h
    · next hcut =>
      rw [List.cons_append, sectionsFrom_cons, if_neg hcut, ih h, onto_append]
      rfl

/-- A text that is not cut is one section. -/
theorem sectionsFrom_of_through {q after : Quoting} {cs : List Char} (h : through q cs = some after) :
    sectionsFrom q cs = [cs] := by
  have hsections := sectionsFrom_append h []
  rw [List.append_nil] at hsections
  rw [hsections, sectionsFrom]
  simp [onto]

/-- A part that the cutting leaves outside quotes is a section if a semicolon is behind it. -/
theorem sections_append {front : List Char} (h : through .outside front = some .outside)
    (rest : List Char) : sections (front ++ ';' :: rest) = front :: sections rest := by
  unfold sections
  rw [sectionsFrom_append h, sectionsFrom_cons, if_pos ⟨rfl, rfl⟩]
  simp [onto]

/-- A text is not cut, or it is cut at a semicolon behind its first section. -/
theorem sectionsFrom_cases (q : Quoting) (cs : List Char) :
    sectionsFrom q cs = [cs] ∨
      ∃ front rest, cs = front ++ ';' :: rest ∧ through q front = some .outside ∧
        sectionsFrom q cs = front :: sections rest := by
  induction cs generalizing q with
  | nil => exact Or.inl rfl
  | cons c cs ih =>
    rw [sectionsFrom_cons]
    split
    · next hcut =>
      obtain ⟨rfl, rfl⟩ := hcut
      exact Or.inr ⟨[], cs, rfl, rfl, rfl⟩
    · next hcut =>
      rcases ih (q.next c) with hwhole | ⟨front, rest, rfl, hthrough, hsections⟩
      · exact Or.inl (by rw [hwhole]; rfl)
      · refine Or.inr ⟨c :: front, rest, rfl, ?_, ?_⟩
        · rw [through, if_neg hcut, hthrough]
        · rw [hsections]
          rfl

/-- The sections with a semicolon before each are the text with a semicolon before it. -/
theorem flatMap_sectionsFrom (q : Quoting) (cs : List Char) :
    (sectionsFrom q cs).flatMap (fun s => ';' :: s) = ';' :: cs := by
  induction cs generalizing q with
  | nil => rfl
  | cons c cs ih =>
    rw [sectionsFrom_cons]
    split
    · next hcut =>
      rw [List.flatMap_cons, ih, hcut.2]
      rfl
    · have hrest := ih (q.next c)
      cases hsections : sectionsFrom (q.next c) cs with
      | nil => exact absurd hsections (sectionsFrom_ne_nil _ _)
      | cons s ss =>
        rw [hsections, List.flatMap_cons, List.cons_append] at hrest
        rw [onto, List.flatMap_cons, List.singleton_append, List.cons_append, List.cons_append,
          (List.cons.inj hrest).2]

/-! ## Quotes -/

theorem unescape_append {front : List Char} (h : '\\' ∉ front) (rest : List Char) :
    unescape (front ++ rest) = front ++ unescape rest := by
  induction front with
  | nil => rfl
  | cons c front ih =>
    rw [List.mem_cons, not_or] at h
    rw [List.cons_append, unescape, ih h.2, List.cons_append]
    rintro rest rfl
    exact absurd rfl h.1

theorem unescape_of_not_mem {cs : List Char} (h : '\\' ∉ cs) : unescape cs = cs := by
  have happend := unescape_append h []
  rwa [unescape, List.append_nil] at happend

theorem unquote_quoted (cs : List Char) : unquote ('\x22' :: (cs ++ ['\x22'])) = unescape cs := by
  simp [unquote]

/-- A value is taken as it is, or from between two quotes. -/
theorem unquote_cases (value : List Char) :
    unquote value = value ∨
      ∃ cs, value = '\x22' :: (cs ++ ['\x22']) ∧ unquote value = unescape cs := by
  unfold unquote
  split
  · next rest =>
    split
    · next hlast =>
      have hne : rest ≠ [] := by
        rintro rfl
        cases hlast
      refine Or.inr ⟨rest.dropLast, ?_, rfl⟩
      rw [List.getLast?_eq_some_getLast hne, Option.some_inj] at hlast
      rw [← hlast, List.dropLast_append_getLast]
    · exact Or.inl rfl
  · exact Or.inl rfl

/-- A value that does not begin with a quote is taken as it is. -/
theorem unquote_of_not_mem {cs : List Char} (h : '\x22' ∉ cs) : unquote cs = cs := by
  unfold unquote
  split
  · exact absurd List.mem_cons_self h
  · rfl

/-- What is no backslash is as often in a text without the backslashes before quotes. -/
theorem count_unescape {c : Char} (hbackslash : c ≠ '\\') (cs : List Char) :
    (unescape cs).count c = cs.count c := by
  fun_induction unescape cs with
  | case1 => rfl
  | case2 cs ih => rw [List.count_cons, List.count_cons_of_ne hbackslash.symm, List.count_cons, ih]
  | case3 d cs _ ih => rw [List.count_cons, List.count_cons, ih]

theorem count_unquote {c : Char} (hquote : c ≠ '\x22') (hbackslash : c ≠ '\\')
    (value : List Char) : (unquote value).count c = value.count c := by
  rcases unquote_cases value with heq | ⟨cs, rfl, heq⟩
  · rw [heq]
  · rw [heq, count_unescape hbackslash, List.count_cons_of_ne hquote.symm, List.count_append,
      List.count_singleton, if_neg (by simpa using hquote.symm)]
    rfl

/-! ## Reading a section -/

/-- A type, a subtype or a name as it is kept: without white space around it and in lower case. -/
def kept (cs : List Char) : List Char := Text.lower (Text.trim cs)

/-- What is kept is kept as it is. -/
theorem kept_kept (cs : List Char) : kept (kept cs) = kept cs := by
  unfold kept
  rw [Text.trim_lower, Text.trim_trim, Text.lower_lower]

/-- What is neither white space nor a letter is kept. -/
theorem count_kept {c : Char} (hblank : Text.isBlank c = false)
    (h : ∀ n ∈ List.range' 65 26, ((Char.ofNat n).toLower == c) = (Char.ofNat n == c))
    (cs : List Char) : (kept cs).count c = cs.count c := by
  rw [kept, Text.count_lower h, Text.count_trim hblank]

theorem mem_kept_iff {c : Char} (hblank : Text.isBlank c = false)
    (h : ∀ n ∈ List.range' 65 26, ((Char.ofNat n).toLower == c) = (Char.ofNat n == c))
    {cs : List Char} : c ∈ kept cs ↔ c ∈ cs := by
  rw [← List.count_pos_iff, count_kept hblank h, List.count_pos_iff]

/-- What a section is read as: nothing if it is blank, and otherwise a name and a value. -/
inductive ReadsAs : List Char → Option (String × String) → Prop
  | blank {s : List Char} (h : Text.trim s = []) : ReadsAs s none
  | param {name value : List Char} (hname : '=' ∉ name) (hnot : kept name ≠ []) :
    ReadsAs (name ++ '=' :: value)
      (some (String.ofList (kept name), String.ofList (unquote (Text.trim value))))

theorem paramsFrom_blank {s : List Char} (h : Text.trim s = []) (ss : List (List Char)) (ps : Params) :
    paramsFrom ps (s :: ss) = paramsFrom ps ss := by
  rw [paramsFrom, h]
  rfl

theorem trim_ne_nil_of_mem {s : List Char} {c : Char} (h : c ∈ s) (hc : Text.isBlank c = false) :
    Text.trim s ≠ [] := by
  intro hnil
  have hblank := Text.isBlank_of_trim_eq_nil hnil c h
  rw [hc] at hblank
  cases hblank

/-- The parameter that a section holds, and then those of the sections behind it. -/
theorem paramsFrom_param {name : List Char} (value : List Char) (hname : '=' ∉ name)
    (hnot : kept name ≠ []) (ss : List (List Char)) (ps : Params) :
    paramsFrom ps ((name ++ '=' :: value) :: ss)
      = paramsFrom (Dictionary.insert (String.ofList (kept name))
          (String.ofList (unquote (Text.trim value))) ps) ss := by
  have hsection : Text.trim (name ++ '=' :: value) ≠ [] :=
    trim_ne_nil_of_mem (List.mem_append_right name List.mem_cons_self) (by decide)
  unfold kept at *
  rw [paramsFrom, if_neg (by simpa using hsection), Text.splitAtFirst_append hname]
  simp only [Option.bind_eq_bind, Option.bind_some]
  rw [if_neg (by simpa using hnot)]

/-- What the first section is read as, if the sections are read at all. -/
theorem of_paramsFrom_cons {s : List Char} {ss : List (List Char)} {ps qs : Params}
    (h : paramsFrom ps (s :: ss) = some qs) : ∃ o, ReadsAs s o ∧
      paramsFrom (o.elim ps (fun p => Dictionary.insert p.1 p.2 ps)) ss = some qs := by
  by_cases hblank : Text.trim s = []
  · rw [paramsFrom_blank hblank] at h
    exact ⟨none, .blank hblank, h⟩
  · rw [paramsFrom, if_neg (by simpa using hblank)] at h
    obtain ⟨⟨name, value⟩, hsplit, hrest⟩ := Option.bind_eq_some_iff.mp h
    obtain ⟨rfl, hname⟩ := Text.splitAtFirst_eq_some_iff.mp hsplit
    simp only at hrest
    split at hrest
    · cases hrest
    · next hnot => exact ⟨_, .param hname (by simpa [kept] using hnot), hrest⟩

/-- The parameters that sections are read as, each added to those before. -/
theorem paramsFrom_eq_some_iff {ss : List (List Char)} {ps qs : Params} :
    paramsFrom ps ss = some qs ↔
      ∃ os, List.Forall₂ ReadsAs ss os ∧
        qs = (os.filterMap id).foldl (fun d p => Dictionary.insert p.1 p.2 d) ps := by
  constructor
  · intro h
    induction ss generalizing ps with
    | nil =>
      cases h
      exact ⟨[], .nil, rfl⟩
    | cons s ss ih =>
      obtain ⟨o, hread, h⟩ := of_paramsFrom_cons h
      obtain ⟨os, hreads, rfl⟩ := ih h
      refine ⟨o :: os, .cons hread hreads, ?_⟩
      cases o <;> rfl
  · rintro ⟨os, hreads, rfl⟩
    induction hreads generalizing ps with
    | nil => rfl
    | cons hread _ ih =>
      cases hread with
      | blank hblank => rw [paramsFrom_blank hblank, ih]; rfl
      | param hname hnot => rw [paramsFrom_param _ hname hnot, ih]; rfl

/-! ## Reading a text -/

/-- The text is a token that is not empty. -/
def IsName (cs : List Char) : Prop := cs ≠ [] ∧ isToken cs = true

instance (cs : List Char) : Decidable (IsName cs) := inferInstanceAs (Decidable (_ ∧ _))

/-- What the sections of a text are read as. -/
structure Reading (cs : List Char) (m : MimeType) (primary subtype : List Char)
    (ss : List (List Char)) (os : List (Option (String × String))) : Prop where
  sections_eq : sections cs = (primary ++ '/' :: subtype) :: ss
  no_slash : '/' ∉ primary
  primary_isName : IsName (kept primary)
  subtype_isName : IsName (kept subtype)
  reads : List.Forall₂ ReadsAs ss os
  eq : m =
    { primary := String.ofList (kept primary)
      subtype := String.ofList (kept subtype)
      params := Dictionary.ofList (os.filterMap id) }

/-- A text is read if its first section is a type and a subtype and the others are parameters. -/
theorem ofChars?_eq_some_iff {cs : List Char} {m : MimeType} :
    ofChars? cs = some m ↔ ∃ primary subtype ss os, Reading cs m primary subtype ss os := by
  constructor
  · intro h
    unfold ofChars? at h
    split at h
    · cases h
    · next base ss hsections =>
      obtain ⟨⟨primary, subtype⟩, hsplit, hbase⟩ := Option.bind_eq_some_iff.mp h
      obtain ⟨rfl, hslash⟩ := Text.splitAtFirst_eq_some_iff.mp hsplit
      simp only at hbase
      split at hbase
      · cases hbase
      · next hnames =>
        obtain ⟨params, hparams, hm⟩ := Option.bind_eq_some_iff.mp hbase
        obtain ⟨os, hreads, rfl⟩ := paramsFrom_eq_some_iff.mp hparams
        cases hm
        simp only [Bool.or_eq_true, List.isEmpty_iff, Bool.not_eq_true', not_or,
          Bool.not_eq_false] at hnames
        obtain ⟨⟨⟨hprimary, hsubtype⟩, hprimaryToken⟩, hsubtypeToken⟩ := hnames
        exact ⟨primary, subtype, ss, os, hsections, hslash, ⟨hprimary, hprimaryToken⟩,
          ⟨hsubtype, hsubtypeToken⟩, hreads, rfl⟩
  · rintro ⟨primary, subtype, ss, os, h⟩
    have hparams : paramsFrom [] ss = some (Dictionary.ofList (os.filterMap id)) :=
      paramsFrom_eq_some_iff.mpr ⟨os, h.reads, rfl⟩
    unfold ofChars?
    rw [h.sections_eq]
    simp only [Text.splitAtFirst_append h.no_slash, Option.bind_eq_bind, Option.bind_some, hparams]
    obtain ⟨hprimary, hprimaryToken⟩ := h.primary_isName
    obtain ⟨hsubtype, hsubtypeToken⟩ := h.subtype_isName
    unfold kept at hprimary hprimaryToken hsubtype hsubtypeToken
    rw [if_neg (by simp [hprimary, hsubtype, hprimaryToken, hsubtypeToken]), h.eq]
    rfl

end Clipboard.MimeType
