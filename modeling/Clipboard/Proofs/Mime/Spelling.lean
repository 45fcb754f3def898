import Clipboard.Proofs.Mime

/-!
# Spellings of a MIME type

A type can be written in many ways: in either letter case, its parameters in any order, with white
space around the separators and with empty parameters (`Spells`). All of them are read as the same
type, and each name is bound to its value to the letter (`parse?_spelling`).
-/

namespace Clipboard.MimeType

/-! ## Words -/

/-- The word with white space around it. -/
def Padded (word cs : List Char) : Prop :=
  ∃ l r, Text.IsBlank l ∧ Text.IsBlank r ∧ cs = l ++ word ++ r

theorem Padded.trim_eq {word cs : List Char} (h : Padded word cs) : Text.trim cs = Text.trim word := by
  obtain ⟨l, r, hl, hr, rfl⟩ := h
  exact Text.trim_append_append hl hr word

/-- A name is written with white space around it and in either case. -/
def SpellsName (name cs : List Char) : Prop :=
  ∃ word, Text.lower word = Text.lower name ∧ Padded word cs

section SpellsName

variable {name cs : List Char} (h : SpellsName name cs) (hname : IsName name)
include h hname

theorem SpellsName.kept_eq : kept cs = Text.lower name := by
  obtain ⟨word, hlower, hpadded⟩ := h
  have htoken : isToken word = true := by
    rw [← isToken_lower, hlower, isToken_lower]
    exact hname.2
  unfold kept
  rw [hpadded.trim_eq, trim_of_isToken htoken, hlower]

theorem SpellsName.isName_kept : IsName (kept cs) := by
  rw [h.kept_eq hname]
  refine ⟨fun hnil => hname.1 (List.map_eq_nil_iff.mp hnil), ?_⟩
  rw [isToken_lower]
  exact hname.2

/-- There are only white space and characters of tokens in a name. -/
theorem SpellsName.not_mem {c : Char} (hc : isTokenChar c = false) (hblank : Text.isBlank c = false) :
    c ∉ cs := by
  obtain ⟨word, hlower, l, r, hl, hr, rfl⟩ := h
  have htoken : isToken word = true := by
    rw [← isToken_lower, hlower, isToken_lower]
    exact hname.2
  have hl : c ∉ l := by
    intro hmem
    rw [hl c hmem] at hblank
    cases hblank
  have hr : c ∉ r := by
    intro hmem
    rw [hr c hmem] at hblank
    cases hblank
  simp [hl, hr, not_mem_of_isToken htoken hc]

theorem SpellsName.through : through .outside cs = some .outside := by
  apply through_plain
  intro c hc
  constructor
  · rintro rfl
    exact h.not_mem hname (by decide) (by decide) hc
  · rintro rfl
    exact h.not_mem hname (by decide) (by decide) hc

end SpellsName

/-! ## Values -/

/-- A token is written as it is, and a text without quotes and backslashes between quotes. -/
inductive WritesValue (value : List Char) : List Char → Prop
  | token (h : isToken value = true) : WritesValue value value
  | quoted (hquote : '\x22' ∉ value) (hbackslash : '\\' ∉ value) :
    WritesValue value ('\x22' :: (value ++ ['\x22']))

section WritesValue

variable {value cs : List Char} (h : WritesValue value cs)
include h

theorem WritesValue.trim_eq : Text.trim cs = cs := by
  cases h with
  | token htoken => exact trim_of_isToken htoken
  | quoted => exact Text.trim_of_ends (by decide) (by decide) value

theorem WritesValue.unquote_eq : unquote cs = value := by
  cases h with
  | token htoken => exact unquote_of_not_mem (not_mem_of_isToken htoken (by decide))
  | quoted hquote hbackslash => rw [unquote_quoted, unescape_of_not_mem hbackslash]

/-- A semicolon between quotes is no place to cut at. -/
theorem WritesValue.through_eq : through .outside cs = some .outside := by
  cases h with
  | token htoken => exact through_of_isToken htoken
  | quoted hquote hbackslash => exact through_quoted hquote hbackslash

end WritesValue

/-! ## Parameters -/

theorem through_isBlank {cs : List Char} (h : Text.IsBlank cs) : through .outside cs = some .outside := by
  apply through_plain
  intro c hc
  have hblank := h c hc
  constructor <;> rintro rfl <;> cases hblank

/-- A name, an equals sign and a value, with white space around the name and the value. -/
def SpellsParam (p : String × String) (cs : List Char) : Prop :=
  ∃ name value written, SpellsName p.1.toList name ∧ WritesValue p.2.toList written ∧
    Padded written value ∧ cs = name ++ '=' :: value

/-- The parameter under the name that is kept. -/
def keptParam (p : String × String) : String × String := (String.ofList (Text.lower p.1.toList), p.2)

theorem SpellsParam.readsAs {p : String × String} {cs : List Char} (h : SpellsParam p cs)
    (hname : IsName p.1.toList) : ReadsAs cs (some (keptParam p)) := by
  obtain ⟨name, value, written, hspells, hwrites, hpadded, rfl⟩ := h
  have hvalue : unquote (Text.trim value) = p.2.toList := by
    rw [hpadded.trim_eq, hwrites.trim_eq, hwrites.unquote_eq]
  have hread : ReadsAs (name ++ '=' :: value)
      (some (String.ofList (kept name), String.ofList (unquote (Text.trim value)))) :=
    .param (hspells.not_mem hname (by decide) (by decide)) (hspells.isName_kept hname).1
  rw [hvalue, hspells.kept_eq hname, String.ofList_toList] at hread
  exact hread

theorem SpellsParam.through_eq {p : String × String} {cs : List Char} (h : SpellsParam p cs)
    (hname : IsName p.1.toList) : through .outside cs = some .outside := by
  obtain ⟨name, value, written, hspells, hwrites, ⟨l, r, hl, hr, rfl⟩, rfl⟩ := h
  have hequals : through .outside ['='] = some .outside := rfl
  have hsplit : name ++ '=' :: (l ++ written ++ r) = name ++ (['='] ++ (l ++ (written ++ r))) := by
    simp
  rw [hsplit, through_append, hspells.through hname, Option.bind_some, through_append, hequals,
    Option.bind_some, through_append, through_isBlank hl, Option.bind_some, through_append,
    hwrites.through_eq, Option.bind_some, through_isBlank hr]

/-- Parameters in this order, each behind a semicolon, and empty ones in between. -/
inductive SpellsParams : List (String × String) → List Char → Prop
  | nil : SpellsParams [] []
  | empty {ps : List (String × String)} {blank rest : List Char} (hblank : Text.IsBlank blank)
    (hrest : SpellsParams ps rest) : SpellsParams ps (';' :: (blank ++ rest))
  | param {p : String × String} {ps : List (String × String)} {cs rest : List Char}
    (hparam : SpellsParam p cs) (hrest : SpellsParams ps rest) :
    SpellsParams (p :: ps) (';' :: (cs ++ rest))

/-- The sections behind the first one are the parameters, and each is read as it is meant. -/
theorem SpellsParams.exists_reads {ps : List (String × String)} {rest : List Char}
    (h : SpellsParams ps rest) (hnames : ∀ p ∈ ps, IsName p.1.toList) :
    ∃ ss os, (∀ base, through .outside base = some .outside → sections (base ++ rest) = base :: ss) ∧
      List.Forall₂ ReadsAs ss os ∧ os.filterMap id = ps.map keptParam := by
  induction h with
  | nil =>
    refine ⟨[], [], ?_, .nil, rfl⟩
    intro base hbase
    rw [List.append_nil]
    exact sectionsFrom_of_through hbase
  | @empty ps blank rest hblank hrest ih =>
    obtain ⟨ss, os, hsections, hreads, heq⟩ := ih hnames
    refine ⟨blank :: ss, none :: os, ?_, .cons (.blank (Text.trim_of_isBlank hblank)) hreads, heq⟩
    intro base hbase
    rw [sections_append hbase, hsections blank (through_isBlank hblank)]
  | @param p ps cs rest hparam hrest ih =>
    have hname := hnames p List.mem_cons_self
    obtain ⟨ss, os, hsections, hreads, heq⟩ := ih (fun q hq => hnames q (List.mem_cons_of_mem p hq))
    refine ⟨cs :: ss, some (keptParam p) :: os, ?_, .cons (hparam.readsAs hname) hreads, ?_⟩
    · intro base hbase
      rw [sections_append hbase, hsections cs (hparam.through_eq hname)]
    · rw [List.filterMap_cons_some (by rfl), heq, List.map_cons]

/-! ## Types -/

/-- A type, a slash and a subtype, and the parameters in any order. -/
def Spells (primary subtype : String) (params : List (String × String)) (s : String) : Prop :=
  ∃ first second ps rest, SpellsName primary.toList first ∧ SpellsName subtype.toList second ∧
    ps.Perm params ∧ SpellsParams ps rest ∧ s.toList = first ++ '/' :: second ++ rest

/-- The type that is meant. -/
def meant (primary subtype : String) (params : List (String × String)) : MimeType where
  primary := String.ofList (Text.lower primary.toList)
  subtype := String.ofList (Text.lower subtype.toList)
  params := Dictionary.ofList (params.map keptParam)

theorem parse?_of_spells {primary subtype : String} {params : List (String × String)} {s : String}
    (h : Spells primary subtype params s) (hprimary : IsName primary.toList)
    (hsubtype : IsName subtype.toList) (hnames : ∀ p ∈ params, IsName p.1.toList)
    (hdistinct : (params.map (fun p => (keptParam p).1)).Nodup) :
    parse? s = some (meant primary subtype params) := by
  obtain ⟨first, second, ps, rest, hfirst, hsecond, hperm, hparams, hs⟩ := h
  obtain ⟨ss, os, hsections, hreads, heq⟩ :=
    hparams.exists_reads (fun p hp => hnames p (hperm.mem_iff.mp hp))
  have hbase : through .outside (first ++ '/' :: second) = some .outside := by
    have hslash : through .outside ['/'] = some .outside := rfl
    rw [← List.singleton_append, through_append, hfirst.through hprimary, Option.bind_some,
      through_append, hslash, Option.bind_some, hsecond.through hsubtype]
  have hdict : Dictionary.ofList (os.filterMap id) = Dictionary.ofList (params.map keptParam) := by
    rw [heq]
    apply Dictionary.ofList_perm (hperm.map keptParam)
    rw [List.map_map]
    exact (hperm.map _).nodup_iff.mpr hdistinct
  unfold parse?
  rw [hs]
  refine ofChars?_eq_some_iff.mpr ⟨first, second, ss, os, hsections _ hbase,
    hfirst.not_mem hprimary (by decide) (by decide), hfirst.isName_kept hprimary,
    hsecond.isName_kept hsubtype, hreads, ?_⟩
  rw [hfirst.kept_eq hprimary, hsecond.kept_eq hsubtype, hdict]
  rfl

/-- **The spelling of a type makes no difference.** There is one type that all texts of a type, a
subtype and parameters of different names are read as: with the type, the subtype and the names in
lower case, each name bound to its value to the letter, and nothing else bound. -/
theorem parse?_spelling {primary subtype : String} {params : List (String × String)}
    (hprimary : IsName primary.toList) (hsubtype : IsName subtype.toList)
    (hnames : ∀ p ∈ params, IsName p.1.toList)
    (hdistinct : (params.map (fun p => String.ofList (Text.lower p.1.toList))).Nodup) :
    ∃ m : MimeType, (∀ s, Spells primary subtype params s → parse? s = some m) ∧
      m.primary = String.ofList (Text.lower primary.toList) ∧
      m.subtype = String.ofList (Text.lower subtype.toList) ∧
      ∀ name value, m.param? name = some value ↔
        ∃ p ∈ params, name = String.ofList (Text.lower p.1.toList) ∧ value = p.2 := by
  refine ⟨meant primary subtype params, ?_, rfl, rfl, ?_⟩
  · intro s hs
    exact parse?_of_spells hs hprimary hsubtype hnames hdistinct
  · intro name value
    have hnodup : ((params.map keptParam).map Prod.fst).Nodup := by
      rw [List.map_map]
      exact hdistinct
    have hiff : (Dictionary.ofList (params.map keptParam)).find? name = some value ↔ _ :=
      Dictionary.find?_ofList_eq_some_iff hnodup
    unfold param? meant
    rw [hiff]
    simp [keptParam, Prod.ext_iff, eq_comm]

def noted : List (String × String) := [("Note", "a; b=c "), ("x", "y")]

theorem spells_noted : Spells "text" "plain" noted "text/plain; note=\"a; b=c \"; x=y" := by
  have hnote : SpellsParam ("Note", "a; b=c ") " note=\"a; b=c \"".toList :=
    ⟨" note".toList, "\"a; b=c \"".toList, "\"a; b=c \"".toList,
      ⟨"note".toList, by decide, [' '], [], by decide, by decide, by decide⟩,
      .quoted (by decide) (by decide), ⟨[], [], by decide, by decide, by decide⟩, by decide⟩
  have hx : SpellsParam ("x", "y") " x=y".toList :=
    ⟨" x".toList, "y".toList, "y".toList,
      ⟨"x".toList, by decide, [' '], [], by decide, by decide, by decide⟩,
      .token (by decide), ⟨[], [], by decide, by decide, by decide⟩, by decide⟩
  exact ⟨"text".toList, "plain".toList, noted, _,
    ⟨"text".toList, rfl, [], [], by decide, by decide, by decide⟩,
    ⟨"plain".toList, rfl, [], [], by decide, by decide, by decide⟩, .refl _,
    .param hnote (.param hx .nil), by decide⟩

/-- Other letter case, another order, white space and empty parameters. -/
theorem spells_noted_otherwise :
    Spells "text" "plain" noted " TEXT / Plain ;; X = \"y\";NOTE =\"a; b=c \" ;" := by
  have hnote : SpellsParam ("Note", "a; b=c ") "NOTE =\"a; b=c \" ".toList :=
    ⟨"NOTE ".toList, "\"a; b=c \" ".toList, "\"a; b=c \"".toList,
      ⟨"NOTE".toList, by decide, [], [' '], by decide, by decide, by decide⟩,
      .quoted (by decide) (by decide), ⟨[], [' '], by decide, by decide, by decide⟩, by decide⟩
  have hx : SpellsParam ("x", "y") " X = \"y\"".toList :=
    ⟨" X ".toList, " \"y\"".toList, "\"y\"".toList,
      ⟨"X".toList, by decide, [' '], [' '], by decide, by decide, by decide⟩,
      .quoted (by decide) (by decide), ⟨[' '], [], by decide, by decide, by decide⟩, by decide⟩
  have hblank : Text.IsBlank [] := by decide
  exact ⟨" TEXT ".toList, " Plain ".toList, [("x", "y"), ("Note", "a; b=c ")], _,
    ⟨"TEXT".toList, by decide, [' '], [' '], by decide, by decide, by decide⟩,
    ⟨"Plain".toList, by decide, [' '], [' '], by decide, by decide, by decide⟩, .swap _ _ _,
    .empty hblank (.param hx (.param hnote (.empty hblank .nil))), by decide⟩

theorem parse?_spelling_noted :
    IsName "text".toList ∧ IsName "plain".toList ∧ (∀ p ∈ noted, IsName p.1.toList) ∧
      (noted.map (fun p => String.ofList (Text.lower p.1.toList))).Nodup ∧
      ∃ m : MimeType, parse? "text/plain; note=\"a; b=c \"; x=y" = some m ∧
        parse? " TEXT / Plain ;; X = \"y\";NOTE =\"a; b=c \" ;" = some m ∧
        m.param? "note" = some "a; b=c " := by
  have hprimary : IsName "text".toList := by decide
  have hsubtype : IsName "plain".toList := by decide
  have hnames : ∀ p ∈ noted, IsName p.1.toList := by decide
  have hdistinct : (noted.map (fun p => String.ofList (Text.lower p.1.toList))).Nodup := by decide
  obtain ⟨m, hread, -, -, hbound⟩ := parse?_spelling hprimary hsubtype hnames hdistinct
  exact ⟨hprimary, hsubtype, hnames, hdistinct, m, hread _ spells_noted,
    hread _ spells_noted_otherwise,
    (hbound _ _).mpr ⟨("Note", "a; b=c "), List.mem_cons_self, by decide, rfl⟩⟩

end Clipboard.MimeType
