import Clipboard.Proofs.CharReader.Written
import Clipboard.Proofs.Reencoder

/-!
# Native texts there and back

A format is `Faithful` to a charset if its line end can be found again and its terminator is a code
unit of the charset, and a text is `Storable` in it if the charset keeps its characters and nothing in
it looks like the line end or the terminator. `decode_stored` says that such a text is read back from
its bytes, whatever stands behind the terminator, and `contentOf_stored` that it is read back piece
by piece.

The terminator is found where it was put since the bytes of the text are `Unterminated`: cut into
units, none of them is zero.
-/

namespace Clipboard

namespace NativeText

/-! ## The terminator -/

/-- Bytes in units of `n`, none of which is zero. -/
inductive Unterminated (n : Nat) : Bytes → Prop where
  | nil : Unterminated n []
  | cons {unit rest : Bytes} : unit.length = n → (∃ b ∈ unit, b ≠ 0) → Unterminated n rest →
      Unterminated n (unit ++ rest)

namespace Unterminated

variable {n : Nat} {a b : Bytes}

theorem append (ha : Unterminated n a) (hb : Unterminated n b) : Unterminated n (a ++ b) := by
  induction ha with
  | nil => exact hb
  | cons hlength hne _ ih =>
    rw [List.append_assoc]
    exact cons hlength hne ih

theorem single (hlength : a.length = n) (hne : ∃ x ∈ a, x ≠ 0) : Unterminated n a := by
  have h := cons hlength hne nil
  rwa [List.append_nil] at h

theorem flatMap {α : Type} {f : α → Bytes} {xs : List α} (h : ∀ x ∈ xs, Unterminated n (f x)) :
    Unterminated n (xs.flatMap f) := by
  induction xs with
  | nil => exact nil
  | cons x xs ih =>
    rw [List.flatMap_cons]
    exact (h x List.mem_cons_self).append (ih (fun y hy => h y (List.mem_cons_of_mem _ hy)))

/-- Bytes one by one. -/
theorem of_ne_zero (h : ∀ x ∈ a, x ≠ 0) : Unterminated 1 a := by
  induction a with
  | nil => exact nil
  | cons x a ih =>
    have hx : x ≠ 0 := h x List.mem_cons_self
    have ha := ih (fun y hy => h y (List.mem_cons_of_mem _ hy))
    exact (single (a := [x]) rfl ⟨x, List.mem_singleton_self x, hx⟩).append ha

end Unterminated

theorem terminatedLength_zero (bytes : Bytes) : terminatedLength 0 bytes = bytes.length := by
  rw [terminatedLength, dif_pos (Or.inl rfl)]

/-- Units none of which is zero are passed over. -/
theorem Unterminated.terminatedLength_append {n : Nat} (hn : 0 < n) {whole : Bytes}
    (h : Unterminated n whole) (rest : Bytes) :
    terminatedLength n (whole ++ rest) = whole.length + terminatedLength n rest := by
  induction h with
  | nil => simp
  | @cons unit more hlength hne hmore ih =>
    obtain ⟨b, hb, hb0⟩ := hne
    have hpos : 0 < unit.length := hlength ▸ hn
    have hcond : ¬(n = 0 ∨ unit ++ (more ++ rest) = []) := by
      rintro (hzero | hnil)
      · omega
      · rw [(List.append_eq_nil_iff.mp hnil).1] at hpos
        exact absurd hpos (Nat.lt_irrefl 0)
    have hall : unit.all (· = 0) = false := by
      rw [List.all_eq_false]
      exact ⟨b, hb, by simpa using hb0⟩
    rw [List.append_assoc, terminatedLength, dif_neg hcond]
    simp only [← hlength, List.take_left, List.drop_left, hall, Nat.lt_irrefl, false_or,
      Bool.false_eq_true, if_false, List.length_append]
    rw [hlength, ih, Nat.add_assoc]

theorem terminatedLength_replicate_append {n : Nat} (hn : 0 < n) (extra : Bytes) :
    terminatedLength n (List.replicate n 0 ++ extra) = 0 := by
  have hne : ¬(n = 0 ∨ List.replicate n 0 ++ extra = []) := by
    rintro (hzero | hnil)
    · omega
    · have := List.append_eq_nil_iff.mp hnil
      simp at this
      omega
  have hunit : (List.replicate n (0 : UInt8) ++ extra).take n = List.replicate n 0 := by
    rw [List.take_append_of_le_length (by simp)]
    simp
  rw [terminatedLength, dif_neg hne]
  simp [hunit]

theorem terminatedLength_of_short {n : Nat} {part : Bytes} (h : part.length < n) :
    terminatedLength n part = 0 := by
  rw [terminatedLength]
  split
  · next hcond =>
    rcases hcond with hzero | rfl
    · omega
    · rfl
  · have htake : (part.take n).length < n := by
      rw [List.length_take]
      omega
    exact if_pos (Or.inl htake)

/-- **The terminator is found where it stands.** -/
theorem terminatedLength_units {n : Nat} {whole rest : Bytes} (hn : 0 < n) (h : Unterminated n whole)
    (hrest : rest.length < n ∨ ∃ extra, rest = List.replicate n 0 ++ extra) :
    terminatedLength n (whole ++ rest) = whole.length := by
  have hzero : terminatedLength n rest = 0 := by
    rcases hrest with hshort | ⟨extra, rfl⟩
    · exact terminatedLength_of_short hshort
    · exact terminatedLength_replicate_append hn extra
  rw [h.terminatedLength_append hn, hzero, Nat.add_zero]

/-- The bytes that `decode` reads are the units before the terminator, or before the last part. -/
theorem untilTerminator_units {n : Nat} {whole rest : Bytes} (hn : 0 < n) (h : Unterminated n whole)
    (hrest : rest.length < n ∨ ∃ extra, rest = List.replicate n 0 ++ extra) :
    untilTerminator n (whole ++ rest) = whole := by
  rw [untilTerminator, terminatedLength_units hn h hrest, List.take_left]

/-! ## The bytes of a text -/

/-- NUL is the only character that a charset writes as a zero unit. -/
theorem unterminated_charBytes {cs : Charset} {c : Char} (hc : c ≠ '\x00') (hkeeps : cs.Keeps c) :
    Unterminated cs.unitWidth (cs.charBytes c) := by
  rcases cs.kinds with rfl | ⟨byte, char, hsingle⟩ | ⟨hwide, order, horder⟩
  · exact Unterminated.of_ne_zero (Utf8.ne_zero_of_mem_encodeChar hc)
  · have hbyte : byte c ≠ 0 := by
      intro hzero
      have hchar := (hsingle.keeps_iff c).mp hkeeps
      rw [hzero, hsingle.char_zero] at hchar
      exact hc hchar.symm
    rw [hsingle.charBytes_eq, Charset.unitWidth, hsingle.isWide_eq]
    exact Unterminated.single rfl ⟨byte c, List.mem_singleton_self _, hbyte⟩
  · rw [horder.charBytes_eq, Charset.unitWidth, if_pos hwide]
    refine Unterminated.flatMap (fun u hu => ?_)
    obtain ⟨hlt, hne⟩ := Utf16.unit_bounds hu
    obtain ⟨a, b, hbytes, hunit⟩ := Utf16.exists_unitBytes order hlt
    rw [hbytes]
    refine Unterminated.single rfl ?_
    by_cases ha : a = 0
    · refine ⟨b, by simp, ?_⟩
      rintro rfl
      rw [ha] at hunit
      exact hne hc (hunit.symm.trans (by cases order <;> rfl))
    · exact ⟨a, by simp, ha⟩

theorem unterminated_encode {cs : Charset} {text : List Char}
    (h : ∀ c ∈ text, c ≠ '\x00' ∧ cs.Keeps c) : Unterminated cs.unitWidth (cs.encode text) := by
  rw [Charset.encode_eq]
  refine Unterminated.append ?_
    (Unterminated.flatMap (fun c hc => unterminated_charBytes (h c hc).1 (h c hc).2))
  rw [Charset.markOf]
  split
  · next hmark =>
    rw [hmark.1]
    exact Unterminated.single rfl ⟨0xFE, by decide, by decide⟩
  · exact Unterminated.nil

/-! ## The text -/

/-- What the properties of a format must be like for its texts to be found again. -/
structure Faithful (props : TextProperties) (cs : Charset) : Prop where
  charset : Charset.ofName? props.charset = some cs
  /-- The terminator, if there is one, is a unit. -/
  terminators : props.terminators = 0 ∨ props.terminators = cs.unitWidth
  /-- No occurrence of the line end reaches into another. -/
  unbordered : ∀ eoln ∈ props.eoln, LineEnd.Unbordered eoln.toList
  kept : ∀ eoln ∈ props.eoln, ∀ c ∈ eoln.toList, c ≠ '\x00' ∧ cs.Keeps c

/-- What a text must be like to be stored. -/
structure Storable (props : TextProperties) (cs : Charset) (text : List Char) : Prop where
  kept : ∀ c ∈ text, c ≠ '\x00' ∧ cs.Keeps c
  /-- The line end does not occur in it. -/
  clear : ∀ eoln ∈ props.eoln, ¬eoln.toList <:+: text

/-- The bytes of a text in a format that is faithful to a charset. -/
def stored (props : TextProperties) (cs : Charset) (text : List Char) : Bytes :=
  cs.encode (toNativeLines props text) ++ List.replicate props.terminators 0

variable {props : TextProperties} {cs : Charset} {text : List Char}

theorem fromNativeLines_toNativeLines (h : Faithful props cs) (ht : Storable props cs text) :
    fromNativeLines props (toNativeLines props text) = text := by
  cases heoln : props.eoln with
  | none => simp [fromNativeLines, toNativeLines, heoln]
  | some eoln =>
    simp only [fromNativeLines, toNativeLines, heoln]
    exact LineEnd.fromNative_toNative (h.unbordered eoln heoln) (ht.clear eoln heoln)

/-- Putting in line ends adds no characters but theirs. -/
theorem kept_toNativeLines (h : Faithful props cs) (ht : Storable props cs text) :
    ∀ c ∈ toNativeLines props text, c ≠ '\x00' ∧ cs.Keeps c := by
  cases heoln : props.eoln with
  | none => simpa [toNativeLines, heoln] using ht.kept
  | some eoln =>
    simp only [toNativeLines, heoln]
    rw [LineEnd.toNative_eq_expand (ht.clear eoln heoln)]
    intro c hc
    rcases LineEnd.mem_expand hc with hmarker | htext
    · exact h.kept eoln heoln c hmarker
    · exact ht.kept c htext

theorem encode_of_faithful (h : Faithful props cs) (text : List Char) :
    encode props text = .ok (stored props cs text) := by
  simp [encode, Charset.require, h.charset, stored]

/-- The bytes of the text are found whatever stands behind the terminator. -/
theorem untilTerminator_stored (h : Faithful props cs) (ht : Storable props cs text)
    {extra : Bytes} (hextra : props.terminators = 0 → extra = []) :
    untilTerminator props.terminators (stored props cs text ++ extra)
      = cs.encode (toNativeLines props text) := by
  rw [stored]
  have hunits := unterminated_encode (kept_toNativeLines h ht)
  rcases h.terminators with hzero | hunit
  · rw [untilTerminator, hextra hzero, hzero, terminatedLength_zero]
    simp
  · have hpos : 0 < props.terminators := hunit ▸ cs.unitWidth_pos
    rw [← hunit] at hunits
    rw [List.append_assoc, untilTerminator_units hpos hunits (Or.inr ⟨extra, rfl⟩)]

/-- **A text that can be stored is read back**, whatever stands behind the terminator. -/
theorem decode_stored (h : Faithful props cs) (ht : Storable props cs text) {extra : Bytes}
    (hextra : props.terminators = 0 → extra = []) :
    decode props (some props.charset) (stored props cs text ++ extra) = .ok text := by
  have hlines : ∀ c ∈ toNativeLines props text, cs.Keeps c :=
    fun c hc => (kept_toNativeLines h ht c hc).2
  rw [decode, Option.getD_some, Charset.require, h.charset]
  simp only [untilTerminator_stored h ht hextra, Charset.decode_encode hlines,
    fromNativeLines_toNativeLines h ht]

/-! ## Piece by piece -/

/-- The characters before the terminator are those of the text. -/
theorem untilNul_readRest_stored (h : Faithful props cs) (ht : Storable props cs text)
    {extra : Bytes} (hextra : props.terminators = 0 → extra = []) :
    untilNul props (CharReader.new cs (.ofBytes (stored props cs text ++ extra))).readRest.1
      = toNativeLines props text := by
  rw [stored]
  have hkept := kept_toNativeLines h ht
  have hlines : ∀ c ∈ toNativeLines props text, cs.Keeps c := fun c hc => (hkept c hc).2
  rcases h.terminators with hzero | hunit
  · rw [hextra hzero, hzero, List.append_nil, List.replicate_zero, List.append_nil,
      CharReader.readRest_new_encode hlines, untilNul, if_neg (by omega)]
  · have hpos : 0 < props.terminators := hunit ▸ cs.unitWidth_pos
    have hnul : '\x00' ∉ toNativeLines props text := fun h => (hkept _ h).1 rfl
    obtain ⟨junk, hread⟩ := CharReader.readRest_new_terminated hlines extra
    rw [hunit, hread, untilNul_terminated hpos hnul]

/-- **A text that can be stored is read back piece by piece**, in any charset. -/
theorem contentOf_stored (h : Faithful props cs) (ht : Storable props cs text) {extra : Bytes}
    (hextra : props.terminators = 0 → extra = []) (target : Charset) :
    contentOf cs target props (stored props cs text ++ extra) = target.encode text := by
  rw [contentOf, textOf, untilNul_readRest_stored h ht hextra, fromNativeLines_toNativeLines h ht]

end NativeText

end Clipboard
