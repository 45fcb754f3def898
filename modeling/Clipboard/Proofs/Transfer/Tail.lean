import Clipboard.Proofs.NativeText.Terminator
import Clipboard.Proofs.Transfer.Import
import Clipboard.Proofs.Utf8.IllFormed

/-!
# What stands behind the terminator

A clipboard may be longer than the text in it, and what stands behind the terminator is left over from
something else. `importBytes_tail` says that none of it shows in what is imported: with other bytes
behind the terminator the outcome is the same.

There is one gap. A value that is read piece by piece ends at the character NUL, and in UTF-8 the
zero byte is not read as one if the bytes before it break off within a character: it is taken for
the next byte of that character (`importBytes_leaks_tail`). So the theorem asks for NUL to be among
the characters there, and without that there is always a tail that shows (`importedText_leaks`).
-/

namespace Clipboard

/-! ## UTF-8 -/

namespace Utf8

/-- No byte of a character but the first can be zero. -/
theorem ne_zero_of_next {lead : UInt8} {others : Bytes} {c : Char}
    (h : next lead others = (some c, [])) : ∀ b ∈ others, b ≠ 0 := by
  have hbytes := encodeChar_of_next h
  rw [List.append_nil] at hbytes
  rintro b hb rfl
  cases isTail_of_continues (continues_of_encodeChar hbytes.symm) 0 hb

/-- Bytes of which one but the first is zero are no character. -/
theorem char?_of_zero_mem {lead : UInt8} {others : Bytes} (h : 0 ∈ others) :
    char? (lead :: others) = none := by
  rw [char?]
  split
  · next c heq => exact absurd rfl (ne_zero_of_next heq 0 h)
  · rfl

/-- If the zero byte behind bytes is read as NUL, it is whatever follows. -/
theorem decodeByLead_terminated {p : Bytes} (h : '\x00' ∈ decodeByLead (p ++ [0])) :
    ∃ text, '\x00' ∉ text ∧ ∀ tail, ∃ junk, decodeByLead (p ++ 0 :: tail) = text ++ '\x00' :: junk := by
  induction p using decodeByLead.induct with
  | case1 =>
    refine ⟨[], by simp, fun tail => ⟨decodeByLead tail, ?_⟩⟩
    rw [List.nil_append, decodeByLead_cons]
    rfl
  | case2 lead rest others ih =>
    have hstep (tail : Bytes) : decodeByLead (lead :: rest ++ tail)
        = (char? (lead :: (rest ++ tail).take others)).getD replacement
          :: decodeByLead ((rest ++ tail).drop others) := decodeByLead_cons lead (rest ++ tail)
    rw [hstep] at h
    simp only [hstep]
    by_cases hshort : rest.length < others
    -- the character that begins here takes the zero byte
    · have hreplacement : '\x00' ≠ replacement := by decide
      rw [List.take_of_length_le (by simp; omega), List.drop_of_length_le (by simp; omega),
        char?_of_zero_mem (by simp)] at h
      simp [hreplacement] at h
    · have hle : others ≤ rest.length := by omega
      simp only [List.take_append_of_le_length hle, List.drop_append_of_le_length hle] at h ⊢
      generalize (char? (lead :: rest.take others)).getD replacement = c at h ⊢
      by_cases hnul : '\x00' = c
      · exact ⟨[], by simp, fun tail => ⟨_, by rw [hnul]; rfl⟩⟩
      · obtain ⟨text, hclear, htext⟩ := ih ((List.mem_cons.mp h).resolve_left hnul)
        refine ⟨c :: text, by simp [hnul, hclear], fun tail => ?_⟩
        obtain ⟨junk, hjunk⟩ := htext tail
        exact ⟨junk, by rw [hjunk]; rfl⟩

/-- A character is four bytes at most. -/
theorem length?_getD_le (lead : UInt8) : (length? lead).getD 1 ≤ 4 := by
  dsimp only [length?]
  repeat' split
  all_goals decide

theorem decodeByLead_replicate (n : Nat) :
    decodeByLead (List.replicate n 0x41) = List.replicate n 'A' := by
  induction n with
  | zero => exact decodeByLead_nil
  | succ n ih =>
    rw [List.replicate_succ, decodeByLead_cons]
    exact congrArg ('A' :: ·) ih

/-- If the zero byte behind bytes is taken into a character, at most two bytes more are, and then the
text goes on. -/
theorem decodeByLead_unterminated {p : Bytes} (h : '\x00' ∉ decodeByLead (p ++ [0])) :
    ∃ n, decodeByLead (p ++ 0 :: List.replicate 3 0x41)
      = decodeByLead (p ++ [0]) ++ List.replicate (n + 1) 'A' := by
  induction p using decodeByLead.induct with
  | case1 =>
    refine absurd ?_ h
    rw [List.nil_append, decodeByLead_cons]
    exact List.mem_cons_self
  | case2 lead rest others ih =>
    have hstep (tail : Bytes) : decodeByLead (lead :: rest ++ tail)
        = (char? (lead :: (rest ++ tail).take others)).getD replacement
          :: decodeByLead ((rest ++ tail).drop others) := decodeByLead_cons lead (rest ++ tail)
    rw [hstep] at h
    simp only [hstep]
    by_cases hshort : rest.length < others
    · have hothers : others ≤ 3 := Nat.sub_le_sub_right (length?_getD_le lead) 1
      obtain ⟨k, hk⟩ : ∃ k, others = rest.length + (k + 1) := ⟨others - rest.length - 1, by omega⟩
      obtain ⟨n, hn⟩ : ∃ n, 3 - k = n + 1 := ⟨2 - k, by omega⟩
      refine ⟨n, ?_⟩
      rw [hk, List.take_length_add_append, List.drop_length_add_append,
        List.take_length_add_append, List.drop_length_add_append]
      simp only [List.take_succ_cons, List.drop_succ_cons, List.take_nil, List.drop_nil,
        List.drop_replicate, hn, decodeByLead_nil, decodeByLead_replicate]
      rw [char?_of_zero_mem (by simp), char?_of_zero_mem (by simp)]
      rfl
    · have hle : others ≤ rest.length := by omega
      simp only [List.take_append_of_le_length hle, List.drop_append_of_le_length hle] at h ⊢
      obtain ⟨n, hn⟩ := ih (fun hmem => h (List.mem_cons_of_mem _ hmem))
      exact ⟨n, by rw [hn]; rfl⟩

end Utf8

/-! ## Any charset -/

namespace NativeText

variable {n : Nat} {p : Bytes} {cs : Charset} {props : TextProperties}

theorem Unterminated.dvd_length (h : Unterminated n p) : n ∣ p.length := by
  induction h with
  | nil => exact Nat.dvd_zero n
  | cons hlength _ _ ih =>
    rw [List.length_append, hlength]
    exact Nat.dvd_add (Nat.dvd_refl n) ih

/-- The first zero unit is the terminator behind whole units, or stands among them. -/
theorem exists_terminated (hn : 0 < n) (hp : n ∣ p.length) : ∃ whole, Unterminated n whole ∧
    ∀ tail, ∃ extra, p ++ (List.replicate n 0 ++ tail) = whole ++ (List.replicate n 0 ++ extra) := by
  obtain ⟨whole, rest, h, rfl, hshort | ⟨extra, rfl⟩⟩ := exists_units hn p
  · have hdvd : n ∣ rest.length := by
      rw [List.length_append] at hp
      exact (Nat.dvd_add_right h.dvd_length).mp hp
    obtain rfl : rest = [] := List.eq_nil_of_length_eq_zero (Nat.eq_zero_of_dvd_of_lt hdvd hshort)
    exact ⟨whole, h, fun tail => ⟨tail, by rw [List.append_nil]⟩⟩
  · exact ⟨whole, h, fun tail => ⟨extra ++ (List.replicate n 0 ++ tail), by
      simp only [List.append_assoc]⟩⟩

/-- What `decode` reads does not depend on the tail. -/
theorem untilTerminator_tail (hn : 0 < n) (hp : n ∣ p.length) (x y : Bytes) :
    untilTerminator n (p ++ (List.replicate n 0 ++ x))
      = untilTerminator n (p ++ (List.replicate n 0 ++ y)) := by
  obtain ⟨whole, h, htail⟩ := exists_terminated hn hp
  obtain ⟨extra, hx⟩ := htail x
  obtain ⟨extra', hy⟩ := htail y
  rw [hx, hy, untilTerminator_units hn h (Or.inr ⟨extra, rfl⟩),
    untilTerminator_units hn h (Or.inr ⟨extra', rfl⟩)]

/-- The zero byte behind bytes is read as NUL, and not as part of a character that they begin. -/
def EndsBefore (cs : Charset) (p : Bytes) : Prop :=
  cs = .utf8 → '\x00' ∈ Utf8.decodeByLead (p ++ [0])

/-- The characters before the terminator do not depend on the tail. -/
theorem exists_text (hp : cs.unitWidth ∣ p.length) (hnul : EndsBefore cs p) : ∃ text, '\x00' ∉ text ∧
    ∀ tail, ∃ junk, cs.decodeStepwise (p ++ (List.replicate cs.unitWidth 0 ++ tail))
      = text ++ '\x00' :: junk := by
  by_cases hutf8 : cs = .utf8
  · subst hutf8
    exact Utf8.decodeByLead_terminated (hnul rfl)
  · obtain ⟨whole, h, htail⟩ := exists_terminated cs.unitWidth_pos hp
    refine ⟨cs.decode whole, Charset.nul_not_mem_decode_unterminated hutf8 h, fun tail => ?_⟩
    obtain ⟨extra, hextra⟩ := htail tail
    rw [Charset.decodeStepwise, if_neg hutf8, hextra]
    exact Charset.decode_terminated hutf8 h extra

/-- The text does not depend on the tail. -/
theorem importedText_tail {rep : Representation} (hunit : props.terminators = cs.unitWidth)
    (hp : cs.unitWidth ∣ p.length) (hnul : rep.isLazy = true → EndsBefore cs p) (x y : Bytes) :
    importedText rep cs props (p ++ (List.replicate props.terminators 0 ++ x))
      = importedText rep cs props (p ++ (List.replicate props.terminators 0 ++ y)) := by
  have hpos : 0 < props.terminators := hunit ▸ cs.unitWidth_pos
  rw [importedText, importedText]
  split
  · next hrep =>
    obtain ⟨text, hclear, htext⟩ := exists_text hp (hnul hrep)
    rw [← hunit] at htext
    obtain ⟨junk, hx⟩ := htext x
    obtain ⟨junk', hy⟩ := htext y
    rw [CharReader.readRest_new, CharReader.readRest_new, hx, hy, textOf, textOf,
      untilNul_terminated hpos hclear, untilNul_terminated hpos hclear]
  · rw [untilTerminator_tail hpos (hunit ▸ hp) x y]

/-- Wherever the zero byte is not read as NUL, what stands behind it shows in the text. -/
theorem importedText_leaks {rep : Representation} (hrep : rep.isLazy = true)
    (hunit : props.terminators = cs.unitWidth) (heoln : props.eoln = none)
    (hnul : ¬EndsBefore cs p) : ∃ x y,
      importedText rep cs props (p ++ (List.replicate props.terminators 0 ++ x))
        ≠ importedText rep cs props (p ++ (List.replicate props.terminators 0 ++ y)) := by
  obtain ⟨rfl, hswallowed⟩ := Classical.not_imp.mp hnul
  obtain ⟨n, hn⟩ := Utf8.decodeByLead_unterminated hswallowed
  have hone : props.terminators = 1 := hunit
  have hmore : '\x00' ∉ Utf8.decodeByLead (p ++ [0]) ++ List.replicate (n + 1) 'A' := by
    simp [hswallowed]
  have htext (tail : Bytes) : importedText rep .utf8 props (p ++ (List.replicate 1 0 ++ tail))
      = untilNul props (Utf8.decodeByLead (p ++ 0 :: tail)) := by
    simp only [importedText, hrep, if_true, CharReader.readRest_new, textOf, fromNativeLines, heoln]
    rfl
  refine ⟨[], List.replicate 3 0x41, fun hsame => ?_⟩
  rw [hone, htext, htext, hn, untilNul_of_not_mem hswallowed, untilNul_of_not_mem hmore] at hsame
  exact absurd (congrArg List.length hsame) (by simp)

end NativeText

/-! ## Import -/

namespace Engine

open NativeText (EndsBefore importedText)

variable {e : Engine} {id : FormatId} {locale? : Option Source} {props : TextProperties}
  {cs : Charset} {f : Flavor} {memo : SubtypeMemo} {p : Bytes}

/-- **Nothing of what stands behind the terminator is imported.** -/
theorem importBytes_tail (h : e.ReadsIn id locale? props cs)
    (hunit : props.terminators = cs.unitWidth) (hp : cs.unitWidth ∣ p.length)
    (hflavor : ((TextClassifier.isCharsetText f).run memo).1 = true)
    (hlazy : f.representation.isLazy = true →
      (∀ eoln ∈ props.eoln, '\x00' ∉ eoln.toList) ∧ EndsBefore cs p) (x y : Bytes) :
    (e.importBytes (p ++ (List.replicate props.terminators 0 ++ x)) f id locale?).run memo
        = (e.importBytes (p ++ (List.replicate props.terminators 0 ++ y)) f id locale?).run memo ∧
      (e.table.isFileList id = false → ∀ read, e.TextFlavor memo f read →
        ∃ v memo', (e.importBytes (p ++ (List.replicate props.terminators 0 ++ x)) f id locale?).run
            memo = (.ok (some v), memo') ∧
          v.representation = f.representation ∧
          v.IsText read (importedText f.representation cs props
            (p ++ List.replicate props.terminators 0))) := by
  have hask := TextClassifier.isCharsetText_settled hflavor
  have huris := TextClassifier.isFileList_of_isCharsetText hflavor
  have hmarker : f.representation.isLazy = true →
      props.terminators = 0 ∨ ∀ eoln ∈ props.eoln, '\x00' ∉ eoln.toList :=
    fun hrep => Or.inr (hlazy hrep).1
  have hsame := NativeText.importedText_tail hunit hp (fun hrep => (hlazy hrep).2)
  refine ⟨?_, fun hfiles read htarget => ?_⟩
  · rw [importBytes, importBytes]
    split
    · simp only [importFiles, huris, Bool.false_eq_true, if_false]
    · rw [huris, Bool.and_false, if_neg Bool.false_ne_true, if_neg Bool.false_ne_true,
        Transfer.run_bind_of_ok (run_isCharsetText h.isText_eq hflavor),
        Transfer.run_bind_of_ok (run_isCharsetText h.isText_eq hflavor), Transfer.run_bind,
        Transfer.run_bind, run_importWhole_congr h hmarker hask (hsame x y)]
  · obtain ⟨v, hrun, hrep, hv⟩ := run_importBytes h hfiles hmarker htarget
      (p ++ (List.replicate props.terminators 0 ++ x))
    rw [hsame x [], List.append_nil] at hv
    exact ⟨v, _, hrun, hrep, hv⟩

/-- Two lines in UTF-8, read as characters; behind the terminator stands the end of another text. -/
theorem importBytes_tail_utf8 :
    let props : TextProperties := { charset := "UTF-8", eoln := some "\r\n", terminators := 1 }
    let native : NativeFormat :=
      { id := .text, name := "TEXT", kind := .plain, localeDependent := false, text := some props }
    let e := ofFormat native
    let f := Flavor.ofParts "text" "plain" [] .reader
    let p : Bytes := [0x61, 0x0D, 0x0A, 0xC3, 0xA9]
    let x : Bytes := [0x62]
    let y : Bytes := []
    e.ReadsIn native.id none props .utf8 ∧ props.terminators = Charset.utf8.unitWidth ∧
      Charset.utf8.unitWidth ∣ p.length ∧
      ((TextClassifier.isCharsetText f).run .empty).1 = true ∧
      (∀ eoln ∈ props.eoln, '\x00' ∉ eoln.toList) ∧ EndsBefore .utf8 p ∧
      (e.importBytes (p ++ (List.replicate props.terminators 0 ++ x)) f native.id none).run .empty
        = (e.importBytes (p ++ (List.replicate props.terminators 0 ++ y)) f native.id none).run .empty ∧
      ∃ v memo, (e.importBytes (p ++ (List.replicate props.terminators 0 ++ x)) f native.id none).run
          .empty = (.ok (some v), memo) ∧ v.requireText = .ok ['a', '\n', 'é'] := by
  intro props native e f p x y
  have hreads : e.ReadsIn native.id none props .utf8 := readsIn_ofFormat rfl (by decide +kernel)
  have hunits : Charset.utf8.unitWidth ∣ p.length := by decide
  have hflavor : ((TextClassifier.isCharsetText f).run .empty).1 = true := by decide +kernel
  have hmarker : ∀ eoln ∈ props.eoln, '\x00' ∉ eoln.toList := by simp [props]
  have hnul : EndsBefore .utf8 p := fun _ => by decide +kernel
  obtain ⟨hsame, hvalue⟩ := importBytes_tail hreads rfl hunits hflavor
    (fun _ => ⟨hmarker, hnul⟩) x y
  obtain ⟨v, memo, hrun, hrep, hv⟩ :=
    hvalue (by decide +kernel) .utf8 ⟨hflavor, fun hbytes => by cases hbytes⟩
  have htext : importedText f.representation .utf8 props (p ++ List.replicate props.terminators 0)
      = ['a', '\n', 'é'] := by decide +kernel
  rw [TransferValue.IsText, hrep, if_neg (by decide), htext] at hv
  exact ⟨hreads, rfl, hunits, hflavor, hmarker, hnul, hsame, v, memo, hrun, hv⟩

/-- The first byte of a character of two stands before the terminator: read as characters, the text
goes on behind it. -/
theorem importBytes_leaks_tail :
    let props : TextProperties := { charset := "UTF-8", eoln := none, terminators := 1 }
    let native : NativeFormat :=
      { id := .text, name := "TEXT", kind := .plain, localeDependent := false, text := some props }
    let e := ofFormat native
    let f := Flavor.ofParts "text" "plain" [] .reader
    ((TextClassifier.isCharsetText f).run .empty).1 = true ∧
      (∃ v memo, (e.importBytes [0xC3, 0x00] f native.id none).run .empty = (.ok (some v), memo) ∧
        v.requireText = .ok ['\ufffd']) ∧
      ∃ v memo, (e.importBytes [0xC3, 0x00, 0x41, 0x42] f native.id none).run .empty
          = (.ok (some v), memo) ∧ v.requireText = .ok ['\ufffd', 'A', 'B'] := by
  intro props native e f
  have hflavor : ((TextClassifier.isCharsetText f).run .empty).1 = true := by decide +kernel
  have himport (bytes : Bytes) : ∃ v memo, (e.importBytes bytes f native.id none).run .empty
      = (.ok (some v), memo) ∧ v.requireText = .ok (importedText .reader .utf8 props bytes) := by
    have hreads : e.ReadsIn native.id none props .utf8 := readsIn_ofFormat rfl (by decide +kernel)
    have htarget : e.TextFlavor .empty f .utf8 := ⟨hflavor, fun hbytes => by cases hbytes⟩
    obtain ⟨v, hrun, hrep, hv⟩ := run_importBytes hreads (by decide +kernel)
      (fun _ => Or.inr (by simp [props])) htarget bytes
    rw [TransferValue.IsText, hrep, if_neg (by decide)] at hv
    exact ⟨v, _, hrun, hv⟩
  have hshort : importedText .reader .utf8 props [0xC3, 0x00] = ['\ufffd'] := by decide +kernel
  have hlong : importedText .reader .utf8 props [0xC3, 0x00, 0x41, 0x42] = ['\ufffd', 'A', 'B'] := by
    decide +kernel
  exact ⟨hflavor, hshort ▸ himport _, hlong ▸ himport _⟩

end Engine

end Clipboard
