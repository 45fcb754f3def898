import Clipboard.Proofs.Reencoder

/-!
# A native text whose source fails

The source gives some bytes and then fails for good. Which bytes a `Reencoder` gives before that
depends on the sizes asked for (`readUntilFault_new`): calls are met in full as long as there are
bytes, and the first call that asks for more than is left fails. What it had gathered is then lost,
since it comes neither with the failure nor behind it (`read_of_drain_failure`).

Whatever the sizes, a part of a marker that stands just before the failure is lost too: its characters
were read to see whether the marker follows (`readRest_of_failure`).
-/

namespace Clipboard.NativeText.Reencoder

variable {r r' : Reencoder} {c : Char} {cs : List Char} {ending : Ending} {fault : ReadFault}

/-! ## What a failing call leaves -/

theorem withInput_of_nextChar {c : Option Char} (h : r.nextChar = .ok c r') :
    ∃ s a, r' = r.withInput s a := by
  unfold nextChar at h
  split at h
  · next c' a _ =>
    cases h
    exact ⟨r.source, a, rfl⟩
  · cases hc : r.source.readChar with
    | fault e s => simp [hc] at h
    | ok c' s =>
      simp only [hc, ReadResult.mapRest_ok, ReadResult.ok.injEq] at h
      exact ⟨s, r.ahead, h.2.symm⟩

theorem failed_of_nextChar (h : r.nextChar = .fault fault r') :
    ∃ s, r' = r.withInput s [] ∧ s.Failed fault := by
  unfold nextChar at h
  split at h
  · cases h
  · next hahead =>
    cases hc : r.source.readChar with
    | ok c' s => simp [hc] at h
    | fault e s =>
      simp only [hc, ReadResult.mapRest_fault, ReadResult.fault.injEq] at h
      obtain ⟨rfl, rfl⟩ := h
      exact ⟨s, by simp [withInput, hahead], CharReader.failed_of_readChar hc⟩

theorem failed_of_lookAhead {expected : List Char} (h : lookAhead expected r = .fault fault r') :
    ∃ s, r' = r.withInput s [] ∧ s.Failed fault := by
  induction expected generalizing r with
  | nil => cases h
  | cons e es ih =>
    unfold lookAhead at h
    split at h
    · next hnext => cases h; exact failed_of_nextChar hnext
    · cases h
    · next c r₁ hnext =>
      obtain ⟨s, a, rfl⟩ := withInput_of_nextChar hnext
      split at h
      · cases hl : lookAhead es (r.withInput s a) with
        | ok taken r₂ => simp [hl] at h
        | fault e₂ r₂ =>
          simp only [hl, ReadResult.map_fault, ReadResult.fault.injEq] at h
          obtain ⟨rfl, rfl⟩ := h
          exact ih (r := r.withInput s a) hl
      · cases h

theorem failed_of_readChar (h : r.readChar = .fault fault r') :
    ∃ s, r' = r.withInput s [] ∧ s.Failed fault := by
  unfold readChar at h
  split at h
  · next hnext => cases h; exact failed_of_nextChar hnext
  · cases h
  · next c r₁ hnext =>
    obtain ⟨s, a, rfl⟩ := withInput_of_nextChar hnext
    split at h
    · cases h
    · unfold matchMarker at h
      split at h
      · cases h
      · split at h
        · cases h
        · split at h
          · next hlook =>
            cases h
            exact failed_of_lookAhead (r := r.withInput s a) hlook
          · split at h <;> cases h

/-- A failure is final, so nothing comes behind it. -/
theorem drain_of_failed {s : CharReader} (hended : r.ended = false) (hpending : r.pending = [])
    (h : s.Failed fault) : (r.withInput s []).drain = ([], .failure fault) := by
  obtain ⟨s', hs'⟩ := h.readChar
  have hread : (r.withInput s []).readChar = .fault fault (r.withInput s' []) := by
    simp [readChar, nextChar, withInput, hs']
  have hnone : (r.withInput s []).pending = [] := hpending
  rw [drain, readRest_of_fault (r := r.withInput s []) hended hread, hnone]
  rfl

/-! ## Characters before a failure -/

theorem nextChar_of_failure (h : r.FeedsTo [] (.failure fault)) :
    ∃ r', r.nextChar = .fault fault r' := by
  obtain ⟨hchars, hends⟩ := h
  obtain ⟨ha, hnil⟩ := List.append_eq_nil_iff.mp hchars
  cases hc : r.source.readChar with
  | fault e s =>
    rw [CharReader.readRest_of_fault hc, Ending.failure.injEq] at hends
    subst hends
    exact ⟨{ r with source := s }, by simp [nextChar, ha, hc]⟩
  | ok c' s =>
    cases c' with
    | none =>
      rw [CharReader.readRest_of_end hc] at hends
      cases hends
    | some c' =>
      rw [CharReader.readRest_of_some hc] at hnil
      cases hnil

theorem lookAhead_of_breaksOff {expected : List Char} (h : r.FeedsTo cs (.failure fault))
    (hbreaks : LineEnd.BreaksOff expected cs) : ∃ r', lookAhead expected r = .fault fault r' := by
  induction expected generalizing r cs with
  | nil => exact absurd (List.prefix_nil.mp hbreaks.1) hbreaks.2
  | cons e es ih =>
    cases cs with
    | nil =>
      obtain ⟨r', hnext⟩ := nextChar_of_failure h
      exact ⟨r', by simp [lookAhead, hnext]⟩
    | cons c cs =>
      obtain ⟨rfl, -⟩ := List.cons_prefix_cons.mp hbreaks.1
      obtain ⟨s, a, hnext, hfeeds⟩ := nextChar_of_feedsTo_cons h
      obtain ⟨r', hlook⟩ := ih hfeeds (LineEnd.breaksOff_cons_cons.mp hbreaks)
      exact ⟨r', by simp [lookAhead, hnext, hlook]⟩

/-- While it is not clear whether a marker comes, a failure takes with it what was read of it. -/
theorem readChar_of_breaksOff (h : r.FeedsTo (c :: cs) (.failure fault))
    (hnul : ¬(r.terminated = true ∧ c = '\x00'))
    (hbreaks : LineEnd.BreaksOff (r.eoln.getD []) (c :: cs)) :
    ∃ r', r.readChar = .fault fault r' := by
  obtain ⟨s, a, hnext, hfeeds⟩ := nextChar_of_feedsTo_cons h
  have hread : r.readChar = (matchMarker (r.eoln.getD []) c (r.withInput s a)).map
      (fun found => some (if found then '\n' else c)) := by
    simp only [readChar, hnext]
    exact if_neg hnul
  cases hmarker : r.eoln.getD [] with
  | nil =>
    rw [hmarker] at hbreaks
    cases List.prefix_nil.mp hbreaks.1
  | cons m ms =>
    rw [hmarker] at hbreaks
    obtain ⟨rfl, -⟩ := List.cons_prefix_cons.mp hbreaks.1
    obtain ⟨r', hlook⟩ := lookAhead_of_breaksOff hfeeds (LineEnd.breaksOff_cons_cons.mp hbreaks)
    exact ⟨r', by simp [hread, hmarker, matchMarker, hlook]⟩

/-- **The text before a failure** is what is certain of it. -/
theorem readRest_of_failure (h : r.FeedsTo cs (.failure fault)) (hended : r.ended = false)
    (hnul : r.terminated = true → '\x00' ∉ cs) :
    r.readRest = ((LineEnd.fromUnfinished (r.eoln.getD []) cs).1, .failure fault) := by
  have hfirst {c : Char} {cs : List Char} {r : Reencoder}
      (hnul : r.terminated = true → '\x00' ∉ c :: cs) : ¬(r.terminated = true ∧ c = '\x00') := by
    rintro ⟨hterminated, rfl⟩
    exact hnul hterminated List.mem_cons_self
  generalize hmarker : r.eoln.getD [] = marker
  fun_induction LineEnd.fromUnfinished marker cs generalizing r with
  | case1 =>
    obtain ⟨r₁, hnext⟩ := nextChar_of_failure h
    exact readRest_of_fault hended (show r.readChar = .fault fault r₁ by simp [readChar, hnext])
  | case2 c cs hbreaks =>
    obtain ⟨r₁, hread⟩ := readChar_of_breaksOff h (hfirst hnul) (hmarker ▸ hbreaks)
    exact readRest_of_fault hended hread
  | case3 c cs hclear hfound ih =>
    obtain ⟨s, a, hread, hfeeds⟩ := readChar_of_feedsTo h (hfirst hnul) (Or.inr (hmarker ▸ hclear))
    rw [hmarker, if_pos hfound] at hread hfeeds
    have hnul' : r.terminated = true → '\x00' ∉ cs.drop (marker.length - 1) :=
      fun ht hmem => hnul ht (List.mem_cons_of_mem c (List.mem_of_mem_drop hmem))
    rw [readRest_of_some hended hread, ih (r := r.withInput s a) hfeeds hended hnul' hmarker]
    rfl
  | case4 c cs hclear hfound ih =>
    obtain ⟨s, a, hread, hfeeds⟩ := readChar_of_feedsTo h (hfirst hnul) (Or.inr (hmarker ▸ hclear))
    rw [hmarker, if_neg hfound] at hread hfeeds
    have hnul' : r.terminated = true → '\x00' ∉ cs :=
      fun ht hmem => hnul ht (List.mem_cons_of_mem c hmem)
    rw [readRest_of_some hended hread, ih (r := r.withInput s a) hfeeds hended hnul' hmarker]
    rfl

/-! ## Calls up to a failure -/

variable {bytes : Bytes}

theorem readByte_of_drain_failure (h : r.drain = ([], .failure fault)) :
    ∃ r', r.readByte = .fault fault r' ∧ r'.drain = ([], .failure fault) := by
  obtain ⟨hpending, hrest⟩ := readRest_of_drain_nil h
  cases hended : r.ended with
  | true =>
    rw [readRest_of_ended hended] at hrest
    cases hrest
  | false =>
    cases hread : r.readChar with
    | fault e r₁ =>
      rw [readRest_of_fault hended hread, Prod.mk.injEq, Ending.failure.injEq] at hrest
      obtain ⟨-, rfl⟩ := hrest
      obtain ⟨s, rfl, hs⟩ := failed_of_readChar hread
      exact ⟨_, by simp [readByte, hpending, hended, hread], drain_of_failed hended hpending hs⟩
    | ok c r₁ =>
      cases c with
      | none =>
        rw [readRest_of_end hended hread] at hrest
        cases hrest
      | some c =>
        rw [readRest_of_some hended hread] at hrest
        cases hrest

/-- **A call that asks for more than comes before the failure fails**, and what it has gathered is
lost. -/
theorem read_of_drain_failure {n : Nat} (h : r.drain = (bytes, .failure fault))
    (hn : bytes.length < n) :
    ∃ r', read n r = .fault fault r' ∧ r'.drain = ([], .failure fault) := by
  induction n generalizing r bytes with
  | zero => exact absurd hn (Nat.not_lt_zero _)
  | succ n ih =>
    cases bytes with
    | nil =>
      obtain ⟨r', hbyte, hdrain⟩ := readByte_of_drain_failure h
      exact ⟨r', by simp [read, hbyte], hdrain⟩
    | cons b bytes =>
      obtain ⟨r₁, hbyte, hdrain⟩ := readByte_of_drain_cons h
      obtain ⟨r₂, hread, hdrain'⟩ := ih hdrain (Nat.lt_of_succ_lt_succ hn)
      exact ⟨r₂, by simp [read, hbyte, hread], hdrain'⟩

/-- Calls for so many bytes each, up to the first that fails: the bytes given by those before it, and
how the last one ended. -/
def readUntilFault : List Nat → Reencoder → Bytes × Result Unit
  | [], r => ([], .ok () r)
  | n :: ns, r =>
    match read n r with
    | .fault fault r => ([], .fault fault r)
    | .ok bytes r => (readUntilFault ns r).map (bytes ++ ·) id

/-- How many bytes are asked for by the calls before the first that asks for more than is left of so
many. -/
def askedWithin (total : Nat) : List Nat → Nat
  | [] => 0
  | n :: ns => if n ≤ total then n + askedWithin (total - n) ns else 0

theorem askedWithin_le (total : Nat) (sizes : List Nat) : askedWithin total sizes ≤ total := by
  induction sizes generalizing total with
  | nil => exact Nat.zero_le total
  | cons n ns ih =>
    rw [askedWithin]
    split
    · have := ih (total - n)
      omega
    · exact Nat.zero_le total

/-- All is asked for just if some of the calls ask for exactly that. -/
theorem askedWithin_eq_iff {total : Nat} {sizes : List Nat} :
    askedWithin total sizes = total ↔
      ∃ before after, sizes = before ++ after ∧ asked before = total := by
  induction sizes generalizing total with
  | nil =>
    constructor
    · intro h
      exact ⟨[], [], rfl, h⟩
    · rintro ⟨before, after, hsizes, htotal⟩
      rw [(List.nil_eq_append_iff.mp hsizes).1] at htotal
      exact htotal
  | cons n ns ih =>
    constructor
    · intro h
      rw [askedWithin] at h
      split at h
      · obtain ⟨before, after, rfl, hasked⟩ := ih.mp (show askedWithin (total - n) ns = total - n by omega)
        exact ⟨n :: before, after, rfl, by simp only [asked]; omega⟩
      · exact ⟨[], n :: ns, rfl, h⟩
    · rintro ⟨before, after, hsizes, htotal⟩
      cases before with
      | nil =>
        have := askedWithin_le total (n :: ns)
        simp only [asked] at htotal
        omega
      | cons m before =>
        rw [List.cons_append, List.cons.injEq] at hsizes
        obtain ⟨rfl, rfl⟩ := hsizes
        rw [asked] at htotal
        have hrest : askedWithin (total - n) (before ++ after) = total - n :=
          ih.mpr ⟨before, after, rfl, by omega⟩
        rw [askedWithin, if_pos (by omega), hrest]
        omega

theorem take_askedWithin_eq_iff {sizes : List Nat} :
    bytes.take (askedWithin bytes.length sizes) = bytes ↔
      ∃ before after, sizes = before ++ after ∧ asked before = bytes.length := by
  have hle := askedWithin_le bytes.length sizes
  rw [← askedWithin_eq_iff]
  constructor
  · intro h
    have hlength := congrArg List.length h
    rw [List.length_take] at hlength
    omega
  · intro h
    rw [h, List.take_length]

/-- As long as there are enough bytes calls give them. -/
theorem readUntilFault_of_drain (sizes : List Nat) (h : r.drain = (bytes, ending))
    (hn : asked sizes ≤ bytes.length ∨ ending = .endOfData) :
    ∃ r', readUntilFault sizes r = (bytes.take (asked sizes), .ok () r') := by
  induction sizes generalizing r bytes with
  | nil => exact ⟨r, by simp [readUntilFault, asked]⟩
  | cons n ns ih =>
    have hfirst : n ≤ bytes.length ∨ ending = .endOfData :=
      hn.imp_left (Nat.le_trans (Nat.le_add_right n (asked ns)))
    obtain ⟨r₁, hread, hdrain⟩ := read_of_drain n h hfirst
    obtain ⟨r₂, hrest⟩ := ih hdrain (hn.imp_left (by rw [asked, List.length_drop]; omega))
    refine ⟨r₂, ?_⟩
    simp only [readUntilFault, hread, hrest, asked, List.take_add]
    rfl

/-- The first call that asks for more than is left fails. -/
theorem readUntilFault_of_drain_failure (sizes : List Nat) (h : r.drain = (bytes, .failure fault))
    (hn : bytes.length < asked sizes) :
    ∃ r', readUntilFault sizes r = (bytes.take (askedWithin bytes.length sizes), .fault fault r') ∧
      r'.drain = ([], .failure fault) := by
  induction sizes generalizing r bytes with
  | nil => exact absurd hn (Nat.not_lt_zero _)
  | cons n ns ih =>
    by_cases hfirst : n ≤ bytes.length
    · obtain ⟨r₁, hread, hdrain⟩ := read_of_drain n h (Or.inl hfirst)
      obtain ⟨r₂, hrest, hdrain'⟩ := ih hdrain (by rw [List.length_drop]; rw [asked] at hn; omega)
      refine ⟨r₂, ?_, hdrain'⟩
      rw [List.length_drop] at hrest
      simp only [readUntilFault, hread, hrest, askedWithin, if_pos hfirst, List.take_add]
      rfl
    · obtain ⟨r₁, hread, hdrain⟩ := read_of_drain_failure h (Nat.lt_of_not_le hfirst)
      exact ⟨r₁, by simp [readUntilFault, hread, askedWithin, hfirst], hdrain⟩

/-! ## A new reader -/

variable {props : TextProperties} {stream : ByteStream}

theorem feedsTo_new (source target : Charset) (props : TextProperties) (stream : ByteStream) :
    (new source target props stream).FeedsTo (CharReader.new source stream).readRest.1
      stream.ending :=
  ⟨rfl, CharReader.ending_readRest (CharReader.new source stream)⟩

theorem drain_new (source target : Charset) (props : TextProperties) (stream : ByteStream) :
    (new source target props stream).drain
      = (target.encode (new source target props stream).readRest.1,
          (new source target props stream).readRest.2) := rfl

/-- **What is given of a source that fails**: as many bytes as are asked for by calls that ask for no
more than is left of the bytes of the text. That is all of them just if some of the calls together ask
for exactly so many, as calls for single bytes do. The text is that of all characters before the
failure, but for part of a marker at their end. -/
theorem readUntilFault_new (source target : Charset) (props : TextProperties)
    (hend : stream.ending = .failure fault) (sizes : List Nat) :
    let r := new source target props stream
    let cs := (CharReader.new source stream).readRest.1
    let marker := (props.eoln.map String.toList).getD []
    ∃ text ending, r.readRest = (text, ending) ∧
      -- the text up to the terminator
      ((0 < props.terminators ∧ '\x00' ∈ cs) → '\x00' ∉ marker →
        ending = .endOfData ∧ text = textOf props cs) ∧
      -- the text up to the failure
      (¬(0 < props.terminators ∧ '\x00' ∈ cs) →
        ending = .failure fault ∧ ∃ lost, textOf props cs = text ++ lost ∧ lost <:+ cs ∧
          (lost ≠ [] → LineEnd.BreaksOff marker lost) ∧
          LineEnd.fromUnfinished marker cs = (text, lost)) ∧
      -- what calls give of it
      (asked sizes ≤ (target.encode text).length ∨ ending = .endOfData →
        ∃ r', readUntilFault sizes r = ((target.encode text).take (asked sizes), .ok () r')) ∧
      ∀ e, ending = .failure e → (target.encode text).length < asked sizes →
        ∃ given r', readUntilFault sizes r = (given, .fault e r') ∧ r'.drain = ([], .failure e) ∧
          given = (target.encode text).take (askedWithin (target.encode text).length sizes) ∧
          (given = target.encode text ↔ ∃ before after,
            sizes = before ++ after ∧ asked before = (target.encode text).length) := by
  intro r cs marker
  have hfeeds : r.FeedsTo cs (.failure fault) := hend ▸ feedsTo_new source target props stream
  have hdrain : r.drain = (target.encode r.readRest.1, r.readRest.2) :=
    drain_new source target props stream
  refine ⟨r.readRest.1, r.readRest.2, rfl, ?_, ?_, ?_, ?_⟩
  · rintro ⟨hterminated, hnul⟩ hmarker
    have hends : r.EndsWell cs (.failure fault) := Or.inr ⟨decide_eq_true hterminated, hnul⟩
    rw [readRest_of_feedsTo (fun _ => hmarker) hfeeds hends rfl,
      ← textAhead_new source target props stream]
    exact ⟨rfl, rfl⟩
  · intro hnul
    have huntil : untilNul props cs = cs := by
      by_cases hterminated : 0 < props.terminators
      · exact untilNul_of_not_mem (fun hmem => hnul ⟨hterminated, hmem⟩)
      · rw [untilNul, if_neg hterminated]
    have hrest := readRest_of_failure hfeeds rfl
      (fun hterminated hmem => hnul ⟨of_decide_eq_true hterminated, hmem⟩)
    rw [textOf, huntil, fromNativeLines_eq, LineEnd.fromNative_eq_fromUnfinished, hrest]
    obtain ⟨hsuffix, hbreaks⟩ := LineEnd.fromUnfinished_snd marker cs
    exact ⟨rfl, _, rfl, hsuffix, hbreaks, rfl⟩
  · exact readUntilFault_of_drain sizes hdrain
  · intro e hfails hmore
    rw [hfails] at hdrain
    obtain ⟨r', hread, hdrain'⟩ := readUntilFault_of_drain_failure sizes hdrain hmore
    exact ⟨_, r', hread, hdrain', rfl, take_askedWithin_eq_iff⟩

/-- A failure in the middle of a marker, met by a call that had one byte already. -/
theorem readUntilFault_new_cut_marker :
    let props : TextProperties := { charset := "UTF-8", eoln := some "\r\n", terminators := 1 }
    let stream : ByteStream :=
      { deliveries := [.bytes 0x61 [], .interrupted, .bytes 0x62 [0x0D]]
        ending := .failure (.failed "broken") }
    stream.ending = .failure (.failed "broken") ∧
      textOf props (CharReader.new .utf8 stream).readRest.1 = ['a', 'b', '\r'] ∧
      (new .utf8 .utf16le props stream).readRest = (['a', 'b'], .failure (.failed "broken")) ∧
      Charset.utf16le.encode ['a', 'b'] = [0x61, 0x00, 0x62, 0x00] ∧
      ∃ r', readUntilFault [1, 2, 5] (new .utf8 .utf16le props stream)
        = ([0x61, 0x00, 0x62], .fault (.failed "broken") r') := by
  intro props stream
  have hcs : (CharReader.new .utf8 stream).readRest.1 = ['a', 'b', '\r'] := by decide +kernel
  have hsplit : LineEnd.fromUnfinished ['\r', '\n'] ['a', 'b', '\r'] = (['a', 'b'], ['\r']) := by
    decide +kernel
  have hencode : Charset.utf16le.encode ['a', 'b'] = [0x61, 0x00, 0x62, 0x00] := by decide +kernel
  have hend : stream.ending = .failure (.failed "broken") := rfl
  obtain ⟨text, ending, hrest, -, hbefore, -, hcalls⟩ :=
    readUntilFault_new .utf8 .utf16le props hend [1, 2, 5]
  rw [hcs] at hbefore ⊢
  obtain ⟨rfl, lost, htext, -, -, hlost⟩ := hbefore (by decide)
  obtain ⟨rfl, rfl⟩ := Prod.mk.inj (hlost.symm.trans hsplit)
  rw [hencode] at hcalls
  obtain ⟨given, r', hread, -, hgiven, -⟩ := hcalls _ rfl (by decide)
  exact ⟨hend, htext, hrest, hencode, r', by rw [hread, hgiven]; rfl⟩

/-- Asked for byte by byte, two bytes are given; a call for four fails and gives none of them. -/
theorem readUntilFault_new_ne :
    let stream : ByteStream :=
      { deliveries := [.bytes 0x61 [0x62]], ending := .failure (.failed "broken") }
    let r := new .utf8 .utf8 { charset := "UTF-8", eoln := none, terminators := 0 } stream
    Charset.utf8.encode r.readRest.1 = [0x61, 0x62] ∧
      (readUntilFault [1, 1, 1] r).1 = [0x61, 0x62] ∧ (readUntilFault [4] r).1 = [] := by
  decide +kernel

end Clipboard.NativeText.Reencoder
