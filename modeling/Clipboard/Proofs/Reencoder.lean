import Clipboard.Proofs.Reencoder.Characters

/-!
# What bytes a native text gives

The bytes still to come are what `drain` would give, and a call that reads some of them leaves the
others (`read_of_drain`). The main result is that a `Reencoder` gives the bytes of the text that its
source holds (`contentOf`), whatever the pieces in which the source delivers and whatever the sizes
asked for (`readUntilEnd_new`).
-/

namespace Clipboard.NativeText.Reencoder

variable {r : Reencoder} {c : Char} {cs : List Char} {ending : Ending}

/-! ## Bytes -/

variable {b : UInt8} {bytes : Bytes}

theorem readByte_of_drain_cons (h : r.drain = (b :: bytes, ending)) :
    ∃ r', r.readByte = .ok (some b) r' ∧ r'.drain = (bytes, ending) := by
  obtain ⟨hbytes, hending⟩ := Prod.mk.inj h
  -- a byte is given of those encoded already, and only then a character is encoded
  cases hpending : r.pending with
  | cons b₀ bs =>
    rw [hpending, List.cons_append, List.cons.injEq] at hbytes
    obtain ⟨rfl, hbytes⟩ := hbytes
    refine ⟨{ r with pending := bs }, by simp [readByte, hpending], ?_⟩
    rw [drain, readRest_of_unseen (unseen_output r.encoder bs)]
    exact Prod.ext hbytes hending
  | nil =>
    rw [hpending, List.nil_append] at hbytes
    cases hended : r.ended with
    | true =>
      rw [readRest_of_ended hended] at hbytes
      cases hbytes
    | false =>
      cases hread : r.readChar with
      | fault e r₁ =>
        rw [readRest_of_fault hended hread] at hbytes
        cases hbytes
      | ok c r₁ =>
        cases c with
        | none =>
          rw [readRest_of_end hended hread] at hbytes
          cases hbytes
        | some c =>
          rw [readRest_of_some hended hread] at hbytes hending
          rw [Charset.Encoder.encodeText] at hbytes
          have hencoder : r₁.encoder = r.encoder := (output_of_readChar hread).1
          cases hencode : r.encoder.encodeChar c with
          | mk first encoder =>
            rw [hencode] at hbytes
            cases first with
            | nil =>
              have hne := Charset.Encoder.encodeChar_ne_nil r.encoder c
              rw [hencode] at hne
              exact absurd rfl hne
            | cons b₀ bs =>
              rw [List.cons_append, List.cons.injEq] at hbytes
              obtain ⟨rfl, hbytes⟩ := hbytes
              refine ⟨{ r₁ with encoder, pending := bs }, ?_, ?_⟩
              · simp [readByte, hpending, hended, hread, hencoder, hencode]
              · rw [drain, readRest_of_unseen (unseen_output encoder bs)]
                exact Prod.ext hbytes hending

theorem readRest_of_drain_nil (h : r.drain = ([], ending)) :
    r.pending = [] ∧ r.readRest = ([], ending) := by
  obtain ⟨hbytes, hending⟩ := Prod.mk.inj h
  obtain ⟨hpending, hencoded⟩ := List.append_eq_nil_iff.mp hbytes
  refine ⟨hpending, Prod.ext ?_ hending⟩
  cases htext : r.readRest.1 with
  | nil => rfl
  | cons c text =>
    rw [htext] at hencoded
    exact absurd (List.append_eq_nil_iff.mp hencoded).1 (Charset.Encoder.encodeChar_ne_nil _ c)

theorem readByte_of_drain_nil (h : r.drain = ([], .endOfData)) :
    ∃ r', r.readByte = .ok none r' ∧ r'.drain = ([], .endOfData) := by
  obtain ⟨hpending, hrest⟩ := readRest_of_drain_nil h
  cases hended : r.ended with
  | true => exact ⟨r, by simp [readByte, hpending, hended], h⟩
  | false =>
    cases hread : r.readChar with
    | fault e r₁ =>
      rw [readRest_of_fault hended hread] at hrest
      cases hrest
    | ok c r₁ =>
      cases c with
      | some c =>
        rw [readRest_of_some hended hread] at hrest
        cases hrest
      | none =>
        refine ⟨r₁, by simp [readByte, hpending, hended, hread], ?_⟩
        rw [drain, readRest_of_ended (ended_of_readChar hread), (output_of_readChar hread).2,
          hpending]
        rfl

/-- **A call gives as many of the bytes still to come as are asked for**, if there are so many or the
source does not fail. -/
theorem read_of_drain (n : Nat) (h : r.drain = (bytes, ending))
    (hn : n ≤ bytes.length ∨ ending = .endOfData) :
    ∃ r', read n r = .ok (bytes.take n) r' ∧ r'.drain = (bytes.drop n, ending) := by
  induction n generalizing r bytes with
  | zero => exact ⟨r, rfl, h⟩
  | succ n ih =>
    cases bytes with
    | nil =>
      obtain rfl : ending = .endOfData := hn.resolve_left (by simp)
      obtain ⟨r', hbyte, hdrain⟩ := readByte_of_drain_nil h
      exact ⟨r', by simp [read, hbyte], hdrain⟩
    | cons b bytes =>
      obtain ⟨r₁, hbyte, hdrain⟩ := readByte_of_drain_cons h
      obtain ⟨r₂, hread, hdrain'⟩ := ih hdrain (hn.imp_left Nat.le_of_succ_le_succ)
      exact ⟨r₂, by simp [read, hbyte, hread], hdrain'⟩

/-! ## The bytes of the text -/

/-- The bytes still to be given: those encoded already, and those of the text still to come. -/
structure Gives (r : Reencoder) (bytes : Bytes) : Prop where
  stops : r.MarkerStops
  upcoming : ∃ cs, r.Feeds cs ∧ r.pending ++ (r.encoder.encodeText (r.textAhead cs)).1 = bytes

/-- The line ends of a text are the markers of the format. -/
theorem fromNativeLines_eq (props : TextProperties) (text : List Char) :
    fromNativeLines props text
      = LineEnd.fromNative ((props.eoln.map String.toList).getD []) text := by
  rw [fromNativeLines]
  cases props.eoln <;> simp

/-- A reader at the start has the text that all the characters stand for to read. -/
theorem textAhead_new (source target : Charset) (props : TextProperties) (stream : ByteStream)
    (cs : List Char) : (new source target props stream).textAhead cs = textOf props cs := by
  rw [textOf, fromNativeLines_eq]
  simp [new, textAhead, cut, untilNul]

/-- A reader at the start has the whole text to give. -/
theorem gives_new (source target : Charset) {props : TextProperties} {stream : ByteStream}
    (hmarker : props.terminators = 0 ∨ ∀ eoln ∈ props.eoln, '\x00' ∉ eoln.toList)
    (hend : stream.ending = .endOfData) :
    (new source target props stream).Gives (contentOf source target props stream.toBytes) := by
  have hrest : (CharReader.new source stream).readRest
      = (CharReader.new source (.ofBytes stream.toBytes)).readRest := by
    rw [← CharReader.joined_new source hend, CharReader.readRest_joined]
  refine ⟨?_, (CharReader.new source stream).readRest.1, ⟨rfl, ?_⟩, ?_⟩
  · intro hterminated
    rcases hmarker with hzero | hnul
    · simp [new, hzero] at hterminated
    · cases heoln : props.eoln with
      | none => simp [new, heoln]
      | some eoln =>
        rw [heoln] at hnul
        simpa [new, heoln] using hnul eoln rfl
  · rw [show (new source target props stream).source = CharReader.new source stream from rfl,
      CharReader.ending_readRest]
    exact hend
  · rw [contentOf, ← hrest, textAhead_new]
    rfl

/-- Read to its end, the reader gives the bytes still to come. -/
theorem drain_of_gives (h : r.Gives bytes) : r.drain = (bytes, .endOfData) := by
  obtain ⟨hstop, cs, hfeeds, hbytes⟩ := h
  rw [drain, readRest_of_feeds hstop hfeeds rfl]
  simp only [hbytes]

theorem toStream_of_gives (h : r.Gives bytes) : r.toStream = .ofBytes bytes := by
  rw [toStream, drain_of_gives h]
  rfl

/-! ## Calls up to the end -/

/-- Calls for so many bytes each, up to the first that gives none though some were asked for: the
bytes given, and whether there was such a call. -/
def readUntilEnd : List Nat → Reencoder → Result (Bytes × Bool)
  | [], r => .ok ([], false) r
  | n :: ns, r =>
    match read n r with
    | .fault fault r => .fault fault r
    | .ok bytes r =>
      if 0 < n ∧ bytes = [] then .ok ([], true) r
      else (readUntilEnd ns r).map (fun given => (bytes ++ given.1, given.2))

/-- How many bytes calls ask for together. -/
def asked : List Nat → Nat
  | [] => 0
  | n :: ns => n + asked ns

theorem asked_append (ms ns : List Nat) : asked (ms ++ ns) = asked ms + asked ns := by
  induction ms with
  | nil => simp [asked]
  | cons m ms ih =>
    simp only [List.cons_append, asked, ih]
    omega

/-- Some call asks for bytes after so many were asked for before. -/
def AsksBeyond (total : Nat) (sizes : List Nat) : Prop :=
  ∃ before n after, sizes = before ++ n :: after ∧ 0 < n ∧ total ≤ asked before

theorem asksBeyond_cons {total n : Nat} {ns : List Nat} :
    AsksBeyond total (n :: ns) ↔ (0 < n ∧ total = 0) ∨ AsksBeyond (total - n) ns := by
  constructor
  · rintro ⟨before, m, after, hsizes, hm, htotal⟩
    cases before with
    | nil =>
      simp only [List.nil_append, List.cons.injEq] at hsizes
      exact Or.inl ⟨by omega, by simpa [asked] using htotal⟩
    | cons k before =>
      simp only [List.cons_append, List.cons.injEq] at hsizes
      refine Or.inr ⟨before, m, after, hsizes.2, hm, ?_⟩
      simp only [asked] at htotal
      omega
  · rintro (⟨hn, htotal⟩ | ⟨before, m, after, rfl, hm, htotal⟩)
    · exact ⟨[], n, ns, rfl, hn, by simp [htotal]⟩
    · exact ⟨n :: before, m, after, rfl, hm, by simp only [asked]; omega⟩

theorem readUntilEnd_of_drain (sizes : List Nat) (h : r.drain = (bytes, .endOfData)) :
    ∃ finished r', readUntilEnd sizes r = .ok (bytes.take (asked sizes), finished) r' ∧
      (finished = true ↔ AsksBeyond bytes.length sizes) := by
  induction sizes generalizing r bytes with
  | nil => exact ⟨false, r, by simp [readUntilEnd, asked], by simp [AsksBeyond]⟩
  | cons n ns ih =>
    obtain ⟨r₁, hread, hdrain⟩ := read_of_drain n h (Or.inr rfl)
    by_cases hstop : 0 < n ∧ bytes.take n = []
    · have hnil : bytes = [] := by
        rcases List.take_eq_nil_iff.mp hstop.2 with hzero | hnil
        · omega
        · exact hnil
      refine ⟨true, r₁, ?_, ?_⟩
      · simp [readUntilEnd, hread, hnil, hstop.1]
      · rw [asksBeyond_cons]
        simp [hnil, hstop.1]
    · obtain ⟨finished, r₂, hrest, hiff⟩ := ih hdrain
      refine ⟨finished, r₂, ?_, ?_⟩
      · rw [readUntilEnd, hread]
        simp only [if_neg hstop, hrest, ReadResult.map_ok, asked, List.take_add]
      · rw [hiff, asksBeyond_cons, List.length_drop]
        refine ⟨Or.inr, ?_⟩
        rintro (⟨hn, hzero⟩ | hbeyond)
        · exact absurd ⟨hn, by simp [List.eq_nil_of_length_eq_zero hzero]⟩ hstop
        · exact hbeyond

theorem readUntilEnd_of_gives (sizes : List Nat) (h : r.Gives bytes) :
    ∃ finished r', readUntilEnd sizes r = .ok (bytes.take (asked sizes), finished) r' ∧
      (finished = true ↔ AsksBeyond bytes.length sizes) :=
  readUntilEnd_of_drain sizes (drain_of_gives h)

theorem take_asked_of_asksBeyond {sizes : List Nat} (h : AsksBeyond bytes.length sizes) :
    bytes.take (asked sizes) = bytes := by
  obtain ⟨before, n, after, rfl, -, htotal⟩ := h
  refine List.take_of_length_le ?_
  simp only [asked_append]
  omega

/-- **Whatever the pieces of the source and the sizes asked for, the bytes given are those of the
text.** So many as are asked for are given, and a call that asks for some gives none just if the
calls before it asked for all there are. -/
theorem readUntilEnd_new (source target : Charset) (props : TextProperties) (stream : ByteStream)
    (sizes : List Nat)
    (hmarker : props.terminators = 0 ∨ ∀ eoln ∈ props.eoln, '\x00' ∉ eoln.toList)
    (hend : stream.ending = .endOfData) :
    ∃ given finished r, readUntilEnd sizes (new source target props stream)
        = .ok (given, finished) r ∧
      given = (contentOf source target props stream.toBytes).take (asked sizes) ∧
      (finished = true ↔
        AsksBeyond (contentOf source target props stream.toBytes).length sizes) ∧
      (finished = true → given = contentOf source target props stream.toBytes) := by
  obtain ⟨finished, r, hread, hiff⟩ :=
    readUntilEnd_of_gives sizes (gives_new source target hmarker hend)
  exact ⟨_, finished, r, hread, rfl, hiff, fun hfin => take_asked_of_asksBeyond (hiff.mp hfin)⟩

/-- A line end cut in two by an interrupted call, and a tail behind the terminator. -/
theorem readUntilEnd_new_cut_marker :
    let props : TextProperties := { charset := "UTF-8", eoln := some "\r\n", terminators := 1 }
    let stream : ByteStream :=
      { deliveries := [.bytes 0x61 [0x0D], .interrupted, .bytes 0x0A [0x62], .bytes 0x00 [0x63]]
        ending := .endOfData }
    (∀ eoln ∈ props.eoln, '\x00' ∉ eoln.toList) ∧ stream.ending = .endOfData ∧
      ∃ r, readUntilEnd [0, 3, 1, 9, 1] (new .utf8 .utf16 props stream)
        = .ok ([0xFE, 0xFF, 0x00, 0x61, 0x00, 0x0A, 0x00, 0x62], true) r := by
  intro props stream
  have hcontent : contentOf .utf8 .utf16 props stream.toBytes
      = [0xFE, 0xFF, 0x00, 0x61, 0x00, 0x0A, 0x00, 0x62] := by decide +kernel
  have hmarker : ∀ eoln ∈ props.eoln, '\x00' ∉ eoln.toList := by simp [props]
  obtain ⟨given, finished, r, hread, -, hfinished, hgiven⟩ :=
    readUntilEnd_new .utf8 .utf16 props stream [0, 3, 1, 9, 1] (Or.inr hmarker) rfl
  have hend : finished = true :=
    hfinished.mpr ⟨[0, 3, 1, 9], 1, [], rfl, by decide, by rw [hcontent]; decide⟩
  rw [hgiven hend, hend, hcontent] at hread
  exact ⟨hmarker, rfl, r, hread⟩

end Clipboard.NativeText.Reencoder
