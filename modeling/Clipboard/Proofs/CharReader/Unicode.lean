import Clipboard.Proofs.CharReader.Written

/-!
# Unicode charsets lose nothing

UTF-8 and the charsets of the UTF-16 family keep every character, NUL, U+FEFF and those beyond
U+FFFF included. A text in one of them is therefore read back, as a whole and character by
character, however the stream delivers its bytes (`lossless_of_isUnicode`).

`Reads` is a run of calls for the next character. A reader that comes to the end of the data has
made one (`exists_reads_of_readRest`), and at the end it stays (`Exhausted.readChar_again`).
-/

namespace Clipboard.CharReader

/-! ## Runs of calls -/

/-- Calls for the next character: the characters they give, and the reader after them. -/
inductive Reads : CharReader → List Char → CharReader → Prop where
  | done (r : CharReader) : Reads r [] r
  | next {r r' last : CharReader} {c : Char} {text : List Char}
      (read : r.readChar = .ok (some c) r') (rest : Reads r' text last) : Reads r (c :: text) last

/-- The characters up to the end are those of a run of calls, and the next call finds the end. -/
theorem exists_reads_of_readRest {r : CharReader} {text : List Char}
    (h : r.readRest = (text, .endOfData)) :
    ∃ last last', Reads r text last ∧ last.readChar = .ok none last' := by
  -- on the text, since every call that does not find the end takes one character off it
  induction text generalizing r with
  | nil =>
    cases hchar : r.readChar with
    | fault e r' =>
      rw [readRest_of_fault hchar] at h
      cases h
    | ok c r' =>
      cases c with
      | none => exact ⟨r, r', .done r, hchar⟩
      | some c =>
        rw [readRest_of_some hchar] at h
        cases h
  | cons c text ih =>
    cases hchar : r.readChar with
    | fault e r' =>
      rw [readRest_of_fault hchar] at h
      cases h
    | ok c' r' =>
      cases c' with
      | none =>
        rw [readRest_of_end hchar] at h
        cases h
      | some c' =>
        rw [readRest_of_some hchar, Prod.mk.injEq, List.cons.injEq] at h
        obtain ⟨⟨rfl, htext⟩, hend⟩ := h
        obtain ⟨last, last', hreads, hlast⟩ := ih (Prod.ext htext hend)
        exact ⟨last, last', .next hchar hreads, hlast⟩

/-- Once the end was found every further call finds it. -/
theorem Exhausted.readChar_again {r : CharReader} (h : r.Exhausted) :
    ∃ r', r.readChar = .ok none r' ∧ r'.Exhausted := by
  obtain ⟨r', hr'⟩ := h.readChar
  exact ⟨r', hr', exhausted_of_readChar hr'⟩

/-! ## Texts in a Unicode charset -/

/-- However a stream delivers a text, its characters are read and then the end. -/
theorem readRest_of_readAll_encode {cs : Charset} {text : List Char}
    (hkeeps : ∀ c ∈ text, cs.Keeps c) {stream : ByteStream}
    (h : stream.readAll = .ok (cs.encode text)) :
    (new cs stream).readRest = (text, .endOfData) := by
  rw [readRest_of_readAll cs h, readRest_new_encode hkeeps]

/-- **A text in a Unicode charset is read back**, from its bytes and, one character after the other
and then the end, from any stream of them. -/
theorem lossless_of_isUnicode {cs : Charset} (h : cs.isUnicode = true) (text : List Char) :
    cs.decode (cs.encode text) = text ∧
      ∀ stream : ByteStream, stream.readAll = .ok (cs.encode text) →
        ∃ last last', Reads (new cs stream) text last ∧ last.readChar = .ok none last' ∧
          last'.Exhausted := by
  have hkeeps : ∀ c ∈ text, cs.Keeps c := fun c _ => Charset.keeps_of_isUnicode h c
  refine ⟨Charset.decode_encode hkeeps, fun stream hstream => ?_⟩
  obtain ⟨last, last', hreads, hlast⟩ :=
    exists_reads_of_readRest (readRest_of_readAll_encode hkeeps hstream)
  exact ⟨last, last', hreads, hlast, exhausted_of_readChar hlast⟩

/-- The mark before a text that begins with U+FEFF, and then a pair, are delivered in two pieces. -/
theorem lossless_of_isUnicode_cut :
    Charset.utf16.decode (Charset.utf16.encode ['\ufeff', '😀', '\x00'])
        = ['\ufeff', '😀', '\x00'] ∧
      ∃ last last',
        Reads
          (new .utf16
            { deliveries := [.bytes 0xFE [], .interrupted, .bytes 0xFF [0xFE],
                .bytes 0xFF [0xD8, 0x3D], .bytes 0xDE [], .interrupted, .bytes 0x00 [0x00, 0x00]]
              ending := .endOfData })
          ['\ufeff', '😀', '\x00'] last ∧
        last.readChar = .ok none last' ∧ last'.Exhausted := by
  have hunicode : Charset.utf16.isUnicode = true := by decide
  obtain ⟨hdecode, hreads⟩ := lossless_of_isUnicode hunicode ['\ufeff', '😀', '\x00']
  exact ⟨hdecode, hreads _ rfl⟩

end Clipboard.CharReader
