import Clipboard.Proofs.CharReader.Unicode
import Clipboard.Proofs.Utf8.IllFormed

/-!
# Reading to the end

`ReadsToEnd r text` says that calls for the next character give the characters of the text one after
the other, and that the call after them finds the end. A reader has one such text at most
(`readsToEnd_iff`).

Outside UTF-8 that is the text which the charset reads off all the bytes at once, whatever the bytes
are and however the stream delivers them (`readsToEnd_new_iff`). In UTF-8 it is so as long as no
character breaks off before the end of the bytes; where one does, bytes that belong to the next
characters are taken with it (`readsToEnd_utf8`).
-/

namespace Clipboard.CharReader

/-- The characters read until there is none. -/
def ReadsToEnd (r : CharReader) (text : List Char) : Prop :=
  ∃ last last', Reads r text last ∧ last.readChar = .ok none last'

theorem readRest_of_reads {r last last' : CharReader} {text : List Char} (h : Reads r text last)
    (hend : last.readChar = .ok none last') : r.readRest = (text, .endOfData) := by
  induction h with
  | done r => exact readRest_of_end hend
  | next hread _ ih => rw [readRest_of_some hread, ih hend]

theorem readsToEnd_iff {r : CharReader} {text : List Char} :
    ReadsToEnd r text ↔ r.readRest = (text, .endOfData) := by
  constructor
  · rintro ⟨last, last', hreads, hend⟩
    exact readRest_of_reads hreads hend
  · exact exists_reads_of_readRest

theorem readsToEnd_new_iff_stepwise (cs : Charset) {stream : ByteStream} {bytes : Bytes}
    (h : stream.readAll = .ok bytes) (text : List Char) :
    ReadsToEnd (new cs stream) text ↔ text = cs.decodeStepwise bytes := by
  rw [readsToEnd_iff, readRest_of_readAll cs h, readRest_new, Prod.mk.injEq]
  constructor
  · rintro ⟨htext, -⟩
    exact htext.symm
  · intro htext
    exact ⟨htext.symm, rfl⟩

/-- **Outside UTF-8, character by character is all at once.** -/
theorem readsToEnd_new_iff {cs : Charset} (hcs : cs ≠ .utf8) {stream : ByteStream} {bytes : Bytes}
    (h : stream.readAll = .ok bytes) (text : List Char) :
    ReadsToEnd (new cs stream) text ↔ text = cs.decode bytes := by
  have hstepwise : cs.decodeStepwise bytes = cs.decode bytes := by
    rw [Charset.decodeStepwise, if_neg hcs]
  rw [readsToEnd_new_iff_stepwise cs h, hstepwise]

/-- Behind the mark, half a pair, a character and one byte of a unit, cut within the units. -/
theorem readsToEnd_new_iff_broken :
    let stream : ByteStream :=
      { deliveries := [.bytes 0xFF [], .interrupted, .interrupted, .bytes 0xFE [0x00],
          .bytes 0xD8 [0x41], .interrupted, .bytes 0x00 [0x42], .interrupted]
        ending := .endOfData }
    Charset.utf16 ≠ .utf8 ∧ stream.readAll = .ok [0xFF, 0xFE, 0x00, 0xD8, 0x41, 0x00, 0x42] ∧
      ∀ text, ReadsToEnd (new .utf16 stream) text ↔ text = ['\ufffd', 'A', '\ufffd'] := by
  intro stream
  have hcs : Charset.utf16 ≠ .utf8 := by decide
  have hbytes : stream.readAll = .ok [0xFF, 0xFE, 0x00, 0xD8, 0x41, 0x00, 0x42] := rfl
  have hdecode : Charset.utf16.decode [0xFF, 0xFE, 0x00, 0xD8, 0x41, 0x00, 0x42]
      = ['\ufffd', 'A', '\ufffd'] := by decide +kernel
  refine ⟨hcs, hbytes, fun text => ?_⟩
  rw [← hdecode]
  exact readsToEnd_new_iff hcs hbytes text

/-! ## UTF-8 -/

theorem readsToEnd_new_utf8_iff {stream : ByteStream} {bytes : Bytes}
    (h : stream.readAll = .ok bytes) (text : List Char) :
    ReadsToEnd (new .utf8 stream) text ↔ text = Utf8.decodeByLead bytes := by
  rw [readsToEnd_new_iff_stepwise .utf8 h, Charset.decodeStepwise, if_pos rfl]

/-- **UTF-8, character by character.** As long as no character breaks off the text is the one that is
read all at once. Where one does, the bytes that it lacks are taken from those behind it, so that a
character which begins there is lost. -/
theorem readsToEnd_utf8 {stream : ByteStream} {bytes : Bytes} (h : stream.readAll = .ok bytes) :
    (Utf8.Unbroken bytes →
      ∀ text, ReadsToEnd (new .utf8 stream) text ↔ text = Charset.utf8.decode bytes) ∧
    (¬Utf8.Unbroken bytes → ∃ whole start b after, Utf8.BreaksAt whole start b after bytes) ∧
    ∀ whole start b after, Utf8.BreaksAt whole start b after bytes →
      Charset.utf8.decode bytes
          = Charset.utf8.decode whole ++ Utf8.replacement :: Charset.utf8.decode (b :: after) ∧
      0 < Utf8.missing start ∧
      (∀ text, ReadsToEnd (new .utf8 stream) text ↔
        ∃ rest, ReadsToEnd (new .utf8 (.ofBytes ((b :: after).drop (Utf8.missing start)))) rest ∧
          text = Charset.utf8.decode whole ++ Utf8.replacement :: rest) ∧
      ∀ c text, b :: after = Charset.utf8.encode (c :: text) → c ≠ Utf8.replacement →
        ¬ReadsToEnd (new .utf8 stream) (Charset.utf8.decode bytes) := by
  refine ⟨?_, Utf8.exists_breaksAt, ?_⟩
  · intro hunbroken text
    rw [readsToEnd_new_utf8_iff h, Utf8.decodeByLead_of_unbroken hunbroken]
    rfl
  · intro whole start b after hbreaks
    have hlossy := Utf8.decodeLossy_of_breaksAt hbreaks
    have hlead := Utf8.decodeByLead_of_breaksAt hbreaks
    have hpos : 0 < Utf8.missing start := Utf8.missing_pos hbreaks.breaks.begins
    refine ⟨hlossy, hpos, ?_, ?_⟩
    · intro text
      have hbehind : (ByteStream.ofBytes ((b :: after).drop (Utf8.missing start))).readAll
          = .ok ((b :: after).drop (Utf8.missing start)) :=
        ByteStream.readAll_eq_ok_iff.mpr ⟨rfl, ByteStream.toBytes_ofBytes _⟩
      rw [readsToEnd_new_utf8_iff h, hlead]
      simp only [readsToEnd_new_utf8_iff hbehind, exists_eq_left]
      rfl
    · intro c text hafter hc hread
      have hencode : Charset.utf8.encode (c :: text) = Utf8.encode (c :: text) := by
        rw [Charset.encode_eq]
        rfl
      have hsame : Utf8.decodeLossy bytes = Utf8.decodeByLead bytes :=
        (readsToEnd_new_utf8_iff h _).mp hread
      rw [hlossy, hlead, List.append_cancel_left_eq, List.cons.injEq, hafter, hencode,
        Utf8.decodeLossy_encode] at hsame
      exact Utf8.decodeByLead_drop_ne hpos hc text hsame.2.symm

/-- The first byte of a character of two stands before two letters, the first of which is lost. -/
theorem readsToEnd_utf8_cut :
    let stream : ByteStream :=
      { deliveries := [.bytes 0x61 [0xC3], .interrupted, .bytes 0x41 [], .bytes 0x42 []]
        ending := .endOfData }
    stream.readAll = .ok [0x61, 0xC3, 0x41, 0x42] ∧
      Charset.utf8.decode [0x61, 0xC3, 0x41, 0x42] = ['a', '\ufffd', 'A', 'B'] ∧
      ¬ReadsToEnd (new .utf8 stream) (Charset.utf8.decode [0x61, 0xC3, 0x41, 0x42]) := by
  intro stream
  have hbytes : stream.readAll = .ok [0x61, 0xC3, 0x41, 0x42] := rfl
  have hdecode : Charset.utf8.decode [0x61, 0xC3, 0x41, 0x42] = ['a', '\ufffd', 'A', 'B'] := by
    decide +kernel
  have hbegins : Utf8.Begins [0xC3] :=
    Utf8.begins_cons_iff.mpr ⟨2, by decide, by decide, by decide⟩
  have hbreaks : Utf8.BreaksAt [0x61] [0xC3] 0x41 [0x42] [0x61, 0xC3, 0x41, 0x42] :=
    { isWhole := .char 'a' .nil
      breaks := Utf8.breaks_cons_iff.mpr ⟨hbegins, by decide⟩
      bytes_eq := rfl }
  obtain ⟨-, -, hat⟩ := readsToEnd_utf8 hbytes
  obtain ⟨-, -, -, hlost⟩ := hat _ _ _ _ hbreaks
  exact ⟨hbytes, hdecode, hlost 'A' ['B'] (by decide) (by decide)⟩

/-- The letter behind half a character is read all at once, but not character by character. -/
theorem readsToEnd_utf8_loses :
    Charset.utf8.decode [0xC3, 0x41] = ['\ufffd', 'A'] ∧
      ReadsToEnd (new .utf8 (.ofBytes [0xC3, 0x41])) ['\ufffd'] ∧
      ¬ReadsToEnd (new .utf8 (.ofBytes [0xC3, 0x41])) ['\ufffd', 'A'] := by
  have hlead : Utf8.decodeByLead [0xC3, 0x41] = ['\ufffd'] := by decide +kernel
  have hbytes : (ByteStream.ofBytes [0xC3, 0x41]).readAll = .ok [0xC3, 0x41] := rfl
  refine ⟨by decide +kernel, ?_, ?_⟩
  · rw [readsToEnd_new_utf8_iff hbytes, hlead]
  · rw [readsToEnd_new_utf8_iff hbytes, hlead]
    decide

end Clipboard.CharReader
