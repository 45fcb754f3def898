import Clipboard.Charset.Reader
import Clipboard.Proofs.ByteStream

/-!
# Reading characters: pieces, and the end

* `readRest_joined` says that the characters of a stream depend on its bytes alone, not on the
  pieces in which they are delivered.
* `stops_readChar` says that a call which finds no character leaves nothing to read. So the end of
  the data is final, and so is a failure (`Exhausted.readChar`, `Failed.readChar`).

Together they let a text be read off the bytes in one piece, character by character.
-/

namespace Clipboard.CharReader

/-! ## Pieces -/

/-- The reader of the same bytes delivered in one piece. -/
def joined (r : CharReader) : CharReader := { r with source := r.source.joined }

theorem readByte_joined (r : CharReader) : r.joined.readByte = r.readByte.mapRest joined := by
  simp only [readByte, joined, ByteStream.readByte_joined, ReadResult.mapRest_mapRest]

theorem readUtf8_joined (r : CharReader) : r.joined.readUtf8 = r.readUtf8.mapRest joined := by
  rw [readUtf8, readUtf8, readByte_joined]
  cases r.readByte with
  | fault e r₁ => rfl
  | ok b r₁ =>
    cases b with
    | none => rfl
    | some lead =>
      simp only [ReadResult.mapRest_ok]
      cases Utf8.length? lead with
      | none => rfl
      | some n =>
        simp only [joined, ByteStream.readBytes_joined]
        cases r₁.source.readBytes (n - 1) <;> rfl

theorem readNewUnit_joined (r : CharReader) :
    r.joined.readNewUnit = r.readNewUnit.mapRest joined := by
  rw [readNewUnit, readNewUnit, readByte_joined]
  cases r.readByte with
  | fault e r₁ => rfl
  | ok a r₁ =>
    cases a with
    | none => rfl
    | some a =>
      simp only [ReadResult.mapRest_ok, readByte_joined]
      cases r₁.readByte with
      | fault e r₂ => rfl
      | ok b r₂ => cases b <;> rfl

theorem readUnit_joined (r : CharReader) : r.joined.readUnit = r.readUnit.mapRest joined := by
  rw [readUnit, readUnit, readNewUnit_joined]
  cases hk : r.kept <;> simp [joined, hk]

theorem settleOrder_joined (r : CharReader) (u : Nat) :
    r.joined.settleOrder u = (r.settleOrder u).joined := by
  unfold settleOrder
  split
  · rfl
  · split <;> rfl

theorem completeUnit_joined (r : CharReader) (u : Nat) :
    r.joined.completeUnit u = (r.completeUnit u).mapRest joined := by
  rw [completeUnit, completeUnit, readUnit_joined]
  split
  · cases r.readUnit with
    | fault e r₁ => rfl
    | ok v r₁ =>
      cases v with
      | none => rfl
      | some v =>
        simp only [ReadResult.mapRest_ok]
        split <;> rfl
  · split <;> rfl

theorem readUtf16_joined (r : CharReader) : r.joined.readUtf16 = r.readUtf16.mapRest joined := by
  rw [readUtf16, readUtf16, readUnit_joined]
  cases r.readUnit with
  | fault e r₁ => rfl
  | ok u r₁ =>
    cases u with
    | none => rfl
    | some u =>
      simp only [ReadResult.mapRest_ok, settleOrder_joined, completeUnit_joined, readUnit_joined]
      by_cases hmark : r₁.markChecked = true
      · rw [if_pos hmark, if_pos (show r₁.joined.markChecked = true from hmark)]
      · rw [if_neg hmark, if_neg (show ¬r₁.joined.markChecked = true from hmark)]
        cases (r₁.settleOrder u).readUnit with
        | fault e r₂ => rfl
        | ok v r₂ => cases v <;> simp [completeUnit_joined]

theorem readSingle_joined (char : UInt8 → Char) (r : CharReader) :
    readSingle char r.joined = (readSingle char r).mapRest joined := by
  rw [readSingle, readSingle, readByte_joined, ReadResult.map_mapRest]

/-- Whatever the pieces, the next character is the same. -/
theorem readChar_joined (r : CharReader) : r.joined.readChar = r.readChar.mapRest joined := by
  have hcharset : r.joined.charset = r.charset := rfl
  rw [readChar, readChar, hcharset]
  cases r.charset <;>
    simp only [readUtf8_joined, readUtf16_joined, readSingle_joined]

/-! ## All characters -/

theorem readRest_of_some {r r' : CharReader} {c : Char} (h : r.readChar = .ok (some c) r') :
    r.readRest = (c :: r'.readRest.1, r'.readRest.2) := by
  rw [readRest]
  split
  · next h' => rw [h] at h'; cases h'
  · next h' => rw [h] at h'; cases h'
  · next h' =>
    rw [h] at h'
    cases h'
    rfl

theorem readRest_of_end {r r' : CharReader} (h : r.readChar = .ok none r') :
    r.readRest = ([], .endOfData) := by
  rw [readRest]
  split
  · next h' => rw [h] at h'; cases h'
  · rfl
  · next h' => rw [h] at h'; cases h'

theorem readRest_of_fault {r r' : CharReader} {e : ReadFault} (h : r.readChar = .fault e r') :
    r.readRest = ([], .failure e) := by
  rw [readRest]
  split
  · next h' => rw [h] at h'; cases h'; rfl
  · next h' => rw [h] at h'; cases h'
  · next h' => rw [h] at h'; cases h'

/-- **Whatever the pieces, the characters are the same.** -/
theorem readRest_joined (r : CharReader) : r.joined.readRest = r.readRest := by
  induction hn : r.remaining using Nat.strongRecOn generalizing r with
  | _ n ih =>
    have hjoined := readChar_joined r
    cases h : r.readChar with
    | fault e r' =>
      rw [h] at hjoined
      rw [readRest_of_fault h, readRest_of_fault hjoined]
    | ok c r' =>
      rw [h] at hjoined
      cases c with
      | none => rw [readRest_of_end h, readRest_of_end hjoined]
      | some c =>
        have hlt := remaining_of_readChar h
        rw [readRest_of_some h, readRest_of_some hjoined, ih r'.remaining (hn ▸ hlt) r' rfl]

theorem joined_new {stream : ByteStream} (charset : Charset) (h : stream.ending = .endOfData) :
    (new charset stream).joined = new charset (.ofBytes stream.toBytes) := by
  simp [new, joined, ByteStream.joined_eq_ofBytes h]

/-- However a stream delivers its bytes, the characters are those of the bytes in one piece. -/
theorem readRest_of_readAll (charset : Charset) {stream : ByteStream} {bytes : Bytes}
    (h : stream.readAll = .ok bytes) :
    (new charset stream).readRest = (new charset (.ofBytes bytes)).readRest := by
  obtain ⟨hending, hbytes⟩ := ByteStream.readAll_eq_ok_iff.mp h
  rw [← readRest_joined, joined_new charset hending, hbytes]

/-! ## Where reading stops -/

/-- Nothing is left to read, and the stream does not fail. -/
structure Exhausted (r : CharReader) : Prop where
  noUnit : r.charset.isWide = true → r.kept = none
  noBytes : r.source.toBytes = []
  endsWell : r.source.ending = .endOfData

/-- Nothing is left to read, and the stream fails. -/
structure Failed (r : CharReader) (fault : ReadFault) : Prop where
  noUnit : r.charset.isWide = true → r.kept = none
  noBytes : r.source.toBytes = []
  fails : r.source.ending = .failure fault

theorem source_of_readByte {r r' : CharReader} {b : Option UInt8} (h : r.readByte = .ok b r') :
    r.source.readByte = .ok b r'.source ∧ r' = { r with source := r'.source } := by
  unfold readByte at h
  cases hb : r.source.readByte with
  | fault e s => simp [hb] at h
  | ok b' s =>
    simp only [hb, ReadResult.mapRest_ok, ReadResult.ok.injEq] at h
    obtain ⟨rfl, rfl⟩ := h
    exact ⟨rfl, rfl⟩

/-- A step that gives nothing leaves nothing to read, whether it found the end or failed. -/
def Stops {α : Type} : Result (Option α) → Prop
  | .ok (some _) _ => True
  | .ok none r => r.Exhausted
  | .fault e r => r.Failed e

theorem stops_readByte {r : CharReader} (hkept : r.charset.isWide = true → r.kept = none) :
    Stops r.readByte := by
  unfold readByte
  cases hb : r.source.readByte with
  | ok b s =>
    cases b with
    | none =>
      obtain ⟨hbytes, hend⟩ := ByteStream.readByte_none hb
      exact ⟨hkept, hbytes, hend⟩
    | some b => trivial
  | fault e s =>
    obtain ⟨hbytes, hfails⟩ := ByteStream.toBytes_of_readByte_fault hb
    exact ⟨hkept, hbytes, hfails⟩

theorem stops_readUtf8 {r : CharReader} (hwide : r.charset.isWide = false) :
    Stops r.readUtf8 := by
  have hkept : r.charset.isWide = true → r.kept = none := fun hw => absurd hw (by simp [hwide])
  have hbyte := stops_readByte hkept
  unfold readUtf8
  split
  · next hb => rwa [hb] at hbyte
  · next hb => rwa [hb] at hbyte
  · next lead r₁ hb =>
    split
    · trivial
    · split
      · next hs =>
        obtain ⟨hbytes, hfails⟩ := ByteStream.toBytes_of_readBytes_fault hs
        rw [(source_of_readByte hb).2]
        exact ⟨hkept, hbytes, hfails⟩
      · trivial

theorem stops_readUnit (r : CharReader) : Stops r.readUnit := by
  unfold readUnit
  split
  · trivial
  · next hkept =>
    have hfirst := stops_readByte (r := r) (fun _ => hkept)
    unfold readNewUnit
    split
    · next ha => rwa [ha] at hfirst
    · next ha => rwa [ha] at hfirst
    · next a r₁ ha =>
      have hkept₁ : r₁.kept = none := (remaining_of_readByte ha).1.trans hkept
      have hsecond := stops_readByte (r := r₁) (fun _ => hkept₁)
      split
      · next hb => rwa [hb] at hsecond
      · trivial
      · trivial

theorem stops_completeUnit (r : CharReader) (u : Nat) : Stops (r.completeUnit u) := by
  have hunit := stops_readUnit r
  unfold completeUnit
  split
  · split
    · next hv => rwa [hv] at hunit
    · trivial
    · split <;> trivial
  · split <;> trivial

theorem stops_readUtf16 (r : CharReader) : Stops r.readUtf16 := by
  have hunit := stops_readUnit r
  unfold readUtf16
  split
  · next hu => rwa [hu] at hunit
  · next hu => rwa [hu] at hunit
  · next u r₁ hu =>
    split
    · exact stops_completeUnit r₁ u
    · have hnext := stops_readUnit (r₁.settleOrder u)
      split
      · next hv => rwa [hv] at hnext
      · next hv => rwa [hv] at hnext
      · next v r₂ hv => exact stops_completeUnit r₂ v

theorem stops_readSingle {r : CharReader} (hwide : r.charset.isWide = false)
    (char : UInt8 → Char) : Stops (readSingle char r) := by
  have hbyte := stops_readByte (r := r) (fun hw => absurd hw (by simp [hwide]))
  unfold readSingle
  cases hb : r.readByte with
  | ok b r₁ => cases b <;> rwa [hb] at hbyte
  | fault e r₁ => rwa [hb] at hbyte

theorem stops_readChar (r : CharReader) : Stops r.readChar := by
  unfold readChar
  split
  · next hc => exact stops_readUtf8 (by rw [hc]; rfl)
  · exact stops_readUtf16 r
  · exact stops_readUtf16 r
  · exact stops_readUtf16 r
  all_goals
    next hc => exact stops_readSingle (by rw [hc]; rfl) _

/-- Where there is no further character nothing is left. -/
theorem exhausted_of_readChar {r r' : CharReader} (h : r.readChar = .ok none r') :
    r'.Exhausted := by
  have hstops := stops_readChar r
  rwa [h] at hstops

/-- Where a call failed nothing is left. -/
theorem failed_of_readChar {r r' : CharReader} {fault : ReadFault}
    (h : r.readChar = .fault fault r') : r'.Failed fault := by
  have hstops := stops_readChar r
  rwa [h] at hstops

/-! ## Reading on where it stopped -/

theorem Exhausted.readByte {r : CharReader} (h : r.Exhausted) :
    ∃ r', r.readByte = .ok none r' := by
  obtain ⟨s', hs'⟩ := ByteStream.readByte_of_toBytes_nil h.noBytes h.endsWell
  exact ⟨{ r with source := s' }, by rw [CharReader.readByte, hs', ReadResult.mapRest_ok]⟩

/-- Where nothing is left there is no character. -/
theorem Exhausted.readChar {r : CharReader} (h : r.Exhausted) :
    ∃ r', r.readChar = .ok none r' := by
  obtain ⟨r', hr'⟩ := h.readByte
  refine ⟨r', ?_⟩
  cases hc : r.charset <;>
    simp [CharReader.readChar, hc, readUtf8, readSingle, readUtf16, readUnit, readNewUnit, hr',
      h.noUnit, Charset.isWide]

theorem Exhausted.readRest {r : CharReader} (h : r.Exhausted) :
    r.readRest = ([], .endOfData) := by
  obtain ⟨r', hr'⟩ := h.readChar
  exact readRest_of_end hr'

theorem Failed.readByte {r : CharReader} {fault : ReadFault} (h : r.Failed fault) :
    ∃ r', r.readByte = .fault fault r' := by
  obtain ⟨s', hs'⟩ := ByteStream.readByte_of_failure h.noBytes h.fails
  exact ⟨{ r with source := s' }, by rw [CharReader.readByte, hs', ReadResult.mapRest_fault]⟩

/-- **Once a call has failed every call fails.** -/
theorem Failed.readChar {r : CharReader} {fault : ReadFault} (h : r.Failed fault) :
    ∃ r', r.readChar = .fault fault r' := by
  obtain ⟨r', hr'⟩ := h.readByte
  refine ⟨r', ?_⟩
  cases hc : r.charset <;>
    simp [CharReader.readChar, hc, readUtf8, readSingle, readUtf16, readUnit, readNewUnit, hr',
      h.noUnit, Charset.isWide]

/-! ## How the data ends -/

/-- A step that leaves the end of the data as it is, and fails only as that end does. -/
def EndsAs {α : Type} (ending : Ending) : Result α → Prop
  | .ok _ r => r.source.ending = ending
  | .fault e _ => ending = .failure e

theorem endsAs_readByte (r : CharReader) : EndsAs r.source.ending r.readByte := by
  unfold readByte
  cases hb : r.source.readByte with
  | ok b s => exact ByteStream.ending_of_readByte hb
  | fault e s => exact ByteStream.ending_of_readByte_fault hb

theorem endsAs_readUtf8 (r : CharReader) : EndsAs r.source.ending r.readUtf8 := by
  have hbyte := endsAs_readByte r
  unfold readUtf8
  split
  · next hb => rwa [hb] at hbyte
  · next hb => rwa [hb] at hbyte
  · next lead r₁ hb =>
    rw [hb] at hbyte
    split
    · exact hbyte
    · split
      · next hs => exact hbyte.symm.trans (ByteStream.ending_of_readBytes_fault hs)
      · next hs => exact (ByteStream.ending_of_readBytes hs).trans hbyte

theorem endsAs_readUnit (r : CharReader) : EndsAs r.source.ending r.readUnit := by
  unfold readUnit
  split
  · rfl
  · have hfirst := endsAs_readByte r
    unfold readNewUnit
    split
    · next ha => rwa [ha] at hfirst
    · next ha => rwa [ha] at hfirst
    · next a r₁ ha =>
      rw [ha] at hfirst
      have hsecond := endsAs_readByte r₁
      rw [show r₁.source.ending = r.source.ending from hfirst] at hsecond
      split
      · next hb => rwa [hb] at hsecond
      · next hb => rwa [hb] at hsecond
      · next hb => rwa [hb] at hsecond

@[simp] theorem source_settleOrder (r : CharReader) (u : Nat) :
    (r.settleOrder u).source = r.source := by
  unfold settleOrder
  split
  · rfl
  · split <;> rfl

theorem endsAs_completeUnit (r : CharReader) (u : Nat) :
    EndsAs r.source.ending (r.completeUnit u) := by
  unfold completeUnit
  split
  · have hunit := endsAs_readUnit r
    split
    · next hv => rwa [hv] at hunit
    · next hv => rwa [hv] at hunit
    · next v r₁ hv =>
      rw [hv] at hunit
      have hending : r₁.source.ending = r.source.ending := hunit
      split
      · exact hending
      · exact hending
  · split <;> rfl

theorem endsAs_readUtf16 (r : CharReader) : EndsAs r.source.ending r.readUtf16 := by
  have hunit := endsAs_readUnit r
  unfold readUtf16
  split
  · next hu => rwa [hu] at hunit
  · next hu => rwa [hu] at hunit
  · next u r₁ hu =>
    rw [hu] at hunit
    have hending : r₁.source.ending = r.source.ending := hunit
    split
    · rw [← hending]
      exact endsAs_completeUnit r₁ u
    · have hnext := endsAs_readUnit (r₁.settleOrder u)
      rw [source_settleOrder, hending] at hnext
      split
      · next hv => rwa [hv] at hnext
      · next hv => rwa [hv] at hnext
      · next v r₂ hv =>
        rw [hv] at hnext
        rw [← show r₂.source.ending = r.source.ending from hnext]
        exact endsAs_completeUnit r₂ v

theorem endsAs_readSingle (char : UInt8 → Char) (r : CharReader) :
    EndsAs r.source.ending (readSingle char r) := by
  have hbyte := endsAs_readByte r
  unfold readSingle
  cases hb : r.readByte <;> rwa [hb] at hbyte

theorem endsAs_readChar (r : CharReader) : EndsAs r.source.ending r.readChar := by
  unfold readChar
  split
  · exact endsAs_readUtf8 r
  · exact endsAs_readUtf16 r
  · exact endsAs_readUtf16 r
  · exact endsAs_readUtf16 r
  all_goals exact endsAs_readSingle _ r

/-- The characters end as the data does. -/
theorem ending_readRest (r : CharReader) : r.readRest.2 = r.source.ending := by
  induction hn : r.remaining using Nat.strongRecOn generalizing r with
  | _ n ih =>
    have hends := endsAs_readChar r
    cases h : r.readChar with
    | fault e r' =>
      rw [h] at hends
      rw [readRest_of_fault h]
      exact hends.symm
    | ok c r' =>
      rw [h] at hends
      have hending : r'.source.ending = r.source.ending := hends
      cases c with
      | none => rw [readRest_of_end h, ← hending, (exhausted_of_readChar h).endsWell]
      | some c =>
        have hlt := remaining_of_readChar h
        rw [readRest_of_some h, ih r'.remaining (hn ▸ hlt) r' rfl, hending]

end Clipboard.CharReader
