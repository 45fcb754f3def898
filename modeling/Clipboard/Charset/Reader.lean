import Clipboard.ByteStream
import Clipboard.Charset

/-!
# Reading characters from a stream

A `CharReader` takes characters off a byte stream one at a time, asking for one byte after the
other, so that it never reads past the character it gives back. For UTF-16 it settles the byte
order with the first unit, and keeps a unit that turned out not to complete a pair.

In UTF-8 the leading byte says how many bytes are taken; if they are not one character together,
U+FFFD stands for all of them.

## Termination

`remaining` counts the bytes still to come and the unit kept. A character always costs at least
one of them (`remaining_of_readChar`), which is what lets `readRest` read to the end.
-/

namespace Clipboard

/-- A stream that is being read as characters. -/
structure CharReader where
  charset : Charset
  order : Utf16.Order
  /-- Whether a byte order mark is no longer looked for. -/
  markChecked : Bool
  /-- A unit that was read and belongs to the next character. -/
  kept : Option Nat
  source : ByteStream
  deriving DecidableEq, Repr

namespace CharReader

/-- A reader at the start of a stream. -/
def new (charset : Charset) (source : ByteStream) : CharReader :=
  { charset := charset
    order := if charset = .utf16le then .little else .big
    markChecked := charset ≠ .utf16
    kept := none
    source := source }

abbrev Result (α : Type) := ReadResult CharReader α

def readByte (r : CharReader) : Result (Option UInt8) :=
  r.source.readByte.mapRest ({ r with source := · })

/-! ## UTF-8 -/

def readUtf8 (r : CharReader) : Result (Option Char) :=
  match r.readByte with
  | .fault e r => .fault e r
  | .ok none r => .ok none r
  | .ok (some lead) r =>
    match Utf8.length? lead with
    | none => .ok (some Utf8.replacement) r
    | some n =>
      match r.source.readBytes (n - 1) with
      | .fault e s => .fault e { r with source := s }
      | .ok others s =>
        .ok (some ((Utf8.char? (lead :: others)).getD Utf8.replacement)) { r with source := s }

/-! ## UTF-16 -/

/-- The next unit off the bytes; half a unit at the end reads as U+FFFD. -/
def readNewUnit (r : CharReader) : Result (Option Nat) :=
  match r.readByte with
  | .fault e r => .fault e r
  | .ok none r => .ok none r
  | .ok (some a) r =>
    match r.readByte with
    | .fault e r => .fault e r
    | .ok none r => .ok (some 0xFFFD) r
    | .ok (some b) r => .ok (some (Utf16.unit r.order a b)) r

/-- The next unit, the one kept before any other. -/
def readUnit (r : CharReader) : Result (Option Nat) :=
  match r.kept with
  | some u => .ok (some u) { r with kept := none }
  | none => readNewUnit r

/-- What the first unit says: a byte order mark settles the order and is dropped, any other unit
is kept. -/
def settleOrder (r : CharReader) (first : Nat) : CharReader :=
  if first = 0xFEFF then { r with markChecked := true }
  else if first = 0xFFFE then { r with markChecked := true, order := .little }
  else { r with markChecked := true, kept := some first }

/-- The character that begins with a unit. -/
def completeUnit (r : CharReader) (u : Nat) : Result (Option Char) :=
  if Utf16.isHigh u then
    match r.readUnit with
    | .fault e r => .fault e r
    | .ok none r => .ok (some Utf8.replacement) r
    | .ok (some v) r =>
      if Utf16.isLow v then .ok (some (Utf16.join u v)) r
      else .ok (some Utf8.replacement) { r with kept := some v }
  else if Utf16.isLow u then .ok (some Utf8.replacement) r
  else .ok (some (Char.ofNat u)) r

def readUtf16 (r : CharReader) : Result (Option Char) :=
  match r.readUnit with
  | .fault e r => .fault e r
  | .ok none r => .ok none r
  | .ok (some u) r =>
    if r.markChecked then r.completeUnit u
    else
      match (r.settleOrder u).readUnit with
      | .fault e r => .fault e r
      | .ok none r => .ok none r
      | .ok (some v) r => r.completeUnit v

/-! ## Any charset -/

/-- The next character of a charset of one byte per character. -/
def readSingle (char : UInt8 → Char) (r : CharReader) : Result (Option Char) :=
  r.readByte.map (Option.map char)

/-- The next character; nothing at the end of the data. -/
def readChar (r : CharReader) : Result (Option Char) :=
  match r.charset with
  | .utf8 => r.readUtf8
  | .utf16 | .utf16le | .utf16be => r.readUtf16
  | .usAscii => readSingle CodePage.asciiChar r
  | .latin1 => readSingle CodePage.latin1Char r
  | .windows1252 => readSingle CodePage.windows1252Char r
  | .ibm437 => readSingle CodePage.cp437Char r

/-! ## Progress -/

/-- The bytes still to come, and one more for a unit kept. -/
def remaining (r : CharReader) : Nat :=
  r.source.toBytes.length + (if r.kept.isSome then 1 else 0)

/-- One byte read is one less to come. -/
theorem remaining_of_readByte {r r' : CharReader} {b : Option UInt8}
    (h : r.readByte = .ok b r') :
    r'.kept = r.kept ∧ r'.remaining + (if b.isSome then 1 else 0) = r.remaining := by
  unfold readByte at h
  cases hb : r.source.readByte with
  | fault e s => simp [hb, ReadResult.mapRest] at h
  | ok b' s =>
    simp only [hb, ReadResult.mapRest, ReadResult.ok.injEq] at h
    have hlen := ByteStream.length_of_readByte hb
    rw [h.1] at hlen
    rw [← h.2]
    simp only [remaining, true_and]
    omega

/-- A character of one byte costs a byte. -/
theorem remaining_of_readSingle {char : UInt8 → Char} {r r' : CharReader} {c : Char}
    (h : readSingle char r = .ok (some c) r') : r'.remaining < r.remaining := by
  unfold readSingle at h
  cases hb : r.readByte with
  | fault e r₁ => simp [hb, ReadResult.map] at h
  | ok b r₁ =>
    have hlen := (remaining_of_readByte hb).2
    simp only [hb, ReadResult.map, ReadResult.ok.injEq] at h
    cases b with
    | none => simp at h
    | some b =>
      rw [← h.2]
      simp at hlen
      omega

/-- A character of UTF-8 costs at least its leading byte. -/
theorem remaining_of_readUtf8 {r r' : CharReader} {c : Char}
    (h : r.readUtf8 = .ok (some c) r') : r'.remaining < r.remaining := by
  unfold readUtf8 at h
  split at h
  · cases h
  · cases h
  · next lead r₁ hb =>
    have hlen := (remaining_of_readByte hb).2
    simp at hlen
    split at h
    · cases h; omega
    · split at h
      · cases h
      · next others s hs =>
        cases h
        have := ByteStream.length_of_readBytes hs
        simp only [remaining] at *
        omega

/-- A unit off the bytes costs at least a byte. -/
theorem remaining_of_readNewUnit {r r' : CharReader} {u : Nat}
    (h : r.readNewUnit = .ok (some u) r') : r'.kept = r.kept ∧ r'.remaining < r.remaining := by
  unfold readNewUnit at h
  split at h
  · cases h
  · cases h
  · next a r₁ ha =>
    obtain ⟨hk, hlen⟩ := remaining_of_readByte ha
    simp at hlen
    split at h
    · cases h
    · next r₂ hb =>
      obtain ⟨hk₂, hlen₂⟩ := remaining_of_readByte hb
      cases h
      simp at hlen₂
      exact ⟨hk₂.trans hk, by omega⟩
    · next b r₂ hb =>
      obtain ⟨hk₂, hlen₂⟩ := remaining_of_readByte hb
      cases h
      simp at hlen₂
      exact ⟨hk₂.trans hk, by omega⟩

/-- After a unit none is kept, and it costs at least one byte or the unit kept. -/
theorem remaining_of_readUnit {r r' : CharReader} {u : Nat}
    (h : r.readUnit = .ok (some u) r') : r'.kept = none ∧ r'.remaining < r.remaining := by
  unfold readUnit at h
  split at h
  · next v hk =>
    cases h
    simp [remaining, hk]
  · next hk =>
    obtain ⟨hk', hlen⟩ := remaining_of_readNewUnit h
    exact ⟨hk'.trans hk, hlen⟩

/-- A unit, or the end, never adds anything. -/
theorem remaining_of_readUnit_le {r r' : CharReader} {u : Option Nat}
    (h : r.readUnit = .ok u r') : r'.remaining ≤ r.remaining := by
  cases u with
  | some u => exact Nat.le_of_lt (remaining_of_readUnit h).2
  | none =>
    unfold readUnit at h
    split at h
    · cases h
    · unfold readNewUnit at h
      split at h
      · cases h
      · next hb =>
        cases h
        have := (remaining_of_readByte hb).2
        omega
      · split at h <;> cases h

/-- Completing a unit never leaves more than there was. -/
theorem remaining_of_completeUnit {r r' : CharReader} {u : Nat} {c : Option Char}
    (h : r.completeUnit u = .ok c r') : r'.remaining ≤ r.remaining := by
  unfold completeUnit at h
  split at h
  · split at h
    · cases h
    · next hu => cases h; exact remaining_of_readUnit_le hu
    · next v r₁ hu =>
      obtain ⟨hk, hlen⟩ := remaining_of_readUnit hu
      split at h
      · cases h; omega
      · cases h
        simp only [remaining, hk] at *
        simp at *
        omega
  · split at h <;> cases h <;> exact Nat.le_refl _

/-- Settling the order adds the unit at most. -/
theorem remaining_of_settleOrder {r : CharReader} (h : r.kept = none) (u : Nat) :
    (r.settleOrder u).remaining ≤ r.remaining + 1 := by
  unfold settleOrder
  split
  · exact Nat.le_succ _
  · split
    · exact Nat.le_succ _
    · simp [remaining, h]

/-- A character of UTF-16 costs at least one byte or the unit kept. -/
theorem remaining_of_readUtf16 {r r' : CharReader} {c : Char}
    (h : r.readUtf16 = .ok (some c) r') : r'.remaining < r.remaining := by
  unfold readUtf16 at h
  split at h
  · cases h
  · cases h
  · next u r₁ hu =>
    obtain ⟨hk, hlen⟩ := remaining_of_readUnit hu
    split at h
    · have := remaining_of_completeUnit h
      omega
    · split at h
      · cases h
      · cases h
      · next v r₂ hv =>
        have h₁ := remaining_of_completeUnit h
        have h₂ := (remaining_of_readUnit hv).2
        have h₃ := remaining_of_settleOrder hk u
        omega

theorem remaining_of_readChar {r r' : CharReader} {c : Char}
    (h : r.readChar = .ok (some c) r') : r'.remaining < r.remaining := by
  unfold readChar at h
  split at h
  · exact remaining_of_readUtf8 h
  · exact remaining_of_readUtf16 h
  · exact remaining_of_readUtf16 h
  · exact remaining_of_readUtf16 h
  · exact remaining_of_readSingle h
  · exact remaining_of_readSingle h
  · exact remaining_of_readSingle h
  · exact remaining_of_readSingle h

/-! At the end of the data nothing is added. -/

theorem remaining_of_readSingle_none {char : UInt8 → Char} {r r' : CharReader}
    (h : readSingle char r = .ok none r') : r'.remaining ≤ r.remaining := by
  unfold readSingle at h
  cases hb : r.readByte with
  | fault e r₁ => simp [hb, ReadResult.map] at h
  | ok b r₁ =>
    have hlen := (remaining_of_readByte hb).2
    simp only [hb, ReadResult.map, ReadResult.ok.injEq] at h
    rw [← h.2]
    omega

theorem remaining_of_readUtf8_none {r r' : CharReader} (h : r.readUtf8 = .ok none r') :
    r'.remaining ≤ r.remaining := by
  unfold readUtf8 at h
  split at h
  · cases h
  · next hb =>
    cases h
    have hlen := (remaining_of_readByte hb).2
    omega
  · split at h
    · cases h
    · split at h <;> cases h

theorem remaining_of_readUtf16_none {r r' : CharReader} (h : r.readUtf16 = .ok none r') :
    r'.remaining ≤ r.remaining := by
  unfold readUtf16 at h
  split at h
  · cases h
  · next hu => cases h; exact remaining_of_readUnit_le hu
  · next u r₁ hu =>
    obtain ⟨hk, hlen⟩ := remaining_of_readUnit hu
    split at h
    · have := remaining_of_completeUnit h
      omega
    · have hs := remaining_of_settleOrder hk u
      split at h
      · cases h
      · next hv =>
        cases h
        have := remaining_of_readUnit_le hv
        omega
      · next v r₂ hv =>
        have h₁ := remaining_of_completeUnit h
        have h₂ := (remaining_of_readUnit hv).2
        omega

theorem remaining_of_readChar_none {r r' : CharReader} (h : r.readChar = .ok none r') :
    r'.remaining ≤ r.remaining := by
  unfold readChar at h
  split at h
  · exact remaining_of_readUtf8_none h
  · exact remaining_of_readUtf16_none h
  · exact remaining_of_readUtf16_none h
  · exact remaining_of_readUtf16_none h
  · exact remaining_of_readSingle_none h
  · exact remaining_of_readSingle_none h
  · exact remaining_of_readSingle_none h
  · exact remaining_of_readSingle_none h

/-- The characters up to the end, and how it ends. -/
def readRest (r : CharReader) : List Char × Ending :=
  match _h : r.readChar with
  | .fault e _ => ([], .failure e)
  | .ok none _ => ([], .endOfData)
  | .ok (some c) r' =>
    let rest := r'.readRest
    (c :: rest.1, rest.2)
termination_by r.remaining
decreasing_by all_goals exact remaining_of_readChar _h

end CharReader

end Clipboard
