import Clipboard.Charset.Reader
import Clipboard.NativeText

/-!
# Native text read piece by piece

A `Reencoder` gives the bytes of a native text in another charset, and takes no more from the
source than it needs for the bytes asked for. Characters come off the source one at a time. NUL
ends the text if the format has a terminator; a line end of the format becomes a line feed. To see
whether a line end follows, characters are read ahead; if none does they are put back.

When the source fails, the call fails and what it had gathered is lost with it.

* `read` asks for some bytes; `available` counts those that can be had without reading on.
* `drain` reads to the end; `toStream` makes that a stream again.
-/

namespace Clipboard.NativeText

/-- A native text that is being read. -/
structure Reencoder where
  source : CharReader
  encoder : Charset.Encoder
  eoln : Option (List Char)
  /-- Whether NUL ends the text. -/
  terminated : Bool
  /-- Characters that were read ahead and put back. -/
  ahead : List Char
  /-- Bytes that are encoded and not yet given out. -/
  pending : Bytes
  ended : Bool
  deriving DecidableEq, Repr

namespace Reencoder

/-- A text in the charset `source` of which nothing has been read. -/
def new (source target : Charset) (props : TextProperties) (stream : ByteStream) : Reencoder :=
  { source := CharReader.new source stream
    encoder := target.encoder
    eoln := props.eoln.map String.toList
    terminated := 0 < props.terminators
    ahead := []
    pending := []
    ended := false }

abbrev Result (α : Type) := ReadResult Reencoder α

/-- The bytes that are encoded and not yet given out. -/
def available (r : Reencoder) : Nat := r.pending.length

/-! ## Characters -/

/-- The next character of the source, those put back first. -/
def nextChar (r : Reencoder) : Result (Option Char) :=
  match r.ahead with
  | c :: cs => .ok (some c) { r with ahead := cs }
  | [] => r.source.readChar.mapRest ({ r with source := · })

/-- Characters as long as they are the ones expected; the last may be another. -/
def lookAhead : (expected : List Char) → (r : Reencoder) → Result (List Char)
  | [], r => .ok [] r
  | e :: es, r =>
    match r.nextChar with
    | .fault fault r => .fault fault r
    | .ok none r => .ok [] r
    | .ok (some c) r => if c = e then (lookAhead es r).map (c :: ·) else .ok [c] r

/-- Whether the marker follows, `first` having been read; if not, the rest is put back. -/
def matchMarker (marker : List Char) (first : Char) (r : Reencoder) : Result Bool :=
  match marker with
  | [] => .ok false r
  | m :: ms =>
    if m ≠ first then .ok false r
    else
      match lookAhead ms r with
      | .fault fault r => .fault fault r
      | .ok taken r =>
        if taken = ms then .ok true r else .ok false { r with ahead := taken ++ r.ahead }

def readChar (r : Reencoder) : Result (Option Char) :=
  match r.nextChar with
  | .fault fault r => .fault fault r
  | .ok none r => .ok none { r with ended := true }
  | .ok (some c) r =>
    -- the terminator ends the text before a marker is looked for
    if r.terminated ∧ c = '\x00' then .ok none { r with ended := true }
    else (matchMarker (r.eoln.getD []) c r).map (fun found => some (if found then '\n' else c))

/-! ## Bytes -/

/-- The next byte; nothing at the end of the text. -/
def readByte (r : Reencoder) : Result (Option UInt8) :=
  match r.pending with
  | b :: bs => .ok (some b) { r with pending := bs }
  | [] =>
    if r.ended then .ok none r
    else
      match r.readChar with
      | .fault fault r => .fault fault r
      | .ok none r => .ok none r
      | .ok (some c) r =>
        match r.encoder.encodeChar c with
        | ([], encoder) => .ok none { r with encoder }
        | (b :: bs, encoder) => .ok (some b) { r with encoder, pending := bs }

/-- Up to `n` bytes; fewer at the end of the text. -/
def read : (n : Nat) → (r : Reencoder) → Result Bytes
  | 0, r => .ok [] r
  | n + 1, r =>
    match r.readByte with
    | .fault fault r => .fault fault r
    | .ok none r => .ok [] r
    | .ok (some b) r => (read n r).map (b :: ·)

/-! ## Progress -/

/-- What is left to read: bytes, a unit kept, and characters put back. -/
def remaining (r : Reencoder) : Nat := r.source.remaining + r.ahead.length

theorem remaining_of_nextChar {r r' : Reencoder} {c : Char} (h : r.nextChar = .ok (some c) r') :
    r'.remaining < r.remaining := by
  unfold nextChar at h
  split at h
  · next c' cs hahead =>
    cases h
    simp [remaining, hahead]
  · next hahead =>
    cases hc : r.source.readChar with
    | fault fault s => simp [hc, ReadResult.mapRest] at h
    | ok c' s =>
      simp only [hc, ReadResult.mapRest, ReadResult.ok.injEq] at h
      obtain ⟨rfl, rfl⟩ := h
      have := CharReader.remaining_of_readChar hc
      simp only [remaining, hahead, List.length_nil]
      omega

/-- At the end of the source nothing is added. -/
theorem remaining_of_nextChar_none {r r' : Reencoder} (h : r.nextChar = .ok none r') :
    r'.remaining ≤ r.remaining := by
  unfold nextChar at h
  split at h
  · cases h
  · next hahead =>
    cases hc : r.source.readChar with
    | fault fault s => simp [hc, ReadResult.mapRest] at h
    | ok c' s =>
      simp only [hc, ReadResult.mapRest, ReadResult.ok.injEq] at h
      obtain ⟨rfl, rfl⟩ := h
      have := CharReader.remaining_of_readChar_none hc
      simp only [remaining, hahead, List.length_nil]
      omega

/-- Looking ahead costs at least the characters it gives. -/
theorem remaining_of_lookAhead {expected taken : List Char} {r r' : Reencoder}
    (h : lookAhead expected r = .ok taken r') : r'.remaining + taken.length ≤ r.remaining := by
  induction expected generalizing r taken with
  | nil => cases h; simp
  | cons e es ih =>
    unfold lookAhead at h
    split at h
    · cases h
    · next r₁ hc =>
      cases h
      have := remaining_of_nextChar_none hc
      simpa using this
    · next c r₁ hc =>
      have hlt := remaining_of_nextChar hc
      split at h
      · cases hl : lookAhead es r₁ with
        | fault fault r₂ => simp [hl, ReadResult.map] at h
        | ok taken₂ r₂ =>
          simp only [hl, ReadResult.map, ReadResult.ok.injEq] at h
          obtain ⟨rfl, rfl⟩ := h
          have := ih hl
          simp only [List.length_cons]
          omega
      · cases h
        simp only [List.length_singleton]
        omega

/-- Looking for a marker never leaves more than there was. -/
theorem remaining_of_matchMarker {marker : List Char} {first : Char} {found : Bool}
    {r r' : Reencoder} (h : matchMarker marker first r = .ok found r') :
    r'.remaining ≤ r.remaining := by
  unfold matchMarker at h
  split at h
  · cases h; exact Nat.le_refl _
  · split at h
    · cases h; exact Nat.le_refl _
    · split at h
      · cases h
      · next ms _ taken r₁ hl =>
        have := remaining_of_lookAhead hl
        split at h
        · cases h; omega
        · cases h
          simp only [remaining, List.length_append] at *
          omega

/-- A character of the text costs something. -/
theorem remaining_of_readChar {r r' : Reencoder} {c : Char} (h : r.readChar = .ok (some c) r') :
    r'.remaining < r.remaining := by
  unfold readChar at h
  split at h
  · cases h
  · cases h
  · next c' r₁ hc =>
    have hlt := remaining_of_nextChar hc
    split at h
    · cases h
    · cases hm : matchMarker (r₁.eoln.getD []) c' r₁ with
      | fault fault r₂ => simp [hm, ReadResult.map] at h
      | ok found r₂ =>
        simp only [hm, ReadResult.map, ReadResult.ok.injEq] at h
        obtain ⟨-, rfl⟩ := h
        have := remaining_of_matchMarker hm
        omega

/-! ## To the end -/

/-- The characters up to the end of the text, and how it ends. -/
def readRest (r : Reencoder) : List Char × Ending :=
  if r.ended then ([], .endOfData)
  else
    match _h : r.readChar with
    | .fault fault _ => ([], .failure fault)
    | .ok none _ => ([], .endOfData)
    | .ok (some c) r' =>
      let rest := r'.readRest
      (c :: rest.1, rest.2)
termination_by r.remaining
decreasing_by all_goals exact remaining_of_readChar _h

/-- The bytes up to the end of the text, and how it ends. -/
def drain (r : Reencoder) : Bytes × Ending :=
  let rest := r.readRest
  (r.pending ++ (r.encoder.encodeText rest.1).1, rest.2)

def toStream (r : Reencoder) : ByteStream :=
  let all := r.drain
  { deliveries := ByteStream.deliver all.1, ending := all.2 }

end Reencoder

end Clipboard.NativeText
