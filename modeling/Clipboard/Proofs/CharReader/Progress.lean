import Clipboard.Proofs.CharReader.ToEnd

/-!
# Asking for characters comes to an end

A character costs at least a byte or the unit kept. A run of calls has therefore given no more
characters than the bytes it took (`length_of_reads`), and a stream of `n` bytes holds at most `n`.

`answer` is what one call after the other answers, without an end. Before each call the source may
take to interrupting again, also one that is at its end and stays there. That changes no answer
(`answer_congr`), so the answers are the characters of the text, and from then on that there is none.
-/

namespace Clipboard

namespace ReadResult

variable {σ τ α : Type}

/-- The value or the fault, without what is left to read. -/
def value : ReadResult σ α → Except ReadFault α
  | .ok a _ => .ok a
  | .fault e _ => .error e

/-- What is left to read, whether or not there was a fault. -/
def rest : ReadResult σ α → σ
  | .ok _ s => s
  | .fault _ s => s

@[simp] theorem value_mapRest (f : σ → τ) (x : ReadResult σ α) :
    (x.mapRest f).value = x.value := by
  cases x <;> rfl

@[simp] theorem rest_mapRest (f : σ → τ) (x : ReadResult σ α) :
    (x.mapRest f).rest = f x.rest := by
  cases x <;> rfl

end ReadResult

namespace ByteStream

/-- The stream that interrupts `n` calls before it goes on. -/
def interrupted (n : Nat) (s : ByteStream) : ByteStream :=
  { s with deliveries := List.replicate n .interrupted ++ s.deliveries }

@[simp] theorem ending_interrupted (n : Nat) (s : ByteStream) :
    (s.interrupted n).ending = s.ending := rfl

@[simp] theorem toBytes_interrupted (n : Nat) (s : ByteStream) :
    (s.interrupted n).toBytes = s.toBytes := by
  simp [interrupted, toBytes, bytesOf, List.flatMap_replicate]

end ByteStream

namespace CharReader

variable {r r' last last' : CharReader} {text : List Char}

/-! ## The cost of a run -/

/-- Characters cost as many bytes and units kept. -/
theorem length_of_reads (h : Reads r text last) : text.length + last.remaining ≤ r.remaining := by
  induction h with
  | done r => simp
  | next hread _ ih =>
    have hlt := remaining_of_readChar hread
    simp only [List.length_cons]
    omega

/-- At the start no unit is kept. -/
theorem remaining_new (cs : Charset) (stream : ByteStream) :
    (new cs stream).remaining = stream.toBytes.length := rfl

/-! ## One call after the other -/

/-- The reader whose source interrupts `n` calls before it goes on. -/
def interrupted (n : Nat) (r : CharReader) : CharReader :=
  { r with source := r.source.interrupted n }

@[simp] theorem joined_interrupted (n : Nat) (r : CharReader) :
    (r.interrupted n).joined = r.joined := by
  simp [interrupted, joined, ByteStream.joined]

/-- What call `i` for the next character answers, the first being call 0. Before each call `j` the
source takes to interrupting it, `interruptions j` times, before it goes on. -/
def answer (interruptions : Nat → Nat) (r : CharReader) : Nat → Except ReadFault (Option Char)
  | 0 => (r.interrupted (interruptions 0)).readChar.value
  | i + 1 =>
    answer (fun j => interruptions (j + 1)) (r.interrupted (interruptions 0)).readChar.rest i

/-- Readers of the same bytes give the same character and go on as readers of the same bytes. -/
theorem readChar_congr (h : r.joined = r'.joined) :
    r.readChar.value = r'.readChar.value ∧ r.readChar.rest.joined = r'.readChar.rest.joined := by
  have hread : r.readChar.mapRest joined = r'.readChar.mapRest joined := by
    rw [← readChar_joined, ← readChar_joined, h]
  exact ⟨by simpa using congrArg ReadResult.value hread,
    by simpa using congrArg ReadResult.rest hread⟩

/-- **In what pieces the bytes come makes no difference to the answers.** -/
theorem answer_congr (h : r.joined = r'.joined) (interruptions : Nat → Nat) (i : Nat) :
    r.answer interruptions i = r'.answer interruptions i := by
  induction i generalizing r r' interruptions with
  | zero => exact (readChar_congr (by simpa using h)).1
  | succ i ih => exact ih (readChar_congr (by simpa using h)).2 _

/-- The first answer does not depend on what the source interrupts. -/
theorem answer_zero (interruptions : Nat → Nat) (r : CharReader) :
    r.answer interruptions 0 = r.readChar.value :=
  (readChar_congr (joined_interrupted (interruptions 0) r)).1

/-- The answers behind the first are those of the reader that the first call leaves. -/
theorem answer_succ (interruptions : Nat → Nat) (r : CharReader) (i : Nat) :
    r.answer interruptions (i + 1) = r.readChar.rest.answer (fun j => interruptions (j + 1)) i :=
  answer_congr (readChar_congr (joined_interrupted (interruptions 0) r)).2 _ i

/-- **Where nothing is left no call finds anything.** -/
theorem Exhausted.answer (h : r.Exhausted) (interruptions : Nat → Nat) (i : Nat) :
    r.answer interruptions i = .ok none := by
  induction i generalizing r interruptions with
  | zero =>
    obtain ⟨r', hread⟩ := h.readChar
    rw [answer_zero, hread, ReadResult.value]
  | succ i ih =>
    obtain ⟨r', hread, hexhausted⟩ := h.readChar_again
    rw [answer_succ, hread]
    exact ih hexhausted _

/-- The answers are the characters of a run that comes to the end, and behind them that there is
none. -/
theorem answer_of_reads (h : Reads r text last) (hend : last.readChar = .ok none last')
    (interruptions : Nat → Nat) (i : Nat) : r.answer interruptions i = .ok text[i]? := by
  induction h generalizing interruptions i with
  | done r =>
    cases i with
    | zero => rw [answer_zero, hend]; rfl
    | succ i => rw [answer_succ, hend]; exact (exhausted_of_readChar hend).answer _ i
  | next hread _ ih =>
    cases i with
    | zero => rw [answer_zero, hread]; rfl
    | succ i => rw [answer_succ, hread]; exact ih hend _ i

/-- **Calls for characters come to the end and stay there.** A stream of `n` bytes gives the text
that is read off its bytes, which has at most `n` characters, and every call behind it answers that
there is none. -/
theorem answer_new (cs : Charset) {stream : ByteStream} {bytes : Bytes}
    (h : stream.readAll = .ok bytes) :
    (cs.decodeStepwise bytes).length ≤ bytes.length ∧
      ∀ interruptions i,
        (new cs stream).answer interruptions i = .ok (cs.decodeStepwise bytes)[i]? := by
  obtain ⟨last, last', hreads, hend⟩ := (readsToEnd_new_iff_stepwise cs h _).mpr rfl
  refine ⟨?_, answer_of_reads hreads hend⟩
  calc (cs.decodeStepwise bytes).length
      ≤ (cs.decodeStepwise bytes).length + last.remaining := Nat.le_add_right _ _
    _ ≤ (new cs stream).remaining := length_of_reads hreads
    _ = bytes.length := by
      rw [remaining_new, (ByteStream.readAll_eq_ok_iff.mp h).2]

/-- Half a pair and half a unit: the second character is one of which no byte is left. -/
theorem answer_new_half_unit :
    let stream : ByteStream :=
      { deliveries := [.bytes 0xD8 [], .interrupted, .bytes 0x00 [0x41], .interrupted]
        ending := .endOfData }
    stream.readAll = .ok [0xD8, 0x00, 0x41] ∧
      ∀ interruptions i,
        (new .utf16 stream).answer interruptions i = .ok ['\ufffd', '\ufffd'][i]? := by
  intro stream
  have hbytes : stream.readAll = .ok [0xD8, 0x00, 0x41] := rfl
  have htext : Charset.utf16.decodeStepwise [0xD8, 0x00, 0x41] = ['\ufffd', '\ufffd'] := by
    decide +kernel
  have hanswers := (answer_new .utf16 hbytes).2
  rw [htext] at hanswers
  exact ⟨hbytes, hanswers⟩

end CharReader

end Clipboard
