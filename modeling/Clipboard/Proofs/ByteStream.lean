import Clipboard.ByteStream

/-!
# How a stream is cut does not matter

Readers ask a stream for one byte after the other and make interrupted calls again, so they cannot
tell in what pieces the bytes are delivered. `joined` is the stream that delivers the same bytes in
one piece; `readByte_joined` and `readBytes_joined` say that reading it is reading the stream.

Of a stream in one piece the readers are computed by `readByte_ofBytes_cons` and its companions.
-/

namespace Clipboard

namespace ReadResult

variable {σ τ υ α β : Type}

@[simp] theorem mapRest_ok (f : σ → τ) (a : α) (s : σ) :
    (ReadResult.ok a s).mapRest f = .ok a (f s) := rfl

@[simp] theorem mapRest_fault (f : σ → τ) (e : ReadFault) (s : σ) :
    (ReadResult.fault e s : ReadResult σ α).mapRest f = .fault e (f s) := rfl

@[simp] theorem map_ok (f : α → β) (a : α) (s : σ) :
    (ReadResult.ok a s).map f = .ok (f a) s := rfl

@[simp] theorem map_fault (f : α → β) (e : ReadFault) (s : σ) :
    (ReadResult.fault e s : ReadResult σ α).map f = .fault e s := rfl

theorem mapRest_mapRest (f : σ → τ) (g : τ → υ) (x : ReadResult σ α) :
    (x.mapRest f).mapRest g = x.mapRest (fun s => g (f s)) := by
  cases x <;> rfl

theorem map_mapRest (f : α → β) (g : σ → τ) (x : ReadResult σ α) :
    (x.mapRest g).map f = (x.map f).mapRest g := by
  cases x <;> rfl

end ReadResult

namespace ByteStream

/-- A stream that can be read to its end has one, and holds what was read. -/
theorem readAll_eq_ok_iff {s : ByteStream} {bytes : Bytes} :
    s.readAll = .ok bytes ↔ s.ending = .endOfData ∧ s.toBytes = bytes := by
  unfold readAll
  split <;> simp_all

/-! ## The bytes in one piece -/

@[simp] theorem flatMap_bytesOf_deliver (bytes : Bytes) :
    (deliver bytes).flatMap bytesOf = bytes := by
  cases bytes <;> simp [deliver, bytesOf]

/-- The same bytes delivered in one piece. -/
def joined (s : ByteStream) : ByteStream := { deliveries := deliver s.toBytes, ending := s.ending }

@[simp] theorem ending_joined (s : ByteStream) : s.joined.ending = s.ending := rfl

@[simp] theorem toBytes_joined (s : ByteStream) : s.joined.toBytes = s.toBytes :=
  flatMap_bytesOf_deliver s.toBytes

/-- A stream with an end is the stream of its bytes. -/
theorem joined_eq_ofBytes {s : ByteStream} (h : s.ending = .endOfData) :
    s.joined = ofBytes s.toBytes := by
  simp [joined, ofBytes, h]

theorem firstByte_deliver_cons (b : UInt8) (bs : Bytes) :
    firstByte (deliver (b :: bs)) = some (b, deliver bs) := by
  cases bs <;> rfl

/-- Asked for a byte, the stream in one piece gives the same one. -/
theorem readByte_joined (s : ByteStream) : s.joined.readByte = s.readByte.mapRest joined := by
  obtain ⟨hsome, hnone⟩ := flatMap_bytesOf_of_firstByte s.deliveries
  cases hf : firstByte s.deliveries with
  | some p =>
    obtain ⟨b, rest⟩ := p
    have hbytes : s.joined.deliveries = deliver (b :: rest.flatMap bytesOf) := by
      rw [← hsome b rest hf]
      rfl
    rw [readByte, readByte, hbytes, firstByte_deliver_cons, hf]
    rfl
  | none =>
    have hbytes : s.joined.deliveries = deliver [] := by
      rw [← hnone hf]
      rfl
    rw [readByte, readByte, hbytes, hf, ending_joined]
    cases s.ending <;> rfl

/-- Asked for several bytes, the stream in one piece gives the same ones. -/
theorem readBytes_joined (s : ByteStream) (n : Nat) :
    s.joined.readBytes n = (s.readBytes n).mapRest joined := by
  induction n generalizing s with
  | zero => rfl
  | succ n ih =>
    rw [readBytes, readBytes, readByte_joined]
    cases s.readByte with
    | fault e s' => rfl
    | ok b s' =>
      cases b with
      | none => rfl
      | some b => simp [ih, ReadResult.map_mapRest]

/-! ## Reading a stream in one piece -/

@[simp] theorem ending_ofBytes (bytes : Bytes) : (ofBytes bytes).ending = .endOfData := rfl

@[simp] theorem readByte_ofBytes_nil : (ofBytes []).readByte = .ok none (ofBytes []) := rfl

@[simp] theorem readByte_ofBytes_cons (b : UInt8) (bs : Bytes) :
    (ofBytes (b :: bs)).readByte = .ok (some b) (ofBytes bs) := by
  simp [readByte, ofBytes, firstByte_deliver_cons]

/-- As many bytes as are asked for, or all. -/
@[simp] theorem readBytes_ofBytes (bytes : Bytes) (n : Nat) :
    (ofBytes bytes).readBytes n = .ok (bytes.take n) (ofBytes (bytes.drop n)) := by
  induction n generalizing bytes with
  | zero => rfl
  | succ n ih => cases bytes <;> simp [readBytes, ih]

/-! ## The end -/

/-- Nothing is left behind the answer that there is no byte. -/
theorem readByte_none {s s' : ByteStream} (h : s.readByte = .ok none s') :
    s'.toBytes = [] ∧ s'.ending = .endOfData := by
  unfold readByte at h
  split at h
  · cases h
  · split at h
    · next hend =>
      cases h
      exact ⟨rfl, hend⟩
    · cases h

/-- A stream without bytes that ends answers that there is no byte. -/
theorem readByte_of_toBytes_nil {s : ByteStream} (hbytes : s.toBytes = [])
    (hend : s.ending = .endOfData) : ∃ s', s.readByte = .ok none s' := by
  have hnone : firstByte s.deliveries = none := by
    cases hf : firstByte s.deliveries with
    | none => rfl
    | some p =>
      have := (flatMap_bytesOf_of_firstByte s.deliveries).1 p.1 p.2 hf
      rw [toBytes] at hbytes
      simp [hbytes] at this
  exact ⟨{ s with deliveries := [] }, by simp [readByte, hnone, hend]⟩

/-- Reading a byte does not change how the stream ends. -/
theorem ending_of_readByte {s s' : ByteStream} {b : Option UInt8} (h : s.readByte = .ok b s') :
    s'.ending = s.ending := by
  unfold readByte at h
  split at h
  · cases h; rfl
  · split at h
    · cases h; rfl
    · cases h

/-- Reading a byte fails only as the stream does. -/
theorem ending_of_readByte_fault {s s' : ByteStream} {e : ReadFault}
    (h : s.readByte = .fault e s') : s.ending = .failure e := by
  unfold readByte at h
  split at h
  · cases h
  · split at h
    · cases h
    · next hend => cases h; exact hend

/-- Reading bytes does not change how the stream ends. -/
theorem ending_of_readBytes {n : Nat} {s s' : ByteStream} {bs : Bytes}
    (h : s.readBytes n = .ok bs s') : s'.ending = s.ending := by
  induction n generalizing s bs with
  | zero => cases h; rfl
  | succ n ih =>
    unfold readBytes at h
    split at h
    · cases h
    · next hb => cases h; exact ending_of_readByte hb
    · next b s₁ hb =>
      cases hr : s₁.readBytes n with
      | fault e s₂ => simp [hr] at h
      | ok bs₂ s₂ =>
        simp only [hr, ReadResult.map_ok, ReadResult.ok.injEq] at h
        rw [h.2] at hr
        rw [ih hr, ending_of_readByte hb]

/-- Reading bytes fails only as the stream does. -/
theorem ending_of_readBytes_fault {n : Nat} {s s' : ByteStream} {e : ReadFault}
    (h : s.readBytes n = .fault e s') : s.ending = .failure e := by
  induction n generalizing s with
  | zero => cases h
  | succ n ih =>
    unfold readBytes at h
    split at h
    · next hb => cases h; exact ending_of_readByte_fault hb
    · cases h
    · next b s₁ hb =>
      cases hr : s₁.readBytes n with
      | fault e₂ s₂ =>
        simp only [hr, ReadResult.map_fault, ReadResult.fault.injEq] at h
        obtain ⟨rfl, rfl⟩ := h
        rw [← ending_of_readByte hb, ih hr]
      | ok bs₂ s₂ => simp [hr] at h

/-- Behind a failure nothing is left. -/
theorem toBytes_of_readByte_fault {s s' : ByteStream} {fault : ReadFault}
    (h : s.readByte = .fault fault s') : s'.toBytes = [] ∧ s'.ending = .failure fault := by
  unfold readByte at h
  split at h
  · cases h
  · split at h
    · cases h
    · next hend =>
      cases h
      exact ⟨rfl, hend⟩

theorem toBytes_of_readBytes_fault {n : Nat} {s s' : ByteStream} {fault : ReadFault}
    (h : s.readBytes n = .fault fault s') : s'.toBytes = [] ∧ s'.ending = .failure fault := by
  induction n generalizing s with
  | zero => cases h
  | succ n ih =>
    unfold readBytes at h
    split at h
    · next hb => cases h; exact toBytes_of_readByte_fault hb
    · cases h
    · next b s₁ hb =>
      cases hr : s₁.readBytes n with
      | ok bs₂ s₂ => simp [hr] at h
      | fault e₂ s₂ =>
        simp only [hr, ReadResult.map_fault, ReadResult.fault.injEq] at h
        obtain ⟨rfl, rfl⟩ := h
        exact ih hr

/-- A stream without bytes that fails answers so. -/
theorem readByte_of_failure {s : ByteStream} {fault : ReadFault}
    (hbytes : s.toBytes = []) (hend : s.ending = .failure fault) :
    ∃ s', s.readByte = .fault fault s' := by
  cases h : s.readByte with
  | fault e s' =>
    have hfails := ending_of_readByte_fault h
    rw [hend, Ending.failure.injEq] at hfails
    exact ⟨s', by rw [hfails]⟩
  | ok b s' =>
    cases b with
    | none =>
      rw [← ending_of_readByte h, (readByte_none h).2] at hend
      cases hend
    | some b =>
      have hlen := length_of_readByte h
      simp [hbytes] at hlen

end ByteStream

end Clipboard
