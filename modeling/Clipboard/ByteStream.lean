import Clipboard.Text.Hex

/-!
# Byte streams

A byte stream is all that its reader will ever be told: a finite list of answers, then how it
ends. An answer either delivers some bytes or says that the call was interrupted and is to be made
again. A stream that fails goes on failing.

`read` makes one call. `readByte` asks for one byte and makes interrupted calls again. `toBytes`
is what a stream delivers in all, and `readAll` reads it to its end.
-/

namespace Clipboard

/-- Why reading went wrong. -/
inductive ReadFault where
  /-- The source of the bytes reported a failure. -/
  | failed (detail : String)
  /-- The bytes were to be text and are not UTF-8. -/
  | notUtf8
  deriving DecidableEq, Repr

def ReadFault.message : ReadFault → String
  | .failed detail => detail
  | .notUtf8 => "stream did not contain valid UTF-8"

/-- What a reading step gives: a value or a fault, and what is left to read after it. -/
inductive ReadResult (σ α : Type) where
  | ok (value : α) (rest : σ)
  | fault (fault : ReadFault) (rest : σ)

/-- The same result with what is left seen as part of something larger. -/
def ReadResult.mapRest {σ τ α : Type} (f : σ → τ) : ReadResult σ α → ReadResult τ α
  | .ok a s => .ok a (f s)
  | .fault e s => .fault e (f s)

def ReadResult.map {σ α β : Type} (f : α → β) : ReadResult σ α → ReadResult σ β
  | .ok a s => .ok (f a) s
  | .fault e s => .fault e s

/-- One answer of a stream before its end. -/
inductive Delivery where
  | interrupted
  | bytes (first : UInt8) (others : Bytes)
  deriving DecidableEq, Repr

/-- How a stream ends. -/
inductive Ending where
  | endOfData
  | failure (fault : ReadFault)
  deriving DecidableEq, Repr

/-- The answers still to come. -/
structure ByteStream where
  deliveries : List Delivery
  ending : Ending
  deriving DecidableEq, Repr

namespace ByteStream

/-- What one call answers. -/
inductive Answer where
  | interrupted
  /-- The bytes delivered; none at the end of the data. -/
  | bytes (bytes : Bytes)
  | failure (fault : ReadFault)
  deriving DecidableEq, Repr

/-- A delivery of these bytes, if there are any. -/
def deliver : Bytes → List Delivery
  | [] => []
  | b :: bs => [.bytes b bs]

/-- One call for at most `n` bytes, `n` at least one: a delivery that is longer leaves its rest to
the next call. -/
def read (s : ByteStream) (n : Nat) : Answer × ByteStream :=
  match s.deliveries with
  | [] =>
    match s.ending with
    | .endOfData => (.bytes [], s)
    | .failure fault => (.failure fault, s)
  | .interrupted :: rest => (.interrupted, { s with deliveries := rest })
  | .bytes b bs :: rest =>
    (.bytes (b :: bs.take (n - 1)), { s with deliveries := deliver (bs.drop (n - 1)) ++ rest })

/-- The first byte of the deliveries and what is left of them. -/
def firstByte : List Delivery → Option (UInt8 × List Delivery)
  | [] => none
  | .interrupted :: rest => firstByte rest
  | .bytes b [] :: rest => some (b, rest)
  | .bytes b (c :: cs) :: rest => some (b, .bytes c cs :: rest)

/-- The next byte, nothing at the end of the data; interrupted calls are made again. -/
def readByte (s : ByteStream) : ReadResult ByteStream (Option UInt8) :=
  match firstByte s.deliveries with
  | some (b, rest) => .ok (some b) { s with deliveries := rest }
  | none =>
    match s.ending with
    | .endOfData => .ok none { s with deliveries := [] }
    | .failure fault => .fault fault { s with deliveries := [] }

/-- Up to `n` bytes, fewer at the end of the data. -/
def readBytes (s : ByteStream) : Nat → ReadResult ByteStream Bytes
  | 0 => .ok [] s
  | n + 1 =>
    match s.readByte with
    | .fault fault s' => .fault fault s'
    | .ok none s' => .ok [] s'
    | .ok (some b) s' => (s'.readBytes n).map (b :: ·)

/-! ## What a stream holds -/

def bytesOf : Delivery → Bytes
  | .interrupted => []
  | .bytes b bs => b :: bs

/-- The bytes still to come, in order. -/
def toBytes (s : ByteStream) : Bytes := s.deliveries.flatMap bytesOf

/-- All the bytes, or the failure at their end. -/
def readAll (s : ByteStream) : Except ReadFault Bytes :=
  match s.ending with
  | .endOfData => .ok s.toBytes
  | .failure fault => .error fault

/-- What `firstByte` takes off is the first of the bytes. -/
theorem flatMap_bytesOf_of_firstByte (ds : List Delivery) :
    (∀ b rest, firstByte ds = some (b, rest) → ds.flatMap bytesOf = b :: rest.flatMap bytesOf)
      ∧ (firstByte ds = none → ds.flatMap bytesOf = []) := by
  fun_induction firstByte ds with
  | case1 => simp
  | case2 rest ih => simpa [bytesOf] using ih
  | case3 b rest => simp [bytesOf]
  | case4 b c cs rest => simp [bytesOf]

/-- One byte read is one byte less to come. -/
theorem length_of_readByte {s s' : ByteStream} {b : Option UInt8} (h : s.readByte = .ok b s') :
    s'.toBytes.length + (if b.isSome then 1 else 0) = s.toBytes.length := by
  have hfirst := flatMap_bytesOf_of_firstByte s.deliveries
  unfold readByte at h
  split at h
  · next b' rest heq =>
    cases h
    simp [toBytes, hfirst.1 _ _ heq]
  · next heq =>
    split at h
    · cases h
      simp [toBytes, hfirst.2 heq]
    · cases h

/-- Reading never adds to the bytes still to come. -/
theorem length_of_readBytes {n : Nat} {s s' : ByteStream} {bs : Bytes}
    (h : s.readBytes n = .ok bs s') : s'.toBytes.length ≤ s.toBytes.length := by
  induction n generalizing s bs with
  | zero => cases h; exact Nat.le_refl _
  | succ n ih =>
    unfold readBytes at h
    split at h
    · cases h
    · next hb =>
      cases h
      have := length_of_readByte hb
      omega
    · next b s₁ hb =>
      have hlen := length_of_readByte hb
      cases hr : s₁.readBytes n with
      | fault fault s₂ => simp [hr, ReadResult.map] at h
      | ok bs₂ s₂ =>
        simp only [hr, ReadResult.map, ReadResult.ok.injEq] at h
        rw [h.2] at hr
        have := ih hr
        simp at hlen
        omega

/-! ## Making streams -/

/-- A stream that delivers the bytes in one piece. -/
def ofBytes (bytes : Bytes) : ByteStream := { deliveries := deliver bytes, ending := .endOfData }

@[simp] theorem toBytes_ofBytes (bytes : Bytes) : (ofBytes bytes).toBytes = bytes := by
  cases bytes <;> simp [ofBytes, deliver, toBytes, bytesOf]

/-- The bytes in deliveries of `size + 1`, the last one with what is left. -/
def inPieces (size : Nat) : Bytes → List Delivery
  | [] => []
  | b :: bs => .bytes b (bs.take size) :: inPieces size (bs.drop size)
termination_by bytes => bytes.length
decreasing_by simp only [List.length_drop, List.length_cons]; omega

/-- Every answer, and the end, behind an interrupted call. -/
def interrupting (ds : List Delivery) : List Delivery :=
  ds.flatMap (fun d => [.interrupted, d]) ++ [.interrupted]

end ByteStream

end Clipboard
