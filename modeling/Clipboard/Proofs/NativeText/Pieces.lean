import Clipboard.Proofs.Reencoder

/-!
# How a native text is cut does not matter

A `Reencoder` asks for nothing but characters, and these depend on the bytes of the source alone. So
the text read off a stream is the one read off the same bytes in one piece (`toStream_joined`),
whatever the marker, and whatever the end of the stream.
-/

namespace Clipboard.NativeText.Reencoder

/-- The reader of the same bytes delivered in one piece. -/
def joined (r : Reencoder) : Reencoder := { r with source := r.source.joined }

/-- In what pieces the bytes come makes no difference to the characters. -/
theorem unseen_joined : Unseen joined where
  nextChar r := by
    rw [nextChar, nextChar, show r.joined.ahead = r.ahead from rfl]
    cases r.ahead with
    | cons c cs => rfl
    | nil =>
      rw [show r.joined.source = r.source.joined from rfl]
      simp only [CharReader.readChar_joined, ReadResult.mapRest_mapRest]
      rfl
  putBack _ _ := rfl
  finish _ := rfl
  ahead _ := rfl
  ended _ := rfl
  terminated _ := rfl
  eoln _ := rfl

/-- **Whatever the pieces, the text is the same.** -/
theorem readRest_joined (r : Reencoder) : r.joined.readRest = r.readRest :=
  readRest_of_unseen unseen_joined r

theorem toStream_joined (r : Reencoder) : r.joined.toStream = r.toStream := by
  have hpending : r.joined.pending = r.pending := rfl
  have hencoder : r.joined.encoder = r.encoder := rfl
  simp only [toStream, drain, readRest_joined, hpending, hencoder]

/-- The text read off a stream is the one read off its bytes. -/
theorem toStream_new (source target : Charset) (props : TextProperties) {s : ByteStream}
    (hend : s.ending = .endOfData) :
    (new source target props s).toStream
      = (new source target props (.ofBytes s.toBytes)).toStream := by
  rw [← toStream_joined]
  simp [new, joined, CharReader.joined_new source hend]

end Clipboard.NativeText.Reencoder
