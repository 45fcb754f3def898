import Clipboard.Proofs.Steps
import Clipboard.Proofs.Transfer.ImportStream

/-!
# The shape of imported values, and imports that hand on

Whatever an import gives has the representation of the flavor, be it asked for from bytes
(`representation_of_run_importBytes`) or from a stream (`representation_of_run_importStream`).

An import can also be seen as calls that hand on to one another: bytes that are to become a stream
are handed on as one, and a stream that is to become characters or a buffer of bytes is handed on as
its bytes. `call` is one such call and `importWithin` makes as many as it is allowed. Two are always
enough (`run_importWithin`).
-/

namespace Clipboard

/-- What is imported. -/
inductive NativeData where
  | bytes (bytes : Bytes)
  | stream (s : ByteStream)

/-- What one call comes to. -/
inductive Handover where
  | finished (v? : Option TransferValue)
  /-- Another call on these data is to give the value. -/
  | handedOn (data : NativeData)

namespace Engine

variable {e : Engine} {f : Flavor} {id : FormatId} {locale? : Option Source} {bytes : Bytes}
  {s : ByteStream} {memo after : SubtypeMemo} {v : TransferValue}

/-! ## Shapes -/

theorem representation_of_isFileList (h : f.isFileList = true) : f.representation = .fileList :=
  of_decide_eq_true (Bool.and_eq_true_iff.mp h).1

theorem representation_of_importFiles (h : e.importFiles bytes f = .ok (some v)) :
    v.representation = f.representation := by
  rw [importFiles] at h
  split at h
  · next hf =>
    split at h
    · cases h
    · cases h
    · cases h
      exact (representation_of_isFileList hf).symm
  · cases h

theorem representation_of_importUris (h : e.importUris bytes id = .ok v) :
    v.representation = .fileList := by
  obtain ⟨native, -, h⟩ := of_bind_eq_ok h
  obtain ⟨charset, -, h⟩ := of_bind_eq_ok h
  cases h
  rfl

/-- An object becomes a value of the representation asked for, or none. -/
theorem representation_of_objectValue {rep : Representation} {object : Json.Value}
    (h : objectValue rep object = .ok v) : v.representation = rep := by
  unfold objectValue at h
  split at h
  · cases h
    rfl
  · obtain ⟨paths, -, rfl⟩ := of_map_eq_ok h
    rfl
  · cases h
    rfl
  · cases h

theorem representation_of_importObject {rep : Representation}
    (h : e.importObject bytes rep = .ok v) : v.representation = rep := by
  rw [importObject] at h
  split at h
  · cases h
  · exact representation_of_objectValue h

theorem representation_of_importImage {native : NativeFormat}
    (h : e.importImage bytes native = .ok v) : v.representation = .image := by
  obtain ⟨image, -, rfl⟩ := of_map_eq_ok h
  rfl

theorem representation_of_run_importByteStream {charsetText : Bool}
    (h : (e.importByteStream s f id charsetText locale?).run memo = (.ok v, after)) :
    v.representation = .stream := by
  rw [importByteStream] at h
  split at h
  · obtain ⟨name, _, -, h⟩ := Transfer.of_run_bind h
    obtain ⟨target, _, -, h⟩ := Transfer.of_run_bind h
    obtain ⟨t, _, -, h⟩ := Transfer.of_run_bind h
    cases h
    rfl
  · cases h
    rfl

theorem representation_of_run_importReader {charsetText : Bool}
    (h : (e.importReader s id charsetText locale?).run memo = (.ok v, after)) :
    v.representation = .reader := by
  rw [importReader] at h
  split at h
  · obtain ⟨t, _, -, h⟩ := Transfer.of_run_bind h
    cases h
    rfl
  · cases h

theorem representation_of_run_importWhole {charsetText : Bool}
    (h : (e.importWhole bytes f id charsetText locale?).run memo = (.ok v, after)) :
    v.representation = f.representation := by
  have hmade {α : Type} {x : Transfer α} {make : α → TransferValue} {before : SubtypeMemo}
      (h : (do return make (← x) : Transfer TransferValue).run before = (.ok v, after)) :
      ∃ a, v = make a := by
    obtain ⟨a, _, -, hmake⟩ := Transfer.of_run_bind h
    cases hmake
    exact ⟨a, rfl⟩
  unfold importWhole at h
  cases hrep : f.representation with
  | string =>
    rw [hrep] at h
    dsimp only at h
    split at h
    · obtain ⟨text, rfl⟩ := hmade h
      rfl
    · exact representation_of_importObject (Transfer.of_run_lift h)
  | charBuffer | charArray =>
    rw [hrep] at h
    dsimp only at h
    split at h
    · obtain ⟨text, rfl⟩ := hmade h
      rfl
    · cases h
  | byteBuffer | byteArray =>
    rw [hrep] at h
    obtain ⟨bytes, rfl⟩ := hmade h
    rfl
  | remote =>
    rw [hrep] at h
    obtain ⟨object, -, rfl⟩ := of_map_eq_ok (Transfer.of_run_lift h)
    rfl
  | image =>
    rw [hrep] at h
    obtain ⟨native, _, -, h⟩ := Transfer.of_run_bind h
    exact representation_of_importImage (Transfer.of_run_lift h)
  | fileList | serializable =>
    rw [hrep] at h
    exact representation_of_importObject (Transfer.of_run_lift h)
  | reader =>
    rw [hrep] at h
    exact representation_of_run_importReader h
  | stream =>
    rw [hrep] at h
    exact representation_of_run_importByteStream h

/-- **What is imported from bytes has the representation of the flavor.** -/
theorem representation_of_run_importBytes
    (h : (e.importBytes bytes f id locale?).run memo = (.ok (some v), after)) :
    v.representation = f.representation := by
  rw [importBytes] at h
  split at h
  · exact representation_of_importFiles (Transfer.of_run_lift h)
  · split at h
    · next huris =>
      obtain ⟨value, _, hvalue, h⟩ := Transfer.of_run_bind h
      cases h
      rw [representation_of_importUris (Transfer.of_run_lift hvalue),
        representation_of_isFileList (Bool.and_eq_true_iff.mp huris).2]
    · obtain ⟨charsetText, _, -, h⟩ := Transfer.of_run_bind h
      obtain ⟨value, _, hvalue, h⟩ := Transfer.of_run_bind h
      cases h
      exact representation_of_run_importWhole hvalue

/-- **What is imported from a stream has the representation of the flavor.** -/
theorem representation_of_run_importStream
    (h : (e.importStream s f id locale?).run memo = (.ok (some v), after)) :
    v.representation = f.representation := by
  rw [importStream] at h
  split at h
  · next huris =>
    obtain ⟨bytes, _, -, h⟩ := Transfer.of_run_bind h
    obtain ⟨value, _, hvalue, h⟩ := Transfer.of_run_bind h
    cases h
    rw [representation_of_importUris (Transfer.of_run_lift hvalue),
      representation_of_isFileList (Bool.and_eq_true_iff.mp huris).2]
  · obtain ⟨charsetText, _, -, h⟩ := Transfer.of_run_bind h
    cases hrep : f.representation with
    | stream =>
      rw [hrep] at h
      obtain ⟨value, _, hvalue, h⟩ := Transfer.of_run_bind h
      cases h
      exact representation_of_run_importByteStream hvalue
    | reader =>
      rw [hrep] at h
      obtain ⟨value, _, hvalue, h⟩ := Transfer.of_run_bind h
      cases h
      exact representation_of_run_importReader hvalue
    | image =>
      rw [hrep] at h
      obtain ⟨native, _, -, h⟩ := Transfer.of_run_bind h
      obtain ⟨bytes, _, -, h⟩ := Transfer.of_run_bind h
      obtain ⟨value, _, hvalue, h⟩ := Transfer.of_run_bind h
      cases h
      exact representation_of_importImage (Transfer.of_run_lift hvalue)
    | charArray | charBuffer | byteBuffer =>
      rw [hrep] at h
      obtain ⟨bytes, _, -, h⟩ := Transfer.of_run_bind h
      rw [← hrep]
      exact representation_of_run_importBytes h
    | string | byteArray | fileList | serializable | remote =>
      rw [hrep] at h
      obtain ⟨bytes, _, -, h⟩ := Transfer.of_run_bind h
      obtain ⟨value, _, hvalue, h⟩ := Transfer.of_run_bind h
      cases h
      rw [← hrep]
      exact representation_of_run_importWhole hvalue

/-! ## Calls -/

/-- A call on bytes. Those of a value that is read piece by piece are handed on as a stream. -/
def callOnBytes (e : Engine) (bytes : Bytes) (f : Flavor) (id : FormatId)
    (locale? : Option Source) : Transfer Handover := do
  if e.table.isFileList id then Handover.finished <$> Transfer.lift (e.importFiles bytes f)
  else if e.table.isUriList id && f.isFileList then
    return .finished (some (← Transfer.lift (e.importUris bytes id)))
  else
    let charsetText ← e.isCharsetText f id
    if f.representation.isLazy then return .handedOn (.stream (.ofBytes bytes))
    else return .finished (some (← e.importWhole bytes f id charsetText locale?))

/-- A call on a stream. One that becomes characters or a buffer of bytes is handed on as its bytes.
-/
def callOnStream (e : Engine) (s : ByteStream) (f : Flavor) (id : FormatId)
    (locale? : Option Source) : Transfer Handover := do
  if e.table.isUriList id && f.isFileList then
    let bytes ← Transfer.lift s.requireAll
    return .finished (some (← Transfer.lift (e.importUris bytes id)))
  else
    let charsetText ← e.isCharsetText f id
    match f.representation with
    | .stream => return .finished (some (← e.importByteStream s f id charsetText locale?))
    | .reader => return .finished (some (← e.importReader s id charsetText locale?))
    | .image =>
      let native ← Transfer.lift (e.imageFormat id)
      let bytes ← Transfer.lift s.requireAll
      return .finished (some (← Transfer.lift (e.importImage bytes native)))
    | .charArray | .charBuffer | .byteBuffer =>
      let bytes ← Transfer.lift s.requireAll
      return .handedOn (.bytes bytes)
    | .string | .byteArray | .fileList | .serializable | .remote =>
      let bytes ← Transfer.lift s.requireAll
      return .finished (some (← e.importWhole bytes f id charsetText locale?))

def call (e : Engine) (f : Flavor) (id : FormatId) (locale? : Option Source) :
    NativeData → Transfer Handover
  | .bytes bytes => e.callOnBytes bytes f id locale?
  | .stream s => e.callOnStream s f id locale?

/-- What comes of at most so many calls; nothing if they are not enough. -/
def importWithin (e : Engine) (f : Flavor) (id : FormatId) (locale? : Option Source) :
    Nat → NativeData → Transfer (Option (Option TransferValue))
  | 0, _ => pure none
  | n + 1, data => do
    match ← e.call f id locale? data with
    | .finished v? => return some v?
    | .handedOn data => e.importWithin f id locale? n data

/-- The value, in a flavor, of data of a format. -/
def importData (e : Engine) (f : Flavor) (id : FormatId) (locale? : Option Source) :
    NativeData → Transfer (Option TransferValue)
  | .bytes bytes => e.importBytes bytes f id locale?
  | .stream s => e.importStream s f id locale?

/-! ## Two calls are enough -/

/-- Whether a call hands on the data that it is made on. -/
def handsOn (e : Engine) (f : Flavor) (id : FormatId) : NativeData → Bool
  | .bytes _ => !e.table.isFileList id && f.representation.isLazy
  | .stream _ =>
    match f.representation with
    | .charArray | .charBuffer | .byteBuffer => true
    | _ => false

variable {data : NativeData}

theorem callOnBytes_of_not_handsOn (h : e.handsOn f id (.bytes bytes) = false) :
    e.callOnBytes bytes f id locale? = Handover.finished <$> e.importBytes bytes f id locale? := by
  rw [callOnBytes, importBytes]
  split
  · rfl
  · next hfiles =>
    have hlazy : ¬f.representation.isLazy = true := by
      simpa [handsOn, hfiles] using h
    simp only [if_neg hlazy]
    split <;> simp only [map_bind, map_pure]

theorem callOnStream_of_not_handsOn (h : e.handsOn f id (.stream s) = false) :
    e.callOnStream s f id locale? = Handover.finished <$> e.importStream s f id locale? := by
  rw [callOnStream, importStream]
  split
  · simp only [map_bind, map_pure]
  · rw [map_bind]
    congr 1
    funext charsetText
    cases hrep : f.representation with
    | charArray | charBuffer | byteBuffer =>
      rw [handsOn, hrep] at h
      cases h
    | _ => simp only [map_bind, map_pure]

/-- What is not handed on takes one call. -/
theorem importWithin_of_not_handsOn (h : e.handsOn f id data = false) (n : Nat) :
    e.importWithin f id locale? (n + 1) data = some <$> e.importData f id locale? data := by
  have hcall : e.call f id locale? data = Handover.finished <$> e.importData f id locale? data := by
    cases data with
    | bytes bytes => exact callOnBytes_of_not_handsOn h
    | stream s => exact callOnStream_of_not_handsOn h
  rw [importWithin, hcall, bind_map_left]
  exact (map_eq_pure_bind some _).symm

/-- Bytes that are handed on are imported as their stream is, the flavor being known by then. -/
theorem run_importWithin_of_handsOn_bytes (h : e.handsOn f id (.bytes bytes) = true) (n : Nat)
    (memo : SubtypeMemo) :
    (e.importWithin f id locale? (n + 2) (.bytes bytes)).run memo
      = (some <$> e.importBytes bytes f id locale?).run memo := by
  obtain ⟨hfiles, hlazy⟩ := Bool.and_eq_true_iff.mp h
  have hfiles : ¬e.table.isFileList id = true := by simpa using hfiles
  have huris : ¬(e.table.isUriList id && f.isFileList) = true := by
    intro huris
    rw [representation_of_isFileList (Bool.and_eq_true_iff.mp huris).2] at hlazy
    cases hlazy
  have hstream : e.handsOn f id (.stream (.ofBytes bytes)) = false := by
    rw [handsOn]
    cases hrep : f.representation <;> first | rfl | (rw [hrep] at hlazy; cases hlazy)
  obtain ⟨charsetText, memo', hask, hagain⟩ := exists_isCharsetText e f id memo
  have hcall : (e.call f id locale? (.bytes bytes)).run memo
      = (.ok (.handedOn (.stream (.ofBytes bytes))), memo') := by
    rw [call, callOnBytes, if_neg hfiles, if_neg huris, Transfer.run_bind_of_ok hask, if_pos hlazy]
    rfl
  -- the second call asks about the flavor again, and is told the same
  have hsame : (e.importStream (.ofBytes bytes) f id locale?).run memo'
      = (e.importBytes bytes f id locale?).run memo := by
    rw [importStream, importBytes, if_neg huris, if_neg hfiles, if_neg huris,
      Transfer.run_bind_of_ok hagain, Transfer.run_bind_of_ok hask, importWhole]
    cases hrep : f.representation with
    | reader | stream => rfl
    | _ =>
      rw [hrep] at hlazy
      cases hlazy
  rw [importWithin, Transfer.run_bind_of_ok hcall]
  dsimp only
  rw [importWithin_of_not_handsOn hstream, importData, Transfer.run_map, hsame, Transfer.run_map]

/-- A stream that is handed on is imported as its bytes are. -/
theorem importWithin_of_handsOn_stream (h : e.handsOn f id (.stream s) = true) (n : Nat) :
    e.importWithin f id locale? (n + 2) (.stream s)
      = some <$> e.importStream s f id locale? := by
  rw [handsOn] at h
  have huris : ¬(e.table.isUriList id && f.isFileList) = true := by
    intro huris
    rw [representation_of_isFileList (Bool.and_eq_true_iff.mp huris).2] at h
    cases h
  have hlazy : f.representation.isLazy = false := by
    cases hrep : f.representation <;> first | rfl | (rw [hrep] at h; cases h)
  have hbytes (bytes : Bytes) : e.handsOn f id (.bytes bytes) = false := by
    rw [handsOn, hlazy, Bool.and_false]
  have hnext (bytes : Bytes) : e.importWithin f id locale? (n + 1) (.bytes bytes)
      = some <$> e.importBytes bytes f id locale? := importWithin_of_not_handsOn (hbytes bytes) n
  rw [importWithin, call, callOnStream, importStream, if_neg huris, if_neg huris]
  cases hrep : f.representation with
  | charArray | charBuffer | byteBuffer => simp only [bind_assoc, pure_bind, map_bind, hnext]
  | _ =>
    rw [hrep] at h
    cases h

/-- **Two calls are enough**, whatever is imported. -/
theorem run_importWithin (e : Engine) (data : NativeData) (f : Flavor) (id : FormatId)
    (locale? : Option Source) (n : Nat) (memo : SubtypeMemo) :
    (e.importWithin f id locale? (n + 2) data).run memo
      = (some <$> e.importData f id locale? data).run memo := by
  cases h : e.handsOn f id data with
  | false => rw [importWithin_of_not_handsOn h]
  | true =>
    cases data with
    | bytes bytes => exact run_importWithin_of_handsOn_bytes h n memo
    | stream s => rw [importWithin_of_handsOn_stream h n, importData]

/-- **Imports end, and in the shape that was asked for**: two calls give what the import gives,
however many more are allowed, and a value that is given has the representation of the flavor. -/
theorem importData_shaped (e : Engine) (data : NativeData) (f : Flavor) (id : FormatId)
    (locale? : Option Source) (memo : SubtypeMemo) :
    (∀ n, (e.importWithin f id locale? (n + 2) data).run memo
      = (some <$> e.importData f id locale? data).run memo) ∧
    ∀ v after, (e.importData f id locale? data).run memo = (.ok (some v), after) →
      v.representation = f.representation := by
  refine ⟨fun n => run_importWithin e data f id locale? n memo, fun v after h => ?_⟩
  cases data with
  | bytes bytes => exact representation_of_run_importBytes h
  | stream s => exact representation_of_run_importStream h

/-- A stream that becomes a buffer is handed on once, and is a buffer. -/
theorem importData_shaped_buffer :
    let native : NativeFormat :=
      { id := .png, name := "application/x-blob", kind := .plain, localeDependent := false,
        text := none }
    let e := ofFormat native
    let f := Flavor.ofParts "application" "x-blob" [] .byteBuffer
    let data : NativeData :=
      .stream { deliveries := [.interrupted, .bytes 0x61 []], ending := .endOfData }
    (e.importWithin f native.id none 1 data).run .empty = (.ok none, .empty) ∧
      (e.importWithin f native.id none 2 data).run .empty
        = (.ok (some (some (.byteBuffer [0x61]))), .empty) ∧
      (TransferValue.byteBuffer [0x61]).representation = f.representation := by
  intro native e f data
  have himport : (e.importData f native.id none data).run .empty
      = (.ok (some (.byteBuffer [0x61])), .empty) := rfl
  obtain ⟨hcalls, hshape⟩ := importData_shaped e data f native.id none .empty
  refine ⟨rfl, ?_, hshape _ _ himport⟩
  rw [hcalls 0, Transfer.run_map, himport]

end Engine

end Clipboard
