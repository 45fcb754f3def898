import Clipboard.Files.DropFiles
import Clipboard.Image.Codec
import Clipboard.Negotiation
import Clipboard.NativeText
import Clipboard.Transfer.Source

/-!
# The transfer engine

An engine is a table of formats with everything that conversions depend on: codecs, the read
permission, the cache directories and the host. It does not change; what changes from one conversion
to the next is the memo about subtypes, and `Transfer` threads it through.
-/

namespace Clipboard

/-- A conversion: it may fail, and may add to the decisions about subtypes either way. -/
structure Transfer (α : Type) where
  run : SubtypeMemo → Except Failure α × SubtypeMemo

namespace Transfer

variable {α β : Type}

instance : Monad Transfer where
  pure a := ⟨fun memo => (.ok a, memo)⟩
  bind x f := ⟨fun memo =>
    match x.run memo with
    | (.ok a, memo) => (f a).run memo
    | (.error e, memo) => (.error e, memo)⟩

/-- A step that fails, or gives a value, by itself. -/
def ofExcept (x : Except Failure α) : Transfer α := ⟨fun memo => (x, memo)⟩

def lift (x : Except Error α) : Transfer α :=
  ofExcept (match x with
    | .ok a => .ok a
    | .error e => .error (.error e))

def throw (e : Error) : Transfer α := lift (.error e)

def ask (x : Memoized α) : Transfer α := ⟨fun memo => (.ok (x.run memo).1, (x.run memo).2)⟩

@[simp] theorem run_pure (a : α) (memo : SubtypeMemo) :
    (pure a : Transfer α).run memo = (.ok a, memo) := rfl

theorem run_bind (x : Transfer α) (f : α → Transfer β) (memo : SubtypeMemo) :
    (x >>= f).run memo =
      match x.run memo with
      | (.ok a, memo) => (f a).run memo
      | (.error e, memo) => (.error e, memo) := rfl

theorem run_bind_of_ok {x : Transfer α} {f : α → Transfer β} {memo memo' : SubtypeMemo} {a : α}
    (h : x.run memo = (.ok a, memo')) : (x >>= f).run memo = (f a).run memo' := by
  rw [run_bind, h]

theorem run_bind_of_error {x : Transfer α} {f : α → Transfer β} {memo memo' : SubtypeMemo}
    {e : Failure} (h : x.run memo = (.error e, memo')) : (x >>= f).run memo = (.error e, memo') := by
  rw [run_bind, h]

@[simp] theorem run_throw (e : Error) (memo : SubtypeMemo) :
    (throw e : Transfer α).run memo = (.error (.error e), memo) := rfl

@[simp] theorem run_ofExcept_ok (a : α) (memo : SubtypeMemo) :
    (ofExcept (.ok a) : Transfer α).run memo = (.ok a, memo) := rfl

@[simp] theorem run_lift_ok (a : α) (memo : SubtypeMemo) :
    (lift (.ok a) : Transfer α).run memo = (.ok a, memo) := rfl

@[simp] theorem run_lift_error (e : Error) (memo : SubtypeMemo) :
    (lift (.error e) : Transfer α).run memo = (.error (.error e), memo) := rfl

@[simp] theorem run_ask (x : Memoized α) (memo : SubtypeMemo) :
    (ask x).run memo = (.ok (x.run memo).1, (x.run memo).2) := rfl

end Transfer

/-- What conversions depend on. -/
structure Engine where
  table : FormatTable
  defaultCharset : String
  /-- The codec of the platform's lists of files. -/
  fileCodec : FileListCodec
  /-- The codec of images. -/
  imageCodec : ImageCodec
  serializer : ObjectSerializer
  /-- The permission that exported files need, if any. -/
  permission : Option ReadPermission
  host : Host
  cacheDirs : List Path

namespace Engine

/-- An engine with the standard codecs, without a read permission, and with the cache directories
that the environment names. -/
def new (host : Host) (table : FormatTable) (defaultCharset : String) : Engine :=
  { table := table
    defaultCharset := Charset.canonicalName defaultCharset
    fileCodec := DropFiles.codec
    imageCodec := ImageCodec.standard
    serializer := ObjectSerializer.json
    permission := none
    host := host
    cacheDirs := CacheDirs.resolve host [] }

/-- The engine with the cache directories that properties name. -/
def withCacheProperties (e : Engine) (properties : Dictionary String) : Engine :=
  { e with cacheDirs := CacheDirs.resolve e.host properties }

def classifier (e : Engine) : TextClassifier := ⟨e.defaultCharset⟩

def ranker (e : Engine) (selection : Selection) : FlavorRanker :=
  { classifier := e.classifier, defaultCharset := e.defaultCharset, selection }

/-- The properties of a text format; for any other format those of plain bytes. -/
def textProperties (e : Engine) (id : FormatId) : TextProperties :=
  (e.table.textProperties? id).getD (TextProperties.register none none 0 e.defaultCharset)

/-- Whether a value of the flavor is text that goes through the charset of the format. -/
def isCharsetText (e : Engine) (f : Flavor) (id : FormatId) : Transfer Bool := do
  let text ← Transfer.ask (TextClassifier.isCharsetText f)
  return text && e.table.isText id

/-- The charset of the bytes of a flavor. -/
def flavorCharset (e : Engine) (f : Flavor) : Transfer String :=
  Transfer.ask (e.classifier.textCharset f)

/-- The read permission in force for a source: its own, or else the engine's. -/
def permissionFor (e : Engine) (source : Source) : Option ReadPermission :=
  source.permission.or e.permission

/-- The engine as it is shown to a person. -/
def describe (e : Engine) : String :=
  "DataTransferer \x7b formats: " ++ toString e.table.natives.length ++ ", default_charset: "
    ++ Text.quoted e.defaultCharset ++ ", restricted: " ++ toString e.permission.isSome
    ++ ", .. \x7d"

end Engine

end Clipboard
