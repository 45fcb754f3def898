import Clipboard.Files.UriList
import Clipboard.NativeText.Reencoder
import Clipboard.Transfer.Engine

/-!
# Import

`Engine.importBytes` and `Engine.importStream` turn the bytes of a native format into a value of a
flavor. Streams stay streams: text is re-encoded as it is read, so what fails then is the reading of
the value and not the import. Everything else is read to its end first.

The charset of a format whose charset depends on the locale is the one that another source, which
comes along with the data, names (`bestCharset`).
-/

namespace Clipboard.Engine

/-- The charset that a source names; nothing if it has none. -/
def suppliedCharset (locale : Source) : Except Failure (Option String) :=
  match locale.data Flavor.textEncoding with
  | .error failure => .error failure
  | .ok none => .ok none
  | .ok (some (.byteArray bytes)) => .ok (some (.ofList (Utf8.decodeLossy bytes)))
  | .ok (some v) => .error (.error (.invalidData (.encodingShape v.representation)))

/-- The charset to read a format in: if the format depends on the locale and a source offers to name
the charset, the one it names, and otherwise the format's own; failing these, the default one. -/
def bestCharset (e : Engine) (id : FormatId) (locale? : Option Source) : Except Failure String :=
  let own : Except Failure (Option String) :=
    .ok ((e.table.textProperties? id).map TextProperties.charset)
  let named := match locale? with
    | some locale =>
      if e.table.isLocaleDependent id && locale.isOffered Flavor.textEncoding then
        suppliedCharset locale
      else own
    | none => own
  named.map (fun charset? => charset?.getD e.defaultCharset)

/-- The text of bytes of a format. -/
def decodeText (e : Engine) (bytes : Bytes) (id : FormatId) (locale? : Option Source) :
    Transfer (List Char) := do
  let charset ← Transfer.ofExcept (e.bestCharset id locale?)
  Transfer.lift (NativeText.decode (e.textProperties id) (some charset) bytes)

/-- The bytes of a text format in the flavor's charset; other bytes as they are. -/
def flavorBytes (e : Engine) (bytes : Bytes) (f : Flavor) (id : FormatId)
    (locale? : Option Source) : Transfer Bytes := do
  if ← e.isCharsetText f id then
    let text ← e.decodeText bytes id locale?
    let charset ← Transfer.lift (Charset.require (← e.flavorCharset f))
    return charset.encode text
  else return bytes

/-- The paths that lines of URIs name. -/
def importUris (e : Engine) (bytes : Bytes) (id : FormatId) : Except Error TransferValue := do
  let native ← e.table.require id
  let charset ← Charset.require native.uriCharset
  return .fileList ((UriList.parse (charset.decode bytes)).map String.ofList)

/-- The platform's list of files; nothing if the bytes hold none. -/
def importFiles (e : Engine) (bytes : Bytes) (f : Flavor) :
    Except Error (Option TransferValue) :=
  if f.isFileList then
    match e.fileCodec.decode bytes with
    | .error err => .error err
    | .ok none => .ok none
    | .ok (some paths) => .ok (some (.fileList paths))
  else .error (.unsupportedConversion .noConversion)

/-- The paths of the items of an array. -/
def pathsOf : List Json.Value → Except Error (List String)
  | [] => .ok []
  | .string s :: items => (pathsOf items).map (s :: ·)
  | item :: _ => .error (.invalidData (.notAPath item))

/-- An object as a value of a representation. -/
def objectValue (rep : Representation) (v : Json.Value) : Except Error TransferValue :=
  match rep, v with
  | .string, .string s => .ok (.string s.toList)
  | .fileList, .array items => (pathsOf items).map .fileList
  | .serializable, v => .ok (.serializable v)
  | rep, _ => .error (.invalidData (.objectMismatch rep))

/-- Bytes of an object as a value of a representation. -/
def importObject (e : Engine) (bytes : Bytes) (rep : Representation) : Except Error TransferValue :=
  match e.serializer.deserialize bytes with
  | .error err => .error err
  | .ok v => objectValue rep v

/-- The image format registered under a number. -/
def imageFormat (e : Engine) (id : FormatId) : Except Error NativeFormat :=
  if e.table.isImage id then e.table.require id
  else .error (.unsupportedConversion .noConversion)

/-- Bytes of an image format as an image. -/
def importImage (e : Engine) (bytes : Bytes) (native : NativeFormat) : Except Error TransferValue :=
  (e.imageCodec.decode bytes native).map .image

/-- A stream of a text format in another charset. -/
def reencoded (e : Engine) (s : ByteStream) (id : FormatId) (target : Charset)
    (locale? : Option Source) : Transfer ByteStream := do
  let charset ← Transfer.ofExcept (e.bestCharset id locale?)
  let own ← Transfer.lift (Charset.require charset)
  return (NativeText.Reencoder.new own target (e.textProperties id) s).toStream

def importByteStream (e : Engine) (s : ByteStream) (f : Flavor) (id : FormatId)
    (charsetText : Bool) (locale? : Option Source) : Transfer TransferValue := do
  if charsetText then
    let target ← Transfer.lift (Charset.require (← e.flavorCharset f))
    return .stream (← e.reencoded s id target locale?)
  else return .stream s

def importReader (e : Engine) (s : ByteStream) (id : FormatId) (charsetText : Bool)
    (locale? : Option Source) : Transfer TransferValue := do
  if charsetText then return .reader (← e.reencoded s id .utf8 locale?)
  else Transfer.throw (.unsupportedConversion (.nonText .reader))

/-- Bytes as a value that is no stream, for a format that is no list of files. -/
def importWhole (e : Engine) (bytes : Bytes) (f : Flavor) (id : FormatId) (charsetText : Bool)
    (locale? : Option Source) : Transfer TransferValue :=
  let chars (make : List Char → TransferValue) (rep : Representation) : Transfer TransferValue :=
    if charsetText then do return make (← e.decodeText bytes id locale?)
    else Transfer.throw (.unsupportedConversion (.nonText rep))
  match f.representation with
  | .string =>
    if charsetText then do return .string (← e.decodeText bytes id locale?)
    else Transfer.lift (e.importObject bytes .string)
  | .charBuffer => chars .charBuffer .charBuffer
  | .charArray => chars .charArray .charArray
  | .byteBuffer => do return .byteBuffer (← e.flavorBytes bytes f id locale?)
  | .byteArray => do return .byteArray (← e.flavorBytes bytes f id locale?)
  | .remote => Transfer.lift ((MarshalledObject.unmarshal e.serializer bytes).map .remote)
  | .image => do
    let native ← Transfer.lift (e.imageFormat id)
    Transfer.lift (e.importImage bytes native)
  | .fileList => Transfer.lift (e.importObject bytes .fileList)
  | .serializable => Transfer.lift (e.importObject bytes .serializable)
  | .reader => e.importReader (.ofBytes bytes) id charsetText locale?
  | .stream => e.importByteStream (.ofBytes bytes) f id charsetText locale?

/-- The value, in a flavor, of bytes of a format; nothing if they hold none. -/
def importBytes (e : Engine) (bytes : Bytes) (f : Flavor) (id : FormatId)
    (locale? : Option Source) : Transfer (Option TransferValue) := do
  if e.table.isFileList id then Transfer.lift (e.importFiles bytes f)
  else if e.table.isUriList id && f.isFileList then
    return some (← Transfer.lift (e.importUris bytes id))
  else
    let charsetText ← e.isCharsetText f id
    return some (← e.importWhole bytes f id charsetText locale?)

/-- The value, in a flavor, of a stream of a format; nothing if it holds none. -/
def importStream (e : Engine) (s : ByteStream) (f : Flavor) (id : FormatId)
    (locale? : Option Source) : Transfer (Option TransferValue) := do
  if e.table.isUriList id && f.isFileList then
    let bytes ← Transfer.lift s.requireAll
    return some (← Transfer.lift (e.importUris bytes id))
  else
    let charsetText ← e.isCharsetText f id
    match f.representation with
    | .stream => return some (← e.importByteStream s f id charsetText locale?)
    | .reader => return some (← e.importReader s id charsetText locale?)
    | .image =>
      let native ← Transfer.lift (e.imageFormat id)
      let bytes ← Transfer.lift s.requireAll
      return some (← Transfer.lift (e.importImage bytes native))
    | .charArray | .charBuffer | .byteBuffer =>
      let bytes ← Transfer.lift s.requireAll
      e.importBytes bytes f id locale?
    | .string | .byteArray | .fileList | .serializable | .remote =>
      let bytes ← Transfer.lift s.requireAll
      return some (← e.importWhole bytes f id charsetText locale?)

end Clipboard.Engine
