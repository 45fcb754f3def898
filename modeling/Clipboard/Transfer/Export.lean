import Clipboard.Files.Export
import Clipboard.Files.UriList
import Clipboard.Transfer.Engine

/-!
# Export

`Engine.exportFrom` turns the value that a source has in a flavor into the bytes of a native format.

Text goes through the charset of the format (`encodeText`), bytes of a text flavor are re-encoded,
images go to the image codec. Lists of files become the platform's structure or lines of URIs, and
only paths that may leave the process are in them. Whatever is left is written as an object.

A source that answers the plain text flavor with anything but a byte stream is asked for a string
instead.
-/

namespace Clipboard.Engine

/-- The bytes of a text in a format. -/
def encodeText (e : Engine) (id : FormatId) (text : List Char) : Except Error Bytes :=
  NativeText.encode (e.textProperties id) text

/-- The text without entries that may not leave the process, if it is a list of URIs and a read
permission is in force. -/
def withoutSuspect (e : Engine) (source : Source) (f : Flavor) (text : List Char) : List Char :=
  match e.permissionFor source with
  | some permission =>
    if f.hasBase Flavor.uriListBase then
      FileExport.removeSuspect e.host.files e.cacheDirs permission text
    else text
  | none => text

/-- The bytes of a text flavor in the format's charset; other bytes as they are. -/
def reencode (e : Engine) (f : Flavor) (id : FormatId) (bytes : Bytes) : Transfer Bytes := do
  if ← e.isCharsetText f id then
    let name ← e.flavorCharset f
    let charset ← Transfer.lift (Charset.require name)
    Transfer.lift (e.encodeText id (charset.decode bytes))
  else return bytes

/-- The paths of a list of files that may leave the process. -/
def exportablePaths (e : Engine) (source : Source) (f : Flavor) (v : TransferValue) :
    Except Error (List Path) :=
  match v with
  | .fileList paths =>
    if f.isFileList then
      .ok (FileExport.exportable e.host.files e.cacheDirs (e.permissionFor source) paths)
    else .error (.unsupportedConversion .noConversion)
  | _ => .error (.unsupportedConversion .noConversion)

/-- A value as the platform's list of files. -/
def exportFiles (e : Engine) (source : Source) (f : Flavor) (v : TransferValue) :
    Except Error Bytes :=
  match e.exportablePaths source f v with
  | .error err => .error err
  | .ok paths => e.fileCodec.encode paths

def exportUris (e : Engine) (source : Source) (f : Flavor) (id : FormatId) (v : TransferValue) :
    Except Error Bytes := do
  let native ← e.table.require id
  let charset ← Charset.require native.uriCharset
  let paths ← e.exportablePaths source f v
  return UriList.encode charset (paths.map String.toList)

def exportImage (e : Engine) (id : FormatId) (image : Image) : Except Error Bytes :=
  if e.table.isImage id then
    match e.table.require id with
    | .error err => .error err
    | .ok native => e.imageCodec.encode image native
  else .error (.unsupportedConversion .notAnImageFormat)

/-- A text that must be charset text. -/
def exportChars (e : Engine) (id : FormatId) (charsetText : Bool) (rep : Representation)
    (text : Unit → Except Error (List Char)) : Except Error Bytes :=
  if charsetText then
    match text () with
    | .error err => .error err
    | .ok text => e.encodeText id text
  else .error (.unsupportedConversion (.nonText rep))

/-- A value that is no characters, no image and no bytes in hand, in any format. -/
def exportObject (e : Engine) (source : Source) (f : Flavor) (id : FormatId) (v : TransferValue) :
    Transfer Bytes :=
  if e.table.isFileList id then Transfer.lift (e.exportFiles source f v)
  else if e.table.isUriList id then Transfer.lift (e.exportUris source f id v)
  else
    match v with
    | .stream s => do
      let bytes ← Transfer.lift s.requireAll
      e.reencode f id bytes
    | .remote object => Transfer.lift (object.marshal e.serializer)
    | .string text => Transfer.lift (e.serializer.serialize (.string (.ofList text)))
    | .fileList paths =>
      Transfer.lift (e.serializer.serialize (.array (paths.map .string)))
    | .serializable object => Transfer.lift (e.serializer.serialize object)
    | _ => Transfer.throw (.unsupportedConversion .noConversion)

/-- A value of the shape that was expected, in a format. -/
def exportValue (e : Engine) (source : Source) (f : Flavor) (id : FormatId) (asString : Bool)
    (v : TransferValue) : Transfer Bytes := do
  let charsetText ← e.isCharsetText f id
  match v with
  | .string text =>
    if asString || charsetText then
      Transfer.lift (e.encodeText id (e.withoutSuspect source f text))
    else e.exportObject source f id v
  | .reader s =>
    Transfer.lift (e.exportChars id charsetText .reader (fun _ => TransferValue.readText s))
  | .charBuffer text => Transfer.lift (e.exportChars id charsetText .charBuffer (fun _ => .ok text))
  | .charArray text => Transfer.lift (e.exportChars id charsetText .charArray (fun _ => .ok text))
  | .byteBuffer bytes => e.reencode f id bytes
  | .byteArray bytes => e.reencode f id bytes
  | .image image => Transfer.lift (e.exportImage id image)
  | v => e.exportObject source f id v

/-- What a source has in a flavor, and whether it was asked for a string instead. -/
def request (source : Source) (f : Flavor) : Except Failure (Option (TransferValue × Bool)) :=
  match source.data f with
  | .error failure => .error failure
  | .ok none => .ok none
  | .ok (some v) =>
    if f = Flavor.plainText ∧ !v.isStream then
      match source.data Flavor.string with
      | .error failure => .error failure
      | .ok none => .ok none
      | .ok (some text) => .ok (some (text, true))
    else .ok (some (v, false))

/-- The bytes, in a format, of what a source has in a flavor; nothing if it has no data. -/
def exportFrom (e : Engine) (source : Source) (f : Flavor) (id : FormatId) :
    Transfer (Option Bytes) := do
  match ← Transfer.ofExcept (request source f) with
  | none => return none
  | some (v, asString) =>
    if v.representation = (if asString then .string else f.representation) then
      return some (← e.exportValue source f id asString v)
    else Transfer.throw (.unsupportedConversion (.mismatch v.representation f))

end Clipboard.Engine
