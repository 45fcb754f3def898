import Clipboard.ByteStream
import Clipboard.Charset
import Clipboard.Flavor
import Clipboard.Format
import Clipboard.Json.Printer
import Clipboard.Json.Fault

/-!
# Errors

Everything that can go wrong with a conversion. An error keeps its cause as a value; `message` is
the one place where it is put into words. That a source has no data is no error.

A cause that is reported by something outside the library is kept in that something's words
(`other`).
-/

namespace Clipboard

/-- Why a value is not converted. -/
inductive ConversionFault where
  /-- There is no conversion between the representation and the format. -/
  | noConversion
  /-- An image is to become a format that is none for images. -/
  | notAnImageFormat
  /-- Characters are asked for, or offered, where there is no text. -/
  | nonText (target : Representation)
  | notOffered (flavor : Flavor)
  /-- The source answered with a value of another shape. -/
  | mismatch (offered : Representation) (flavor : Flavor)
  | notText (rep : Representation)
  | notBytes (rep : Representation)
  | other (detail : String)
  deriving DecidableEq, Repr

/-- What is wrong with data. -/
inductive DataFault where
  /-- A list of dropped files is shorter than its header. -/
  | dropFilesTooSmall
  /-- The names in a list of dropped files begin outside of it. -/
  | dropFilesOffset
  | bitmapTooSmall
  | bitmapHeader
  /-- The sides of a bitmap are too long. -/
  | bitmapTooLarge
  /-- A bitmap has fewer pixels than it says. -/
  | bitmapTruncated
  /-- The name of a format is that of another one. -/
  | nameTaken (name : String) (owner : FormatId)
  /-- The source names the charset, but not in a byte array. -/
  | encodingShape (rep : Representation)
  /-- An item of a list of files is not a string. -/
  | notAPath (item : Json.Value)
  /-- An object is not what the flavor holds. -/
  | objectMismatch (rep : Representation)
  /-- An object is not the marshalled form of a reference. -/
  | notMarshalled
  | other (detail : String)
  deriving Repr

/-- Why an image is not read or written. -/
inductive ImageFault where
  /-- The name of the format says nothing about the encoding. -/
  | noEncoding (name : String)
  /-- A bitmap has neither 24 nor 32 bits for a pixel. -/
  | bitDepth (bits : Nat)
  /-- The bytes are not a file of the encoding. -/
  | malformed
  | other (detail : String)
  deriving DecidableEq, Repr

/-- Why an object is not read. -/
inductive SerializationFault where
  | notJson (fault : Json.Fault)
  | other (detail : String)
  deriving DecidableEq, Repr

/-- What went wrong. -/
inductive Error where
  | unsupportedConversion (fault : ConversionFault)
  | io (fault : ReadFault)
  | encodingUnsupported (name : String)
  | unknownFormat (format : FormatId)
  | invalidFlavor (text : String)
  | invalidData (fault : DataFault)
  | imageDecode (fault : ImageFault)
  | imageEncode (fault : ImageFault)
  | serialization (fault : SerializationFault)
  /-- A conversion was given up before it was run. -/
  | handoffDisconnected
  deriving Repr

/-- What an error is about. -/
inductive ErrorCategory where
  | conversion
  | dataValidation
  | io
  | communication
  deriving DecidableEq, Repr

/-! ## Words -/

/-- How a representation is called where characters are missing. -/
def ConversionFault.target : Representation → String
  | .reader => "Reader"
  | .charBuffer => "CharBuffer"
  | .charArray => "char array"
  | rep => rep.name

def ConversionFault.message : ConversionFault → String
  | .noConversion => "data translation failed"
  | .notAnImageFormat => "not an image format"
  | .nonText rep => "cannot transfer non-text data as " ++ target rep
  | .notOffered flavor => "flavor not offered: " ++ flavor.toString
  | .mismatch offered flavor =>
    offered.name ++ " value offered for flavor " ++ flavor.toString
  | .notText rep => rep.name ++ " value is not text"
  | .notBytes rep => rep.name ++ " value is not bytes"
  | .other detail => detail

def DataFault.message : DataFault → String
  | .dropFilesTooSmall => "DROPFILES too small"
  | .dropFilesOffset => "invalid pFiles offset"
  | .bitmapTooSmall => "DIB too small"
  | .bitmapHeader => "invalid DIB header"
  | .bitmapTooLarge => "DIB dimensions too large"
  | .bitmapTruncated => "DIB pixel data truncated"
  | .nameTaken name owner =>
    "native name " ++ name ++ " already registered as format " ++ toString owner
  | .encodingShape rep => "text encoding supplied as " ++ rep.name
  | .notAPath item => "not a path: " ++ Json.toText item
  | .objectMismatch rep => "serialized object does not fit a " ++ rep.name ++ " flavor"
  | .notMarshalled => "not a marshalled object"
  | .other detail => detail

def ImageFault.message : ImageFault → String
  | .noEncoding name => "no image encoding for " ++ name
  | .bitDepth bits => "unsupported DIB bit depth: " ++ toString bits
  | .malformed => "malformed image"
  | .other detail => detail

def SerializationFault.message : SerializationFault → String
  | .notJson fault => fault.message
  | .other detail => detail

namespace Error

def message : Error → String
  | unsupportedConversion fault => "data translation failed: " ++ fault.message
  | io fault => "I/O error: " ++ fault.message
  | encodingUnsupported name => "unsupported encoding: " ++ name
  | unknownFormat format => "unknown format: " ++ toString format
  | invalidFlavor text => "invalid flavor: " ++ text
  | invalidData fault => "invalid data: " ++ fault.message
  | imageDecode fault => "image decode error: " ++ fault.message
  | imageEncode fault => "image encode error: " ++ fault.message
  | serialization fault => "object serialization failed: " ++ fault.message
  | handoffDisconnected => "hand-off job dropped before completion"

def category : Error → ErrorCategory
  | unsupportedConversion _ | unknownFormat _ | imageDecode _ | imageEncode _ => .conversion
  | encodingUnsupported _ | invalidFlavor _ | invalidData _ | serialization _ => .dataValidation
  | io _ => .io
  | handoffDisconnected => .communication

/-- Whether another pair of flavor and format may do. -/
def isRecoverable (e : Error) : Bool :=
  match e.category with
  | .conversion | .communication => true
  | .dataValidation | .io => false

def isFormatError : Error → Bool
  | unsupportedConversion _ | unknownFormat _ | encodingUnsupported _ | imageDecode _
  | imageEncode _ => true
  | _ => false

end Error

/-! ## Lookups that fail -/

def Charset.require (name : String) : Except Error Charset :=
  match Charset.ofName? name with
  | some charset => .ok charset
  | none => .error (.encodingUnsupported name)

def Flavor.require (text : String) : Except Error Flavor :=
  match Flavor.parse? text with
  | some flavor => .ok flavor
  | none => .error (.invalidFlavor text)

def ByteStream.requireAll (s : ByteStream) : Except Error Bytes :=
  match s.readAll with
  | .ok bytes => .ok bytes
  | .error fault => .error (.io fault)

end Clipboard
