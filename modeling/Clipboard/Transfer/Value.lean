import Clipboard.Image
import Clipboard.Object

/-!
# Values

A value in process, in one of the representations. Character streams deliver UTF-8. `requireText`
and `requireBytes` give the characters or the bytes of a value that has them, reading streams to
their end; `describe` is the text in which a value is shown to a person.
-/

namespace Clipboard

/-- A value that is transferred. -/
inductive TransferValue where
  | charArray (text : List Char)
  | string (text : List Char)
  | charBuffer (text : List Char)
  | reader (source : ByteStream)
  | byteArray (bytes : Bytes)
  | byteBuffer (bytes : Bytes)
  | stream (source : ByteStream)
  | fileList (paths : List String)
  | image (image : Image)
  | serializable (object : Json.Value)
  | remote (object : MarshalledObject)

namespace TransferValue

def representation : TransferValue → Representation
  | charArray _ => .charArray
  | string _ => .string
  | charBuffer _ => .charBuffer
  | reader _ => .reader
  | byteArray _ => .byteArray
  | byteBuffer _ => .byteBuffer
  | stream _ => .stream
  | fileList _ => .fileList
  | image _ => .image
  | serializable _ => .serializable
  | remote _ => .remote

/-- Whether the value is a byte stream. -/
def isStream (v : TransferValue) : Bool := v.representation = .stream

def readText (source : ByteStream) : Except Error (List Char) :=
  match source.requireAll with
  | .error e => .error e
  | .ok bytes =>
    match Utf8.decode? bytes with
    | some text => .ok text
    | none => .error (.io .notUtf8)

/-- The characters of a value that is text. -/
def requireText : TransferValue → Except Error (List Char)
  | charArray text | string text | charBuffer text => .ok text
  | reader source => readText source
  | v => .error (.unsupportedConversion (.notText v.representation))

/-- The bytes of a value that is bytes. -/
def requireBytes : TransferValue → Except Error Bytes
  | byteArray bytes | byteBuffer bytes => .ok bytes
  | stream source => source.requireAll
  | v => .error (.unsupportedConversion (.notBytes v.representation))

/-- A text behind a name, in parentheses. -/
def named (name text : String) : String := name ++ "(" ++ text ++ ")"

/-- The value as it is shown to a person. -/
def describe : TransferValue → String
  | charArray text => named "CharArray" (ToString.toString text.length)
  | string text => named "Text" (.ofList (Text.quote text))
  | charBuffer text => named "CharBuffer" (.ofList (Text.quote text))
  | reader _ => "Reader(..)"
  | byteArray bytes => named "ByteArray" (ToString.toString bytes.length)
  | byteBuffer bytes => named "ByteBuffer" (ToString.toString bytes.length)
  | stream _ => "InputStream(..)"
  | fileList paths =>
    named "FileList" ("[" ++ String.intercalate ", " (paths.map Text.quoted) ++ "]")
  | image i => named "Image" (ToString.toString i.width ++ "x" ++ ToString.toString i.height)
  | serializable object => named "Serializable" (.ofList (Json.describe object))
  | remote object => named "Remote" (Text.quoted object.typeName)

end TransferValue

end Clipboard
