import Clipboard.Flavor

/-!
# Standard flavors

The flavors that have a meaning of their own, and the flavors in which a text of some subtype is
offered: four as characters, which name no charset, and three as bytes, which do.
-/

namespace Clipboard

namespace Flavor

/-- The MIME type of the string flavor. -/
def serializedObjectBase : String := "application/x-java-serialized-object"

/-- The MIME type of lists of files. -/
def fileListBase : String := "application/x-java-file-list"

def uriListBase : String := "text/uri-list"

/-- A flavor whose parameters are given one by one. -/
def ofParts (primary subtype : String) (params : List (String × String)) (rep : Representation) :
    Flavor :=
  make { primary, subtype, params := Dictionary.ofList params } rep

def string : Flavor := ofParts "application" "x-java-serialized-object" [] .string

/-- A plain text as a byte stream in Unicode. -/
def plainText : Flavor := ofParts "text" "plain" [(charsetParam, "unicode")] .stream

def fileList : Flavor := ofParts "application" "x-java-file-list" [] .fileList

def image : Flavor := ofParts "image" "x-java-image" [] .image

/-- The name of the charset that another native format is in. -/
def textEncoding : Flavor := ofParts "application" "x-java-text-encoding" [] .byteArray

/-- Whether this is a list of files. -/
def isFileList (f : Flavor) : Bool := f.representation = .fileList && f.hasBase fileListBase

/-- Whether the MIME type is plain text. -/
def isPlainText (f : Flavor) : Bool := f.mime.primary = "text" && f.mime.subtype = "plain"

/-- The representations of a text as characters. -/
def decodedShapes : List Representation := [.string, .reader, .charBuffer, .charArray]

/-- The representations of a text as bytes. -/
def encodedShapes : List Representation := [.stream, .byteBuffer, .byteArray]

/-- The flavors of a text of some subtype, its bytes in a charset if one is named. -/
def textFlavors (subtype : String) (charset? : Option String) : List Flavor :=
  let named := charset?.toList.map (fun charset => (charsetParam, charset))
  decodedShapes.map (ofParts "text" subtype []) ++ encodedShapes.map (ofParts "text" subtype named)

/-- The flavors of a text of some subtype as bytes in a charset. -/
def encodedTextFlavors (subtype charset : String) : List Flavor :=
  encodedShapes.map (ofParts "text" subtype [(charsetParam, charset)])

end Flavor

end Clipboard
