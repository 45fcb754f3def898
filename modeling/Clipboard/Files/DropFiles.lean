import Clipboard.Endian
import Clipboard.Error

/-!
# Lists of dropped files

The platform's structure for a list of files is a header of 20 bytes, which says where the names
begin and whether they are in UTF-16, and the names, each ended by a zero, an empty one behind the
last. Names are written in UTF-16; names of one byte for a character are read too.
-/

namespace Clipboard

/-- Turns lists of paths into the bytes of a native format and back. -/
structure FileListCodec where
  encode : List String → Except Error Bytes
  /-- The list of bytes; nothing if they hold none. -/
  decode : Bytes → Except Error (Option (List String))

namespace DropFiles

def headerLength : Nat := 20

/-- The header: the names follow it and are in UTF-16. -/
def header : Bytes :=
  Endian.little 4 headerLength ++ List.replicate 12 0 ++ Endian.little 4 1

/-- The bytes of a name in UTF-16, without the zero behind it. -/
def nameBytes (name : String) : Bytes :=
  (Utf16.encode name.toList).flatMap (Utf16.unitBytes .little)

/-- The bytes of a list of names. -/
def encode (names : List String) : Bytes :=
  header ++ names.flatMap (fun name => nameBytes name ++ [0, 0]) ++ [0, 0]

/-- The runs before an empty one, each ended by a zero or by the end. -/
def runs {α : Type} (isZero : α → Bool) (xs : List α) : List (List α) :=
  match xs with
  | [] => []
  | x :: rest =>
    if isZero x then []
    else
      (x :: rest.takeWhile (!isZero ·)) :: runs isZero ((rest.dropWhile (!isZero ·)).drop 1)
termination_by xs.length
decreasing_by
  have := (List.dropWhile_sublist (!isZero ·) (l := rest)).length_le
  simp only [List.length_drop, List.length_cons]
  omega

def namesOf (wide : Bool) (data : Bytes) : List String :=
  if wide then
    (runs (· = 0) (Utf16.unitsOf .little data).1).map (fun u => String.ofList (Utf16.decode u))
  else
    (runs (· = 0) data).map (fun bs => String.ofList (Charset.windows1252.decode bs))

/-- The names in a list of dropped files. -/
def decode (bytes : Bytes) : Except Error (List String) :=
  if bytes.length < headerLength then .error (.invalidData .dropFilesTooSmall)
  else
    let offset := Endian.littleAt bytes 0 4
    let wide := Endian.littleAt bytes 16 4 ≠ 0
    if offset < headerLength ∨ bytes.length < offset then .error (.invalidData .dropFilesOffset)
    else .ok (namesOf wide (bytes.drop offset))

/-- The codec of lists of dropped files. -/
def codec : FileListCodec where
  encode names := .ok (encode names)
  decode bytes := (decode bytes).map some

end DropFiles

end Clipboard
