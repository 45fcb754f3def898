import Clipboard.Config
import Clipboard.Flavor.Standard

/-!
# The built-in configuration

The common formats of the Windows clipboard.
-/

namespace Clipboard.Config

def binaryEntry (id : FormatId) (name : String) (kind : FormatKind) (flavors : List Flavor) :
    FormatEntry :=
  { id, name, kind, localeDependent := false, flavors := flavors.map Flavor.toString, text := none }

/-- A format of text with lines that end in a carriage return and a line feed. -/
def textEntry (id : FormatId) (name flavor charset : String) (terminators : Nat)
    (localeDependent : Bool) : FormatEntry :=
  { id, name, kind := .plain, localeDependent, flavors := [flavor]
    text := some
      { charset := some charset, eoln := some "\r\n", terminators := some (.count terminators) } }

def windows : Config :=
  { default with
    formats := [
      textEntry .unicodeText "CF_UNICODETEXT" "text/plain" "UTF-16LE" 2 false,
      textEntry .text "CF_TEXT" "text/plain" "windows-1252" 1 true,
      textEntry .oemText "CF_OEMTEXT" "text/plain" "IBM437" 1 true,
      textEntry .html "HTML Format" "text/html" "UTF-8" 1 false,
      textEntry .richText "Rich Text Format" "text/rtf" "US-ASCII" 1 false,
      binaryEntry .locale "CF_LOCALE" .plain [],
      binaryEntry .dropFiles "CF_HDROP" .fileList [Flavor.fileList],
      binaryEntry .uriList "text/uri-list;charset=utf-8" .uriList [Flavor.fileList],
      binaryEntry .png "PNG" .image [Flavor.image],
      binaryEntry .dib "CF_DIB" .image [Flavor.image]] }

end Clipboard.Config
