import Clipboard.Config
import Clipboard.Json

/-!
# Configurations as JSON values

What is not said of a text is left out; all else is written, be it the default or not.
-/

namespace Clipboard

def TerminatorCount.toJson : TerminatorCount → Json.Value
  | count n => .ofInt n
  | text s => .string s

def TextEntry.toJson (e : TextEntry) : Json.Value :=
  .ofMembers <| List.flatten [
    (e.charset.map (fun s => ("charset", Json.Value.string s))).toList,
    (e.eoln.map (fun s => ("eoln", Json.Value.string s))).toList,
    (e.terminators.map (fun t => ("terminators", t.toJson))).toList]

def FormatEntry.toJson (e : FormatEntry) : Json.Value :=
  .ofMembers <| [
    ("id", .ofNat e.id.number),
    ("name", .string e.name),
    ("kind", .string e.kind.name),
    ("locale_dependent", .bool e.localeDependent),
    ("flavors", .array (e.flavors.map .string))]
    ++ (e.text.map (fun t => ("text", t.toJson))).toList

def Config.toJson (c : Config) : Json.Value :=
  .ofMembers [
    ("default_charset", .string c.defaultCharset),
    ("expand_text_flavors", .bool c.expandTextFlavors),
    ("properties", .object (c.properties.mapValues (fun _ s => .string s))),
    ("formats", .array (c.formats.map FormatEntry.toJson))]

end Clipboard
