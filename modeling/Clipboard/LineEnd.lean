/-!
# Line ends

In a text in process a line feed ends a line; a native format may use any other marker instead.
`toNative` puts the marker for every line feed and leaves the markers that are there already, so
that a text is not changed twice. `fromNative` puts a line feed for every marker, from left to
right and without overlap. An empty marker changes nothing.
-/

namespace Clipboard.LineEnd

/-- The marker for every line feed; markers already there are kept. -/
def toNative (marker : List Char) (text : List Char) : List Char :=
  match text with
  | [] => []
  | c :: cs =>
    if marker.isEmpty then c :: cs
    else if marker.isPrefixOf (c :: cs) then
      marker ++ toNative marker (cs.drop (marker.length - 1))
    else (if c = '\n' then marker else [c]) ++ toNative marker cs
termination_by text.length
decreasing_by all_goals grind

/-- A line feed for every marker. -/
def fromNative (marker : List Char) (text : List Char) : List Char :=
  match text with
  | [] => []
  | c :: cs =>
    if marker.isEmpty then c :: cs
    else if marker.isPrefixOf (c :: cs) then
      '\n' :: fromNative marker (cs.drop (marker.length - 1))
    else c :: fromNative marker cs
termination_by text.length
decreasing_by all_goals grind

end Clipboard.LineEnd
