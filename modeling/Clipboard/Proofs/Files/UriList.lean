import Clipboard.Files.UriList
import Clipboard.Proofs.Charset
import Clipboard.Proofs.Text

/-!
# Lists of file URIs there and back

What is escaped is restored (`unescape_escape_append`), so that a URI names the path it was made of
with slashes only and one in front (`toPath?_ofPath_visible`), and a line of a list is read apart
from the lines behind it (`parse_line_append`).

`parse_decode_encode` says what a list comes back as. In a list every URI and every line end is
written as a text of its own, which makes a difference in UTF-16 alone: there each of them begins
with a byte order mark, and only the first mark is dropped. The others are read as U+FEFF, so that
the first path ends with that character and the other lines are no URIs.
-/

namespace Clipboard

/-! ## Lines -/

namespace Text

theorem pieces_append_cons {p : Char → Bool} {line : List Char} (h : ∀ c ∈ line, p c = false)
    {sep : Char} (hsep : p sep = true) (rest : List Char) :
    pieces p (line ++ sep :: rest) = line :: pieces p rest := by
  induction line with
  | nil => rw [List.nil_append, pieces, if_pos hsep]
  | cons c line ih =>
    have hc : p c = false := h c List.mem_cons_self
    have ih := ih (fun x hx => h x (List.mem_cons_of_mem _ hx))
    rw [List.cons_append, pieces, if_neg (by simp [hc]), ih]

theorem linesOf_cons (line : List Char) {rest : List (List Char)} (h : rest ≠ []) :
    linesOf (line :: rest) = dropReturn line :: linesOf rest := by
  cases rest with
  | nil => exact absurd rfl h
  | cons next rest => rfl

theorem dropReturn_append_return (line : List Char) : dropReturn (line ++ ['\r']) = line := by
  simp [dropReturn]

/-- A line, its end, and the lines behind it. -/
theorem lines_line_append {line : List Char} (h : '\n' ∉ line) (rest : List Char) :
    lines (line ++ ['\r', '\n'] ++ rest) = line :: lines rest := by
  have hfeed : ∀ c ∈ line ++ ['\r'], (c == '\n') = false := by
    intro c hc
    rw [beq_eq_false_iff_ne]
    rintro rfl
    simp [h] at hc
  have hsplit : line ++ ['\r', '\n'] ++ rest = (line ++ ['\r']) ++ '\n' :: rest := by simp
  rw [hsplit, lines, pieces_append_cons hfeed (by rfl), linesOf_cons _ (pieces_ne_nil _ _),
    dropReturn_append_return, lines]

end Text

namespace UriList

/-! ## Percent signs -/

/-- A fact about all bytes is one about the numbers below 256. -/
theorem forall_byte {P : UInt8 → Prop} (h : ∀ n < 256, P (UInt8.ofNat n)) (b : UInt8) : P b := by
  have hb := h b.toNat b.toNat_lt
  rwa [UInt8.ofNat_toNat] at hb

theorem encode_escape_of_isPlain :
    ∀ b, isPlain b = true → Utf8.encode (escape b) = [b] ∧ b ≠ 0x25 :=
  forall_byte (by decide +kernel)

/-- The digits of a byte that is escaped are those of its value. -/
theorem encode_escape_of_not_isPlain :
    ∀ b, isPlain b = false →
      Utf8.encode (escape b)
          = [0x25, UInt8.ofNat (Hex.upperDigit (b.toNat / 16)).toNat,
              UInt8.ofNat (Hex.upperDigit (b.toNat % 16)).toNat] ∧
        escaped? (UInt8.ofNat (Hex.upperDigit (b.toNat / 16)).toNat)
            (UInt8.ofNat (Hex.upperDigit (b.toNat % 16)).toNat) = some b :=
  forall_byte (by decide +kernel)

theorem unescape_cons_of_ne {b : UInt8} (h : b ≠ 0x25) (rest : Bytes) :
    unescape (b :: rest) = b :: unescape rest := by
  rw [unescape]
  rintro a b' rest' rfl
  exact absurd rfl h

theorem unescape_percent {high low b : UInt8} (h : escaped? high low = some b) (rest : Bytes) :
    unescape (0x25 :: high :: low :: rest) = b :: unescape rest := by
  rw [unescape, h]

theorem unescape_escape_append (b : UInt8) (rest : Bytes) :
    unescape (Utf8.encode (escape b) ++ rest) = b :: unescape rest := by
  cases hplain : isPlain b with
  | true =>
    obtain ⟨hbytes, hne⟩ := encode_escape_of_isPlain b hplain
    rw [hbytes, List.singleton_append, unescape_cons_of_ne hne]
  | false =>
    obtain ⟨hbytes, hescaped⟩ := encode_escape_of_not_isPlain b hplain
    rw [hbytes]
    exact unescape_percent hescaped rest

/-- **What is escaped is restored**, and then what follows it. -/
theorem unescape_flatMap_escape_append (bytes rest : Bytes) :
    unescape (Utf8.encode (bytes.flatMap escape) ++ rest) = bytes ++ unescape rest := by
  induction bytes with
  | nil => rfl
  | cons b bytes ih =>
    rw [List.flatMap_cons, Utf8.encode_append, List.append_assoc, unescape_escape_append, ih,
      List.cons_append]

/-! ## URIs -/

/-- The characters of ASCII that leave a mark on paper. -/
def isVisible (c : Char) : Bool := 0x20 < c.toNat && c.toNat < 0x7F

theorem isVisible_iff {c : Char} : isVisible c = true ↔ 0x20 < c.toNat ∧ c.toNat < 0x7F := by
  simp only [isVisible, Bool.and_eq_true, decide_eq_true_iff]

theorem not_isBlank_of_isVisible {c : Char} (h : isVisible c = true) : Text.isBlank c = false := by
  obtain ⟨hlow, hhigh⟩ := isVisible_iff.mp h
  simp only [Text.isBlank, Bool.or_eq_false_iff, Bool.and_eq_false_iff, beq_eq_false_iff_ne,
    decide_eq_false_iff_not]
  omega

theorem all_isVisible_escape : ∀ b, (escape b).all isVisible = true :=
  forall_byte (by decide +kernel)

theorem all_isVisible_ofPath (path : List Char) : (ofPath path).all isVisible = true := by
  have hstart : (scheme ++ ['/', '/']).all isVisible = true := by decide
  rw [ofPath, List.all_append, hstart, List.all_flatMap, Bool.true_and, List.all_eq_true]
  exact fun b _ => all_isVisible_escape b

/-- There is no white space in a URI. -/
theorem not_isBlank_of_mem_ofPath (path : List Char) : ∀ c ∈ ofPath path, Text.isBlank c = false :=
  fun c hc => not_isBlank_of_isVisible (List.all_eq_true.mp (all_isVisible_ofPath path) c hc)

/-- A byte order mark behind it is none either. -/
theorem not_isBlank_of_mem_ofPath_mark (path : List Char) :
    ∀ c ∈ ofPath path ++ ['\ufeff'], Text.isBlank c = false :=
  List.forall_mem_append.mpr ⟨not_isBlank_of_mem_ofPath path, List.forall_mem_singleton.mpr rfl⟩

/-- There is a slash in front. -/
theorem exists_normalize_eq (path : List Char) : ∃ rest, normalize path = '/' :: rest := by
  simp only [normalize]
  split
  · next hslash => exact List.head?_eq_some_iff.mp hslash
  · exact ⟨_, rfl⟩

theorem toPath?_scheme_append (rest : List Char) :
    toPath? (scheme ++ ['/', '/'] ++ '/' :: rest)
      = Utf8.decode? (unescape (Utf8.encode ('/' :: rest))) := by
  have hscheme : Text.after? scheme (scheme ++ ['/', '/'] ++ '/' :: rest)
      = some ('/' :: '/' :: '/' :: rest) :=
    Text.after?_eq_some_iff.mpr (List.append_assoc ..)
  have hslashes : Text.after? ['/', '/'] ('/' :: '/' :: '/' :: rest) = some ('/' :: rest) :=
    Text.after?_eq_some_iff.mpr rfl
  have hhost : afterHost? ('/' :: rest) = some ('/' :: rest) := by simp [afterHost?]
  rw [toPath?, hscheme]
  simp [hslashes, hhost]

/-- **A URI names the path that it was made of**, and what is put behind the one is behind the
other. -/
theorem toPath?_ofPath_append (path extra : List Char)
    (hextra : unescape (Utf8.encode extra) = Utf8.encode extra) :
    toPath? (ofPath path ++ extra) = some (normalize path ++ extra) := by
  obtain ⟨rest, hnormalize⟩ := exists_normalize_eq path
  have hfirst : (Utf8.encodeChar '/').flatMap escape = ['/'] := by decide
  have hslash : (Utf8.encode (normalize path)).flatMap escape ++ extra
      = '/' :: ((Utf8.encode rest).flatMap escape ++ extra) := by
    rw [hnormalize, Utf8.encode_cons, List.flatMap_append, hfirst]
    rfl
  rw [ofPath, List.append_assoc, hslash, toPath?_scheme_append, ← hslash, Utf8.encode_append,
    unescape_flatMap_escape_append, hextra, ← Utf8.encode_append, Utf8.decode?_encode]

theorem toPath?_ofPath (path : List Char) : toPath? (ofPath path) = some (normalize path) := by
  have hpath := toPath?_ofPath_append path [] rfl
  rwa [List.append_nil, List.append_nil] at hpath

/-- A path with a slash for every backslash. -/
def slashed (path : List Char) : List Char := path.map (fun c => if c = '\\' then '/' else c)

/-- **There and back a path gets slashes only and one in front**, whatever its characters are, and
on the way it is ASCII without blanks and control characters. -/
theorem toPath?_ofPath_visible (path : List Char) :
    toPath? (ofPath path) = some
        (if (slashed path).head? = some '/' then slashed path else '/' :: slashed path) ∧
      ∀ c ∈ ofPath path, 0x20 < c.toNat ∧ c.toNat < 0x7F :=
  ⟨toPath?_ofPath path, fun c hc =>
    isVisible_iff.mp (List.all_eq_true.mp (all_isVisible_ofPath path) c hc)⟩

/-! ## Lists -/

/-- A line that is an entry is read, and then what is behind it. -/
theorem parse_line_append {line : List Char} (hvisible : ∀ c ∈ line, Text.isBlank c = false)
    (hentry : isEntry line = true) (rest : List Char) :
    parse (line ++ ['\r', '\n'] ++ rest) = (toPath? line).toList ++ parse rest := by
  have hfeed : '\n' ∉ line := fun hmem => absurd (hvisible _ hmem) (by decide)
  rw [parse, Text.lines_line_append hfeed, List.map_cons, Text.trim_of_visible hvisible,
    List.filter_cons_of_pos hentry, parse]
  cases hpath : toPath? line <;> simp [hpath]

/-- The line of a path, if the URI and the line end both begin with a mark. -/
def entry (mark path : List Char) : List Char := mark ++ ofPath path ++ (mark ++ ['\r', '\n'])

/-- Lines without marks give their paths. -/
theorem parse_entries (paths : List (List Char)) :
    parse (paths.flatMap (entry [])) = paths.map normalize := by
  induction paths with
  | nil => rfl
  | cons path paths ih =>
    rw [List.flatMap_cons, entry, List.nil_append, List.nil_append,
      parse_line_append (not_isBlank_of_mem_ofPath path) (by rfl), toPath?_ofPath, ih,
      List.map_cons]
    rfl

/-- A line that begins with a mark is no URI. -/
theorem parse_marked_entries (paths : List (List Char)) :
    parse (paths.flatMap (entry ['\ufeff'])) = [] := by
  induction paths with
  | nil => rfl
  | cons path paths ih =>
    have hline : entry ['\ufeff'] path
        = '\ufeff' :: (ofPath path ++ ['\ufeff']) ++ ['\r', '\n'] := by
      simp [entry]
    have hvisible : ∀ c ∈ '\ufeff' :: (ofPath path ++ ['\ufeff']), Text.isBlank c = false :=
      List.forall_mem_cons.mpr ⟨rfl, not_isBlank_of_mem_ofPath_mark path⟩
    have hpath : toPath? ('\ufeff' :: (ofPath path ++ ['\ufeff'])) = none := rfl
    rw [List.flatMap_cons, hline, parse_line_append hvisible (by rfl), hpath, ih]
    rfl

/-- If only the first mark is dropped, the first line alone is a URI, and the mark of its end is
read as part of it. -/
theorem parse_tail_marked_entries (paths : List (List Char)) :
    parse (paths.flatMap (entry ['\ufeff'])).tail
      = (paths.take 1).map (normalize · ++ ['\ufeff']) := by
  cases paths with
  | nil => rfl
  | cons path paths =>
    have hline : (entry ['\ufeff'] path ++ paths.flatMap (entry ['\ufeff'])).tail
        = ofPath path ++ ['\ufeff'] ++ ['\r', '\n'] ++ paths.flatMap (entry ['\ufeff']) := by
      simp [entry]
    have hpath := toPath?_ofPath_append path ['\ufeff'] (by decide)
    rw [List.flatMap_cons, hline, parse_line_append (not_isBlank_of_mem_ofPath_mark path) (by rfl),
      hpath, parse_marked_entries]
    rfl

/-! ## The bytes of a list -/

/-- Without marks the pieces of a list are one text. -/
theorem encode_of_ne_utf16 {cs : Charset} (h : cs ≠ .utf16) (paths : List (List Char)) :
    encode cs paths = cs.encode (paths.flatMap (entry [])) := by
  simp only [encode, Charset.encode_of_ne_utf16 h, List.flatMap_assoc, entry, List.flatMap_append,
    List.nil_append]

/-- Every piece of a list in UTF-16 has a mark of its own, which is U+FEFF for any other text. -/
theorem encode_utf16 (paths : List (List Char)) :
    encode .utf16 paths = (paths.flatMap (entry ['\ufeff'])).flatMap (Utf16.charBytes .big) := by
  have hpiece : ∀ text, text ≠ [] → Charset.utf16.encode text
      = ('\ufeff' :: text).flatMap (Utf16.charBytes .big) := by
    intro text htext
    rw [Charset.encode_eq, Charset.markOf, if_pos ⟨rfl, htext⟩]
    rfl
  have huri : ∀ path, ofPath path ≠ [] := fun path => List.cons_ne_nil _ _
  simp only [encode, hpiece _ (huri _), hpiece _ (List.cons_ne_nil _ _), List.flatMap_assoc, entry,
    List.flatMap_append, List.flatMap_cons, List.flatMap_nil, List.append_assoc, List.append_nil]

theorem decode_encode_utf16 (paths : List (List Char)) :
    Charset.utf16.decode (encode .utf16 paths) = (paths.flatMap (entry ['\ufeff'])).tail := by
  rw [encode_utf16]
  cases paths with
  | nil => rfl
  | cons path paths =>
    obtain ⟨text, htext⟩ : ∃ text, (path :: paths).flatMap (entry ['\ufeff']) = '\ufeff' :: text :=
      ⟨_, rfl⟩
    have hmark : Utf16.charBytes .big '\ufeff' = Charset.byteOrderMark := by decide
    have hdecode := Utf16.decodeBytes_flatMap_append .big text []
    rw [List.append_nil, Utf16.decodeBytes_nil, List.append_nil] at hdecode
    rw [htext, List.flatMap_cons, hmark, Charset.decode_utf16_mark, hdecode, List.tail_cons]

theorem keeps_of_mem_entries (cs : Charset) (paths : List (List Char)) :
    ∀ c ∈ paths.flatMap (entry []), cs.Keeps c := by
  intro c hc
  obtain ⟨path, -, hc⟩ := List.mem_flatMap.mp hc
  rcases List.mem_append.mp hc with hc | hc
  · have hvisible := List.all_eq_true.mp (all_isVisible_ofPath path) c hc
    exact cs.keeps_of_ascii (isVisible_iff.mp hvisible).2
  · rw [List.nil_append, List.mem_cons, List.mem_singleton] at hc
    obtain rfl | rfl := hc
    · exact cs.keeps_of_ascii (by decide)
    · exact cs.keeps_of_ascii (by decide)

theorem parse_decode_encode_of_ne_utf16 {cs : Charset} (h : cs ≠ .utf16)
    (paths : List (List Char)) :
    parse (cs.decode (encode cs paths)) = paths.map normalize := by
  rw [encode_of_ne_utf16 h, Charset.decode_encode (keeps_of_mem_entries cs paths), parse_entries]

theorem parse_decode_encode_utf16 (paths : List (List Char)) :
    parse (Charset.utf16.decode (encode .utf16 paths))
      = (paths.take 1).map (normalize · ++ ['\ufeff']) := by
  rw [decode_encode_utf16, parse_tail_marked_entries]

/-- **What a list of paths comes back as**: the paths with slashes only and one in front, in their
order, but in UTF-16 the first one alone, with a byte order mark behind it. -/
theorem parse_decode_encode (cs : Charset) (paths : List (List Char)) :
    parse (cs.decode (encode cs paths))
      = if cs = .utf16 then (paths.take 1).map (normalize · ++ ['\ufeff'])
        else paths.map normalize := by
  split
  · next h => rw [h, parse_decode_encode_utf16]
  · next h => exact parse_decode_encode_of_ne_utf16 h paths

/-- The second of two paths is lost, and the first is another one. -/
theorem parse_decode_encode_utf16_ne :
    parse (Charset.utf16.decode (encode .utf16 ["/a".toList, "/b".toList]))
      ≠ ["/a".toList, "/b".toList].map normalize := by
  rw [parse_decode_encode_utf16]
  decide

end UriList

end Clipboard
