import Clipboard.Proofs.CharReader.AnyBytes
import Clipboard.Proofs.NativeText

/-!
# The terminator among the bytes and among the characters

`decode` looks for the terminator among the bytes, unit by unit; a `Reencoder` looks for it among the
characters, as NUL. Whatever the bytes are, `exists_units` cuts them where the first looks: into units
none of which is zero, and a rest that begins with the terminator or is less than a unit. In a charset
other than UTF-8 the second stops at the same place (`decode_terminated`,
`nul_not_mem_decode_unterminated`), and sees one character more if the rest is part of a unit
(`decode_part`): `decode` drops the part, `streamed_eq_decode` says that a `Reencoder` reads U+FFFD
for it.
-/

namespace Clipboard

open NativeText (Unterminated)

/-! ## Units -/

namespace NativeText

/-- Bytes are units none of which is zero, and behind them the terminator or less than a unit. -/
theorem exists_units {n : Nat} (hn : 0 < n) (bytes : Bytes) :
    ∃ whole rest, Unterminated n whole ∧ bytes = whole ++ rest ∧
      (rest.length < n ∨ ∃ extra, rest = List.replicate n 0 ++ extra) := by
  induction hlength : bytes.length using Nat.strongRecOn generalizing bytes with
  | _ length ih =>
    by_cases hshort : bytes.length < n
    · exact ⟨[], bytes, .nil, rfl, Or.inl hshort⟩
    by_cases hzero : ∀ b ∈ bytes.take n, b = 0
    · have hunit : bytes.take n = List.replicate n 0 :=
        List.eq_replicate_iff.mpr ⟨by rw [List.length_take]; omega, hzero⟩
      refine ⟨[], bytes, .nil, rfl, Or.inr ⟨bytes.drop n, ?_⟩⟩
      rw [← hunit, List.take_append_drop]
    · have hne : ∃ b ∈ bytes.take n, b ≠ 0 := by
        simpa only [Classical.not_forall, exists_prop] using hzero
      have hunit : (bytes.take n).length = n := by rw [List.length_take]; omega
      obtain ⟨whole, rest, hwhole, hbytes, hrest⟩ :=
        ih _ (by rw [← hlength, List.length_drop]; omega) (bytes.drop n) rfl
      refine ⟨bytes.take n ++ whole, rest, .cons hunit hne hwhole, ?_, hrest⟩
      rw [List.append_assoc, ← hbytes, List.take_append_drop]

variable {n : Nat}

/-- The bytes end in part of a unit, and no terminator stands before it. -/
def EndsInPart (n : Nat) (bytes : Bytes) : Prop :=
  ∃ whole part, Unterminated n whole ∧ bytes = whole ++ part ∧ part ≠ [] ∧ part.length < n

theorem endsInPart_iff {bytes : Bytes} : EndsInPart n bytes ↔
    bytes.drop (terminatedLength n bytes) ≠ [] ∧
      (bytes.drop (terminatedLength n bytes)).length < n := by
  constructor
  · rintro ⟨whole, part, h, rfl, hne, hshort⟩
    rw [terminatedLength_units (by omega) h (Or.inl hshort), List.drop_left]
    exact ⟨hne, hshort⟩
  · rintro ⟨hne, hshort⟩
    have hn : 0 < n := by omega
    obtain ⟨whole, rest, h, rfl, hrest⟩ := exists_units hn bytes
    rw [terminatedLength_units hn h hrest, List.drop_left] at hne hshort
    exact ⟨whole, rest, h, rfl, hne, hshort⟩

instance (n : Nat) (bytes : Bytes) : Decidable (EndsInPart n bytes) :=
  decidable_of_iff _ endsInPart_iff.symm

end NativeText

/-! ## Units of two bytes -/

namespace Utf16

variable {order : Order} {whole : Bytes}

theorem allUnits_append (order : Order) (h : Unterminated 2 whole) (rest : Bytes) :
    allUnits order (whole ++ rest) = allUnits order whole ++ allUnits order rest := by
  induction h with
  | nil => rfl
  | @cons pair more hlength _ _ ih =>
    match pair, hlength with
    | [a, b], _ => simp [ih]

theorem ne_zero_of_mem_allUnits (order : Order) (h : Unterminated 2 whole) :
    ∀ u ∈ allUnits order whole, u < 0x10000 ∧ u ≠ 0 := by
  induction h with
  | nil => simp
  | @cons pair more hlength hne _ ih =>
    match pair, hlength, hne with
    | [a, b], _, hne =>
      rintro u (_ | ⟨_, hu⟩)
      · refine ⟨unit_lt order a b, fun h0 => ?_⟩
        obtain ⟨ha, hb⟩ : a.toNat = 0 ∧ b.toNat = 0 := by
          cases order <;> simp only [unit] at h0 <;> omega
        obtain ⟨x, hx, hx0⟩ := hne
        simp only [List.mem_cons, List.not_mem_nil, or_false] at hx
        rcases hx with rfl | rfl
        · exact hx0 (UInt8.toNat_inj.mp ha)
        · exact hx0 (UInt8.toNat_inj.mp hb)
      · exact ih u hu

theorem decodeBytes_append (h : Unterminated 2 whole) {rest : Bytes}
    (hrest : ∀ u ∈ (allUnits order rest).head?, isLow u = false) :
    decodeBytes order (whole ++ rest) = decodeBytes order whole ++ decodeBytes order rest := by
  simp only [decodeBytes_eq_decode, allUnits_append order h, decode_append hrest]

theorem nul_not_mem_decodeBytes (order : Order) (h : Unterminated 2 whole) :
    '\x00' ∉ decodeBytes order whole := by
  rw [decodeBytes_eq_decode]
  exact nul_not_mem_decode (ne_zero_of_mem_allUnits order h)

end Utf16

/-! ## The characters of units -/

namespace Charset

variable {cs : Charset} {whole : Bytes}

/-- NUL is the character of no byte but zero. -/
theorem eq_zero_of_decode_eq_nul (hutf8 : cs ≠ .utf8) (hwide : cs.isWide = false) {b : UInt8}
    (h : cs.decode [b] = ['\x00']) : b = 0 := by
  have hbytes : ∀ n < 256, cs.decode [UInt8.ofNat n] = ['\x00'] → n = 0 := by
    cases cs
    case utf8 => exact absurd rfl hutf8
    case usAscii | latin1 | windows1252 | ibm437 => decide +kernel
    all_goals cases hwide
  have hb := hbytes b.toNat b.toNat_lt (by rwa [UInt8.ofNat_toNat])
  exact UInt8.toNat_inj.mp hb

theorem splitMark_append (h : Unterminated 2 whole) :
    ∃ order body, Unterminated 2 body ∧ ∀ rest, splitMark rest = (.big, rest) →
      splitMark (whole ++ rest) = (order, body ++ rest) := by
  cases h with
  | nil => exact ⟨.big, [], .nil, fun rest hrest => hrest⟩
  | @cons pair more hlength hne hmore =>
    match pair, hlength, hne with
    | [a, b], _, hne =>
      simp only [List.cons_append, List.nil_append, splitMark_cons_cons]
      split
      · exact ⟨_, more, hmore, fun rest _ => rfl⟩
      · split
        · exact ⟨_, more, hmore, fun rest _ => rfl⟩
        · have hunit : [a, b].length = 2 := rfl
          exact ⟨_, a :: b :: more, .cons hunit hne hmore, fun rest _ => rfl⟩

/-- But for the byte order mark, the units of a text are read one after the other. -/
theorem exists_order (hwide : cs.isWide = true) (h : Unterminated 2 whole) :
    ∃ order body, Unterminated 2 body ∧ cs.decode whole = Utf16.decodeBytes order body ∧
      ∀ rest, splitMark rest = (.big, rest) →
        cs.decode (whole ++ rest) = Utf16.decodeBytes order (body ++ rest) := by
  suffices h : ∃ order body, Unterminated 2 body ∧ ∀ rest, splitMark rest = (.big, rest) →
      cs.decode (whole ++ rest) = Utf16.decodeBytes order (body ++ rest) by
    obtain ⟨order, body, hbody, hdecode⟩ := h
    refine ⟨order, body, hbody, ?_, hdecode⟩
    simpa only [List.append_nil] using hdecode [] rfl
  by_cases hcs : cs = .utf16
  · subst hcs
    obtain ⟨order, body, hbody, hsplit⟩ := splitMark_append h
    refine ⟨order, body, hbody, fun rest hrest => ?_⟩
    rw [decode, hsplit rest hrest]
  · obtain ⟨order, hw⟩ := wide_of_isWide hwide
    exact ⟨order, whole, h, fun rest _ => hw.decode_eq _ hcs⟩

theorem decode_append_of_isWide (hwide : cs.isWide = true) (h : Unterminated 2 whole) {rest : Bytes}
    (hmark : splitMark rest = (.big, rest))
    (hhead : ∀ order, ∀ u ∈ (Utf16.allUnits order rest).head?, Utf16.isLow u = false) :
    ∃ order, cs.decode (whole ++ rest) = cs.decode whole ++ Utf16.decodeBytes order rest := by
  obtain ⟨order, body, hbody, hwhole, hdecode⟩ := exists_order hwide h
  exact ⟨order, by rw [hdecode rest hmark, hwhole, Utf16.decodeBytes_append hbody (hhead order)]⟩

/-- **No unit that is not zero is read as NUL.** -/
theorem nul_not_mem_decode_unterminated (hutf8 : cs ≠ .utf8) (h : Unterminated cs.unitWidth whole) :
    '\x00' ∉ cs.decode whole := by
  cases hwide : cs.isWide with
  | true =>
    rw [unitWidth, if_pos hwide] at h
    obtain ⟨order, body, hbody, hwhole, -⟩ := exists_order hwide h
    rw [hwhole]
    exact Utf16.nul_not_mem_decodeBytes order hbody
  | false =>
    obtain ⟨byte, char, hsingle⟩ := single_of_not_isWide hwide hutf8
    rw [unitWidth, if_neg (by simp [hwide])] at h
    rw [hsingle.decode_eq]
    induction h with
    | nil => simp
    | @cons unit more hlength hne _ ih =>
      obtain ⟨x, hx, hx0⟩ := hne
      obtain ⟨b, rfl⟩ := List.length_eq_one_iff.mp hlength
      obtain rfl := List.mem_singleton.mp hx
      have hchar : '\x00' ≠ char x := by
        intro hnul
        refine hx0 (eq_zero_of_decode_eq_nul hutf8 hwide ?_)
        rw [hsingle.decode_eq, hnul]
        rfl
      simpa [hchar] using ih

/-- **The terminator is read as NUL.** -/
theorem decode_terminated (hutf8 : cs ≠ .utf8) (h : Unterminated cs.unitWidth whole) (extra : Bytes) :
    ∃ junk, cs.decode (whole ++ (List.replicate cs.unitWidth 0 ++ extra))
      = cs.decode whole ++ '\x00' :: junk := by
  cases hwide : cs.isWide with
  | true =>
    rw [unitWidth, if_pos hwide] at h ⊢
    have hunit (order : Utf16.Order) : Utf16.unit order 0 0 = 0 := by cases order <;> rfl
    have hmark : splitMark (List.replicate 2 0 ++ extra) = (.big, List.replicate 2 0 ++ extra) := rfl
    obtain ⟨order, hdecode⟩ := decode_append_of_isWide hwide h hmark (by
      rintro order u ⟨⟩
      rw [hunit]
      rfl)
    refine ⟨Utf16.decodeBytes order extra, ?_⟩
    rw [hdecode, Utf16.decodeBytes_eq_decode order (List.replicate 2 0 ++ extra)]
    simp only [List.replicate, List.cons_append, List.nil_append, Utf16.allUnits_cons_cons, hunit]
    rw [Utf16.decode_cons_of_single rfl rfl, Utf16.decodeBytes_eq_decode]
  | false =>
    obtain ⟨byte, char, hsingle⟩ := single_of_not_isWide hwide hutf8
    rw [unitWidth, if_neg (by simp [hwide])]
    refine ⟨extra.map char, ?_⟩
    simp [hsingle.decode_eq, hsingle.char_zero]

/-- **Part of a unit is read as U+FFFD.** -/
theorem decode_part (h : Unterminated cs.unitWidth whole) {part : Bytes}
    (hne : part ≠ []) (hshort : part.length < cs.unitWidth) :
    cs.decode (whole ++ part) = cs.decode whole ++ ['\ufffd'] := by
  have hpos := List.length_pos_iff.mpr hne
  cases hwide : cs.isWide with
  | true =>
    rw [unitWidth, if_pos hwide] at h hshort
    obtain ⟨b, rfl⟩ := List.length_eq_one_iff.mp (show part.length = 1 by omega)
    obtain ⟨order, hdecode⟩ := decode_append_of_isWide hwide h (splitMark_singleton b)
      (by rintro order u ⟨⟩; rfl)
    rw [hdecode]
    rfl
  | false =>
    rw [unitWidth, if_neg (by simp [hwide])] at hshort
    omega

end Charset

/-! ## Piece by piece and as a whole -/

namespace NativeText

variable {props : TextProperties} {charset? : Option String} {cs : Charset}

/-- The characters before NUL are those of the bytes before the terminator, and U+FFFD for part of a
unit behind them. -/
theorem untilNul_decode (hutf8 : cs ≠ .utf8)
    (hunit : props.terminators = 0 ∨ props.terminators = cs.unitWidth) (bytes : Bytes) :
    (¬EndsInPart props.terminators bytes → untilNul props (cs.decode bytes)
        = cs.decode (untilTerminator props.terminators bytes)) ∧
      (EndsInPart props.terminators bytes → untilNul props (cs.decode bytes)
        = cs.decode (untilTerminator props.terminators bytes) ++ ['\ufffd']) := by
  rcases hunit with hzero | hunit
  · rw [hzero]
    refine ⟨fun _ => ?_, ?_⟩
    · rw [untilTerminator, terminatedLength_zero, List.take_length, untilNul, if_neg (by omega)]
    · rintro ⟨_, part, -, -, -, hshort⟩
      exact absurd hshort (Nat.not_lt_zero _)
  · have hpos : 0 < props.terminators := hunit ▸ cs.unitWidth_pos
    have hreplacement : '\x00' ≠ '\ufffd' := by decide
    refine ⟨fun hwhole => ?_, ?_⟩
    · obtain ⟨whole, rest, h, rfl, hrest⟩ := exists_units hpos bytes
      rw [untilTerminator_units hpos h hrest]
      rw [hunit] at h hrest
      have hnul := Charset.nul_not_mem_decode_unterminated hutf8 h
      rcases hrest with hshort | ⟨extra, rfl⟩
      · have hnil : rest = [] := by
          refine Classical.byContradiction (fun hne => hwhole ?_)
          rw [hunit]
          exact ⟨whole, rest, h, rfl, hne, hshort⟩
        rw [hnil, List.append_nil, untilNul_of_not_mem hnul]
      · obtain ⟨junk, hdecode⟩ := Charset.decode_terminated hutf8 h extra
        rw [hdecode, untilNul_terminated hpos hnul]
    · rintro ⟨whole, part, h, rfl, hne, hshort⟩
      rw [untilTerminator_units hpos h (Or.inl hshort)]
      rw [hunit] at h hshort
      have hnul := Charset.nul_not_mem_decode_unterminated hutf8 h
      rw [Charset.decode_part h hne hshort, untilNul_of_not_mem (by simp [hnul, hreplacement])]

theorem decode_of_ofName? (hcharset : Charset.ofName? (charset?.getD props.charset) = some cs)
    (bytes : Bytes) : decode props charset? bytes
      = .ok (fromNativeLines props (cs.decode (untilTerminator props.terminators bytes))) := by
  simp [decode, Charset.require, hcharset]

theorem fromNativeLines_concat {x : Char} (hx : ∀ eoln ∈ props.eoln, x ∉ eoln.toList)
    (text : List Char) :
    fromNativeLines props (text ++ [x]) = fromNativeLines props text ++ [x] := by
  cases heoln : props.eoln with
  | none => simp [fromNativeLines, heoln]
  | some eoln =>
    simp only [fromNativeLines, heoln]
    exact LineEnd.fromNative_concat (hx eoln heoln) text

/-- **Read piece by piece or decoded as a whole, bytes hold the same text**, unless they end in part
of a unit. Then it is dropped from the whole, and behind the pieces stands U+FFFD. -/
theorem streamed_eq_decode {stream : ByteStream}
    (hcharset : Charset.ofName? (charset?.getD props.charset) = some cs) (hutf8 : cs ≠ .utf8)
    (hunit : props.terminators = 0 ∨ props.terminators = cs.unitWidth)
    (hmarker : ∀ eoln ∈ props.eoln, '\x00' ∉ eoln.toList) (hend : stream.ending = .endOfData) :
    ∃ text streamed, decode props charset? stream.toBytes = .ok text ∧
      (Reencoder.new cs .utf8 props stream).drain = (Charset.utf8.encode streamed, .endOfData) ∧
      (∀ sizes, ∃ given finished r,
        Reencoder.readUntilEnd sizes (Reencoder.new cs .utf8 props stream)
          = .ok (given, finished) r ∧
        (finished = true ↔ Reencoder.AsksBeyond (Charset.utf8.encode streamed).length sizes) ∧
        (finished = true → given = Charset.utf8.encode streamed)) ∧
      (¬EndsInPart props.terminators stream.toBytes → streamed = text) ∧
      (EndsInPart props.terminators stream.toBytes →
        (∀ eoln ∈ props.eoln, '\ufffd' ∉ eoln.toList) → streamed = text ++ ['\ufffd']) := by
  have hgives := Reencoder.gives_new cs .utf8 (Or.inr hmarker) hend
  obtain ⟨hwhole, hpart⟩ := untilNul_decode hutf8 hunit stream.toBytes
  have hchars : (CharReader.new cs (.ofBytes stream.toBytes)).readRest.1
      = cs.decode stream.toBytes := by
    rw [CharReader.readRest_new, Charset.decodeStepwise, if_neg hutf8]
  rw [contentOf, hchars] at hgives
  refine ⟨_, _, decode_of_ofName? hcharset _, Reencoder.drain_of_gives hgives, fun sizes => ?_,
    fun h => ?_, fun h hclear => ?_⟩
  · obtain ⟨finished, r, hread, hiff⟩ := Reencoder.readUntilEnd_of_gives sizes hgives
    exact ⟨_, finished, r, hread, hiff,
      fun hfinished => Reencoder.take_asked_of_asksBeyond (hiff.mp hfinished)⟩
  · rw [textOf, hwhole h]
  · rw [textOf, hpart h, fromNativeLines_concat hclear]

/-- A line end cut in two between deliveries, and a tail of half a unit behind the terminator. -/
theorem streamed_eq_decode_tail :
    let props : TextProperties := { charset := "UTF-16LE", eoln := some "\r\n", terminators := 2 }
    let stream : ByteStream :=
      { deliveries := [.bytes 0x61 [0x00, 0x0D], .interrupted, .bytes 0x00 [0x0A, 0x00, 0x00, 0x00],
          .bytes 0x62 []]
        ending := .endOfData }
    Charset.ofName? (Option.getD none props.charset) = some .utf16le ∧
      Charset.utf16le ≠ .utf8 ∧
      (props.terminators = 0 ∨ props.terminators = Charset.utf16le.unitWidth) ∧
      (∀ eoln ∈ props.eoln, '\x00' ∉ eoln.toList) ∧ stream.ending = .endOfData ∧
      decode props none stream.toBytes = .ok ['a', '\n'] ∧
      (Reencoder.new .utf16le .utf8 props stream).drain = ([0x61, 0x0A], .endOfData) ∧
      ∃ r, Reencoder.readUntilEnd [1, 5, 1] (Reencoder.new .utf16le .utf8 props stream)
        = .ok ([0x61, 0x0A], true) r := by
  intro props stream
  have hcharset : Charset.ofName? (Option.getD none props.charset) = some .utf16le := by
    decide +kernel
  have hmarker : ∀ eoln ∈ props.eoln, '\x00' ∉ eoln.toList := by simp [props]
  have hdecode : decode props none stream.toBytes = .ok ['a', '\n'] :=
    (decode_of_ofName? hcharset _).trans (congrArg Except.ok (by decide +kernel))
  have hwhole : ¬EndsInPart props.terminators stream.toBytes := by decide +kernel
  have hend : stream.ending = .endOfData := rfl
  obtain ⟨text, streamed, htext, hdrain, hreads, hsame, -⟩ :=
    streamed_eq_decode hcharset (by decide) (Or.inr rfl) hmarker hend
  obtain rfl : ['a', '\n'] = text := Except.ok.inj (hdecode.symm.trans htext)
  rw [hsame hwhole] at hdrain hreads
  obtain ⟨given, finished, r, hread, hfinished, hgiven⟩ := hreads [1, 5, 1]
  have hbeyond : finished = true := hfinished.mpr ⟨[1, 5], 1, [], rfl, by decide, by decide⟩
  rw [hgiven hbeyond, hbeyond] at hread
  exact ⟨hcharset, by decide, Or.inr rfl, hmarker, hend, hdecode, hdrain, r, hread⟩

/-- A byte of a unit that was never completed: the whole is shorter by the character that the pieces
have for it. -/
theorem streamed_ne_decode_half_unit :
    let props : TextProperties := { charset := "UTF-16LE", eoln := none, terminators := 2 }
    let bytes : Bytes := [0x61, 0x00, 0x42]
    decode props none bytes = .ok ['a'] ∧
      (Reencoder.new .utf16le .utf8 props (.ofBytes bytes)).drain
        = (Charset.utf8.encode ['a', '\ufffd'], .endOfData) ∧
      Charset.utf8.encode ['a', '\ufffd'] ≠ Charset.utf8.encode ['a'] := by
  intro props bytes
  have hcharset : Charset.ofName? (Option.getD none props.charset) = some .utf16le := by
    decide +kernel
  refine ⟨(decode_of_ofName? hcharset _).trans (congrArg Except.ok ?_), ?_, ?_⟩ <;>
    decide +kernel

end NativeText

end Clipboard
