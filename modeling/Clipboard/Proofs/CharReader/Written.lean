import Clipboard.Proofs.CharReader
import Clipboard.Proofs.Charset

/-!
# Reading characters that were written

`inside cs bytes` is a reader in the middle of a text: no byte order mark is looked for and no unit
is kept. It reads back, one by one, the characters that the charset keeps (`readChar_inside`). A
reader at the start of a text (`new`) becomes such a reader with the first character, so that it
reads the text (`readRest_new_encode`), and if a terminator follows, NUL after it
(`readRest_new_terminated`).
-/

namespace Clipboard.CharReader

/-- A reader in the middle of a text. -/
def inside (cs : Charset) (bytes : Bytes) : CharReader :=
  { charset := cs
    order := if cs = .utf16le then .little else .big
    markChecked := true
    kept := none
    source := .ofBytes bytes }

theorem new_eq_inside {cs : Charset} (h : cs ≠ .utf16) (bytes : Bytes) :
    new cs (.ofBytes bytes) = inside cs bytes := by
  simp [new, inside, h]

theorem readByte_inside_cons (cs : Charset) (b : UInt8) (bytes : Bytes) :
    (inside cs (b :: bytes)).readByte = .ok (some b) (inside cs bytes) := by
  simp [readByte, inside]

/-! ## One character -/

theorem readChar_inside_utf8 (c : Char) (rest : Bytes) :
    (inside .utf8 (Utf8.encodeChar c ++ rest)).readChar = .ok (some c) (inside .utf8 rest) := by
  obtain ⟨lead, others, hbytes, hlength, -⟩ := Utf8.exists_writes c
  have hchar := Utf8.char?_encodeChar c
  rw [hbytes] at hchar
  rw [hbytes, List.cons_append]
  show (inside .utf8 (lead :: (others ++ rest))).readUtf8 = _
  rw [readUtf8, readByte_inside_cons]
  simp only [hlength, inside, ByteStream.readBytes_ofBytes, Nat.add_sub_cancel, List.take_left,
    List.drop_left, hchar, Option.getD_some]

theorem readChar_of_single {cs : Charset} {byte : Char → UInt8} {char : UInt8 → Char}
    (h : cs.Single byte char) {r : CharReader} (hr : r.charset = cs) :
    r.readChar = readSingle char r := by
  have hchar : ∀ b, cs.decode [b] = [char b] := fun b => h.decode_eq [b]
  have hmark := h.ne_utf16
  have hone : ∀ c, (cs.charBytes c).length = 1 := fun c => by rw [h.charBytes_eq]; rfl
  cases cs
  case usAscii | latin1 | windows1252 | ibm437 =>
    have : char = _ := funext (fun b => (List.cons.inj (hchar b)).1.symm)
    rw [this, readChar, hr]
  case utf16 => exact absurd rfl hmark
  case utf8 => exact absurd (hone 'é') (by decide)
  case utf16le | utf16be => exact absurd (hone 'a') (by decide)

theorem readChar_of_isWide {r : CharReader} (h : r.charset.isWide = true) :
    r.readChar = r.readUtf16 := by
  unfold readChar
  split
  case h_1 hcs => rw [hcs] at h; cases h
  case h_2 | h_3 | h_4 => rfl
  all_goals
    next hcs => rw [hcs] at h; cases h

theorem readUnit_inside {cs : Charset} {order : Utf16.Order} (h : cs.Wide order) {u : Nat}
    (hu : u < 0x10000) (rest : Bytes) :
    (inside cs (Utf16.unitBytes order u ++ rest)).readUnit = .ok (some u) (inside cs rest) := by
  obtain ⟨a, b, hbytes, hunit⟩ := Utf16.exists_unitBytes order hu
  have horder : (inside cs rest).order = order := h.order_eq.symm
  rw [hbytes, List.cons_append, List.singleton_append]
  show (inside cs (a :: b :: rest)).readNewUnit = _
  rw [readNewUnit, readByte_inside_cons]
  simp only [readByte_inside_cons, horder, hunit]

theorem readUtf16_inside {cs : Charset} {order : Utf16.Order} (h : cs.Wide order) (c : Char)
    (rest : Bytes) :
    (inside cs (Utf16.charBytes order c ++ rest)).readUtf16 = .ok (some c) (inside cs rest) := by
  have hspells := Utf16.spells_encodeChar c
  rw [Utf16.charBytes]
  generalize Utf16.encodeChar c = units at hspells
  cases hspells with
  | single hlt hhigh hlow =>
    rw [List.flatMap_singleton, readUtf16, readUnit_inside h hlt]
    simp [inside, completeUnit, hhigh, hlow, Char.ofNat_toNat]
  | pair hhigh hlow hjoin =>
    rw [List.flatMap_cons, List.flatMap_singleton, List.append_assoc, readUtf16,
      readUnit_inside h (Utf16.lt_of_isHigh hhigh).2]
    show (inside cs _).completeUnit _ = _
    rw [completeUnit, if_pos hhigh, readUnit_inside h (Utf16.lt_of_isLow hlow).2]
    simp only [if_pos hlow, hjoin]

/-- **A character that the charset keeps is read back**, and nothing behind it is touched. -/
theorem readChar_inside {cs : Charset} {c : Char} (h : cs.Keeps c) (rest : Bytes) :
    (inside cs (cs.charBytes c ++ rest)).readChar = .ok (some c) (inside cs rest) := by
  rcases cs.kinds with rfl | ⟨byte, char, hsingle⟩ | ⟨hwide, order, horder⟩
  · exact readChar_inside_utf8 c rest
  · rw [hsingle.charBytes_eq, List.singleton_append, readChar_of_single hsingle rfl, readSingle,
      readByte_inside_cons]
    simp [(hsingle.keeps_iff c).mp h]
  · rw [readChar_of_isWide (by exact hwide), horder.charBytes_eq, readUtf16_inside horder]

/-! ## A text -/

theorem readRest_inside_append {cs : Charset} {text : List Char} (h : ∀ c ∈ text, cs.Keeps c)
    (rest : Bytes) :
    (inside cs (text.flatMap cs.charBytes ++ rest)).readRest
      = (text ++ (inside cs rest).readRest.1, (inside cs rest).readRest.2) := by
  induction text with
  | nil => rfl
  | cons c text ih =>
    rw [List.flatMap_cons, List.append_assoc,
      readRest_of_some (readChar_inside (h c List.mem_cons_self) _),
      ih (fun x hx => h x (List.mem_cons_of_mem _ hx))]
    rfl

theorem exhausted_inside_nil (cs : Charset) : (inside cs []).Exhausted :=
  ⟨fun _ => rfl, rfl, rfl⟩

theorem readRest_congr {r r' : CharReader} (h : r.readChar = r'.readChar) :
    r.readRest = r'.readRest := by
  cases h' : r'.readChar with
  | fault e s => rw [readRest_of_fault h', readRest_of_fault (h.trans h')]
  | ok c s =>
    cases c with
    | none => rw [readRest_of_end h', readRest_of_end (h.trans h')]
    | some c => rw [readRest_of_some h', readRest_of_some (h.trans h')]

theorem markChecked_readUnit {r r' : CharReader} {u : Nat} (h : r.readUnit = .ok (some u) r') :
    r'.markChecked = r.markChecked := by
  unfold readUnit readNewUnit at h
  split at h
  · cases h; rfl
  · split at h
    · cases h
    · cases h
    · next ha =>
      have h₁ := (source_of_readByte ha).2
      split at h
      · cases h
      · next hb =>
        cases h
        rw [(source_of_readByte hb).2, h₁]
      · next hb =>
        cases h
        rw [(source_of_readByte hb).2, h₁]

theorem markChecked_settleOrder (r : CharReader) (u : Nat) :
    (r.settleOrder u).markChecked = true := by
  unfold settleOrder
  split
  · rfl
  · split <;> rfl

/-- The first unit settles the byte order, and then it is as if nothing had been read. -/
theorem readUtf16_of_first {r r' : CharReader} {u : Nat} (hmark : r'.markChecked = false)
    (h : r.readUnit = .ok (some u) r') : r.readUtf16 = (r'.settleOrder u).readUtf16 := by
  rw [readUtf16, readUtf16, h]
  dsimp only
  rw [if_neg (by simp [hmark])]
  -- the reader that has settled the order asks for no mark again
  cases hv : (r'.settleOrder u).readUnit with
  | fault e r₂ => rfl
  | ok v r₂ =>
    cases v with
    | none => rfl
    | some v =>
      have hr₂ : r₂.markChecked = true :=
        (markChecked_readUnit hv).trans (markChecked_settleOrder r' u)
      dsimp only
      rw [if_pos hr₂]

/-- The byte order mark is passed over. -/
theorem readRest_new_mark (bytes : Bytes) :
    (new .utf16 (.ofBytes (Charset.byteOrderMark ++ bytes))).readRest
      = (inside .utf16 bytes).readRest := by
  refine readRest_congr ?_
  have hunit : (new .utf16 (.ofBytes (Charset.byteOrderMark ++ bytes))).readUnit
      = .ok (some 0xFEFF) { inside .utf16 bytes with markChecked := false } := by
    simp [new, readUnit, readNewUnit, readByte, Charset.byteOrderMark, inside, Utf16.unit]
  exact readUtf16_of_first rfl hunit

/-- What was written is read behind the mark, if the charset has one. -/
theorem readRest_new_append {cs : Charset} {text : List Char}
    (hmarked : ¬(cs = .utf16 ∧ text = [])) (rest : Bytes) :
    (new cs (.ofBytes (cs.encode text ++ rest))).readRest
      = (inside cs (text.flatMap cs.charBytes ++ rest)).readRest := by
  rw [Charset.encode_eq, Charset.markOf]
  split
  · next hmark =>
    obtain ⟨rfl, -⟩ := hmark
    rw [List.append_assoc, readRest_new_mark]
  · next hmark =>
    have hcs : cs ≠ .utf16 := by
      rintro rfl
      exact hmark ⟨rfl, fun htext => hmarked ⟨rfl, htext⟩⟩
    rw [List.nil_append, new_eq_inside hcs]

/-- **A text of characters that are kept is read back.** -/
theorem readRest_new_encode {cs : Charset} {text : List Char} (h : ∀ c ∈ text, cs.Keeps c) :
    (new cs (.ofBytes (cs.encode text))).readRest = (text, .endOfData) := by
  by_cases hmarked : cs = .utf16 ∧ text = []
  · obtain ⟨rfl, rfl⟩ := hmarked
    exact Exhausted.readRest ⟨fun _ => rfl, rfl, rfl⟩
  · have hnew := readRest_new_append hmarked []
    rw [List.append_nil, readRest_inside_append h, (exhausted_inside_nil cs).readRest,
      List.append_nil] at hnew
    exact hnew

/-- NUL is a character of every charset, and its bytes are the terminator. -/
theorem keeps_nul (cs : Charset) : cs.Keeps '\x00' := by
  cases cs <;> decide +kernel

theorem charBytes_nul (cs : Charset) : cs.charBytes '\x00' = List.replicate cs.unitWidth 0 := by
  cases cs <;> decide

/-- **Behind a text that was written the terminator is read as NUL.** -/
theorem readRest_new_terminated {cs : Charset} {text : List Char} (h : ∀ c ∈ text, cs.Keeps c)
    (extra : Bytes) :
    ∃ junk, (new cs (.ofBytes (cs.encode text ++ List.replicate cs.unitWidth 0 ++ extra))).readRest.1
      = text ++ '\x00' :: junk := by
  by_cases hmarked : cs = .utf16 ∧ text = []
  · -- no mark was written, so it is looked for in the terminator
    obtain ⟨rfl, rfl⟩ := hmarked
    show ∃ junk, (new .utf16 (.ofBytes (0 :: 0 :: extra))).readRest.1 = _
    have hnul : (new .utf16 (.ofBytes (0 :: 0 :: extra))).readChar
        = .ok (some '\x00') (inside .utf16 extra) := by
      simp [readChar, readUtf16, new, readUnit, readNewUnit, readByte, settleOrder, inside,
        Utf16.unit, completeUnit, Utf16.isHigh, Utf16.isLow]
    rw [readRest_of_some hnul]
    exact ⟨_, rfl⟩
  · have hall : ∀ c ∈ ['\x00'], cs.Keeps c := by
      intro c hc
      rw [List.mem_singleton.mp hc]
      exact keeps_nul cs
    have hnul := readRest_inside_append hall extra
    rw [List.flatMap_singleton, charBytes_nul] at hnul
    rw [List.append_assoc, readRest_new_append hmarked, readRest_inside_append h, hnul]
    exact ⟨_, rfl⟩

end Clipboard.CharReader
