import Clipboard.Proofs.CharReader.Written

/-!
# The characters of any bytes

Whatever the bytes are, the characters read off them one by one are those of the text that the
charset gives for the whole of them (`readRest_new`), but for UTF-8. There the reader takes as many
bytes for a character as the leading byte says, even where they are ill-formed and a character begins
among them; `Utf8.decodeByLead` is the text that it reads.

`amid` is a reader that has settled the byte order of UTF-16. What it has still to read are the units
of its bytes behind the one it keeps.
-/

namespace Clipboard

namespace Utf8

/-- The text of the bytes if the leading byte alone says how many bytes are a character. -/
def decodeByLead : Bytes → List Char
  | [] => []
  | lead :: rest =>
    let others := (length? lead).getD 1 - 1
    (char? (lead :: rest.take others)).getD replacement :: decodeByLead (rest.drop others)
termination_by bytes => bytes.length
decreasing_by
  simp only [List.length_drop, List.length_cons]
  omega

@[simp] theorem decodeByLead_nil : decodeByLead [] = [] := by rw [decodeByLead]

theorem decodeByLead_cons (lead : UInt8) (rest : Bytes) :
    decodeByLead (lead :: rest)
      = (char? (lead :: rest.take ((length? lead).getD 1 - 1))).getD replacement
        :: decodeByLead (rest.drop ((length? lead).getD 1 - 1)) := by
  rw [decodeByLead]

end Utf8

/-- The text of the bytes if their characters are read one by one. -/
def Charset.decodeStepwise (cs : Charset) (bytes : Bytes) : List Char :=
  if cs = .utf8 then Utf8.decodeByLead bytes else cs.decode bytes

namespace CharReader

/-! ## UTF-8 -/

theorem readChar_inside_lead (lead : UInt8) (rest : Bytes) :
    (inside .utf8 (lead :: rest)).readChar
      = .ok (some ((Utf8.char? (lead :: rest.take ((Utf8.length? lead).getD 1 - 1))).getD
          Utf8.replacement))
        (inside .utf8 (rest.drop ((Utf8.length? lead).getD 1 - 1))) := by
  show (inside .utf8 (lead :: rest)).readUtf8 = _
  rw [readUtf8, readByte_inside_cons]
  cases hlength : Utf8.length? lead with
  | none => simp [hlength, Utf8.char?, Utf8.next]
  | some n => simp [hlength, inside]

theorem readRest_inside_utf8 (bytes : Bytes) :
    (inside .utf8 bytes).readRest = (Utf8.decodeByLead bytes, .endOfData) := by
  fun_induction Utf8.decodeByLead bytes with
  | case1 => exact (exhausted_inside_nil .utf8).readRest
  | case2 lead rest others ih => rw [readRest_of_some (readChar_inside_lead lead rest), ih]

/-! ## One byte for a character -/

theorem readRest_inside_single {cs : Charset} {byte : Char → UInt8} {char : UInt8 → Char}
    (h : cs.Single byte char) (bytes : Bytes) :
    (inside cs bytes).readRest = (cs.decode bytes, .endOfData) := by
  rw [h.decode_eq]
  induction bytes with
  | nil => exact (exhausted_inside_nil cs).readRest
  | cons b bytes ih =>
    have hread : (inside cs (b :: bytes)).readChar = .ok (some (char b)) (inside cs bytes) := by
      rw [readChar_of_single h rfl, readSingle, readByte_inside_cons]
      rfl
    rw [readRest_of_some hread, ih, List.map_cons]

/-! ## The UTF-16 family -/

/-- A reader that has settled the byte order. -/
def amid (cs : Charset) (order : Utf16.Order) (kept : Option Nat) (bytes : Bytes) : CharReader :=
  { charset := cs, order, markChecked := true, kept, source := .ofBytes bytes }

variable {order : Utf16.Order} {kept : Option Nat} {bytes : Bytes} {u : Nat} {us : List Nat}

theorem readUnit_amid_nil (cs : Charset) (h : kept.toList ++ Utf16.allUnits order bytes = []) :
    (amid cs order kept bytes).readUnit = .ok none (amid cs order none []) := by
  obtain ⟨hkept, hbytes⟩ := List.append_eq_nil_iff.mp h
  cases kept with
  | some v => cases hkept
  | none =>
    match bytes with
    | [] => rfl
    | [b] => cases hbytes
    | a :: b :: rest => cases hbytes

theorem readUnit_amid_cons (cs : Charset) (h : kept.toList ++ Utf16.allUnits order bytes = u :: us) :
    ∃ rest, (amid cs order kept bytes).readUnit = .ok (some u) (amid cs order none rest) ∧
      Utf16.allUnits order rest = us := by
  cases kept with
  | some v =>
    obtain ⟨rfl, hus⟩ := List.cons.inj h
    exact ⟨bytes, rfl, hus⟩
  | none =>
    match bytes, h with
    | [b], h =>
      obtain ⟨rfl, rfl⟩ := List.cons.inj h
      exact ⟨[], by simp [amid, readUnit, readNewUnit, readByte], rfl⟩
    | a :: b :: rest, h =>
      obtain ⟨rfl, hus⟩ := List.cons.inj h
      exact ⟨rest, by simp [amid, readUnit, readNewUnit, readByte], hus⟩

/-- The character that begins with a unit, in front of those of the units behind it. -/
theorem completeUnit_amid (cs : Charset) (order : Utf16.Order) (u : Nat) (bytes : Bytes) :
    ∃ c kept rest, (amid cs order none bytes).completeUnit u
        = .ok (some c) (amid cs order kept rest) ∧
      Utf16.decode (u :: Utf16.allUnits order bytes)
        = c :: Utf16.decode (kept.toList ++ Utf16.allUnits order rest) ∧
      (kept.toList ++ Utf16.allUnits order rest).length ≤ (Utf16.allUnits order bytes).length := by
  by_cases hhigh : Utf16.isHigh u = true
  · rw [completeUnit, if_pos hhigh]
    cases hus : Utf16.allUnits order bytes with
    | nil =>
      rw [readUnit_amid_nil cs (by simpa using hus)]
      exact ⟨_, none, [], rfl, Utf16.decode_cons_of_high_alone hhigh (by simp), by simp⟩
    | cons v us =>
      obtain ⟨rest, hread, hrest⟩ :=
        readUnit_amid_cons cs (show Option.toList none ++ Utf16.allUnits order bytes = v :: us from hus)
      rw [hread]
      by_cases hlow : Utf16.isLow v = true
      · refine ⟨_, none, rest, if_pos hlow, ?_, by simp [hrest]⟩
        rw [Utf16.decode_cons_of_pair hhigh hlow, ← hrest]
        rfl
      -- the unit that is no partner is kept
      · refine ⟨_, some v, rest, if_neg hlow, ?_, by simp [hrest]⟩
        rw [Utf16.decode_cons_of_high_alone hhigh (by rintro w ⟨⟩; simpa using hlow), ← hrest]
        rfl
  · rw [completeUnit, if_neg hhigh]
    by_cases hlow : Utf16.isLow u = true
    · exact ⟨_, none, bytes, if_pos hlow, Utf16.decode_cons_of_low hlow _, Nat.le_refl _⟩
    · exact ⟨_, none, bytes, if_neg hlow,
        Utf16.decode_cons_of_single (by simpa using hhigh) (by simpa using hlow) _, Nat.le_refl _⟩

theorem readRest_amid {cs : Charset} (hwide : cs.isWide = true) (kept : Option Nat) (bytes : Bytes) :
    (amid cs order kept bytes).readRest
      = (Utf16.decode (kept.toList ++ Utf16.allUnits order bytes), .endOfData) := by
  induction hn : (kept.toList ++ Utf16.allUnits order bytes).length using Nat.strongRecOn
    generalizing kept bytes with
  | _ n ih =>
    have hchar : (amid cs order kept bytes).readChar = (amid cs order kept bytes).readUtf16 :=
      readChar_of_isWide hwide
    cases hus : kept.toList ++ Utf16.allUnits order bytes with
    | nil =>
      have hread : (amid cs order kept bytes).readChar = .ok none (amid cs order none []) := by
        rw [hchar, readUtf16, readUnit_amid_nil cs hus]
      rw [readRest_of_end hread, Utf16.decode]
    | cons u us =>
      obtain ⟨rest, hread, hrest⟩ := readUnit_amid_cons cs hus
      obtain ⟨c, kept', rest', hcomplete, hdecode, hlength⟩ :=
        completeUnit_amid cs order u rest
      have hread' : (amid cs order kept bytes).readChar = .ok (some c) (amid cs order kept' rest') := by
        rw [hchar, readUtf16, hread]
        exact hcomplete
      have hlt : (kept'.toList ++ Utf16.allUnits order rest').length < n := by
        rw [← hn, hus, List.length_cons, ← hrest]
        omega
      rw [readRest_of_some hread', ih _ hlt kept' rest' rfl, ← hrest, hdecode]

theorem readRest_new_utf16 (bytes : Bytes) :
    (new .utf16 (.ofBytes bytes)).readRest = (Charset.utf16.decode bytes, .endOfData) := by
  have hwide : Charset.utf16.isWide = true := rfl
  have hfirst {u : Nat} {r : CharReader} (hcharset : (r.settleOrder u).charset = .utf16)
      (hmark : r.markChecked = false)
      (h : (new .utf16 (.ofBytes bytes)).readUnit = .ok (some u) r) :
      (new .utf16 (.ofBytes bytes)).readRest = (r.settleOrder u).readRest := by
    have hread : (r.settleOrder u).readChar = (r.settleOrder u).readUtf16 :=
      readChar_of_isWide (by rw [hcharset]; rfl)
    exact readRest_congr ((readUtf16_of_first hmark h).trans hread.symm)
  match bytes with
  | [] => exact Exhausted.readRest ⟨fun _ => rfl, rfl, rfl⟩
  | [b] =>
    -- half a unit is no mark
    have hunit : (new .utf16 (.ofBytes [b])).readUnit
        = .ok (some 0xFFFD) { amid .utf16 .big none [] with markChecked := false } := by
      simp [new, readUnit, readNewUnit, readByte, amid]
    rw [hfirst rfl rfl hunit, Charset.decode, Charset.splitMark_singleton, Utf16.decodeBytes_eq_decode]
    exact readRest_amid hwide (some 0xFFFD) []
  | a :: b :: rest =>
    have hunit : (new .utf16 (.ofBytes (a :: b :: rest))).readUnit
        = .ok (some (Utf16.unit .big a b)) { amid .utf16 .big none rest with markChecked := false } := by
      simp [new, readUnit, readNewUnit, readByte, amid]
    have hsettled : (({ amid .utf16 .big none rest with markChecked := false } : CharReader).settleOrder
        (Utf16.unit .big a b)).readRest = (Charset.utf16.decode (a :: b :: rest), .endOfData) := by
      rw [Charset.decode, Charset.splitMark_cons_cons, settleOrder]
      split
      · rw [Utf16.decodeBytes_eq_decode]
        exact readRest_amid hwide none rest
      · split
        · rw [Utf16.decodeBytes_eq_decode]
          exact readRest_amid hwide none rest
        · rw [Utf16.decodeBytes_eq_decode]
          exact readRest_amid hwide (some (Utf16.unit .big a b)) rest
    rw [← hsettled]
    refine hfirst ?_ rfl hunit
    rw [settleOrder]
    split
    · rfl
    · split <;> rfl

/-! ## Any charset -/

/-- **The characters of any bytes.** -/
theorem readRest_new (cs : Charset) (bytes : Bytes) :
    (new cs (.ofBytes bytes)).readRest = (cs.decodeStepwise bytes, .endOfData) := by
  rw [Charset.decodeStepwise]
  by_cases hcs : cs = .utf16
  · subst hcs
    exact readRest_new_utf16 bytes
  · rw [new_eq_inside hcs]
    rcases cs.kinds with rfl | ⟨byte, char, hsingle⟩ | ⟨hwide, order, horder⟩
    · exact readRest_inside_utf8 bytes
    · have hutf8 : cs ≠ .utf8 := hsingle.ne_utf8
      rw [if_neg hutf8, readRest_inside_single hsingle]
    · have hutf8 : cs ≠ .utf8 := by
        rintro rfl
        cases hwide
      have hamid : inside cs bytes = amid cs order none bytes := by
        simp [inside, amid, horder.order_eq]
      rw [if_neg hutf8, hamid, readRest_amid hwide, horder.decode_eq bytes hcs,
        Utf16.decodeBytes_eq_decode]
      rfl

end CharReader

end Clipboard
