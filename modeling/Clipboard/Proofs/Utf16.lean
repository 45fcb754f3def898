import Clipboard.Proofs.Utf8
import Clipboard.Utf16

/-!
# UTF-16 there and back

`Spells c units` lists the two ways in which a character is written: as itself, or as a high and a
low surrogate. A text that was written is read again, whatever follows it, from its units
(`decode_encode_append`) and from their bytes in either order (`decodeBytes_charBytes_append`).

Units that nobody wrote are read apart wherever no pair is cut (`decode_append`), and NUL only of the
unit zero (`nul_not_mem_decode`).
-/

namespace Clipboard.Utf16

/-- The units of a character. -/
inductive Spells (c : Char) : List Nat → Prop where
  /-- A character below U+10000, which is no surrogate, is its own unit. -/
  | single (lt : c.toNat < 0x10000) (notHigh : isHigh c.toNat = false)
      (notLow : isLow c.toNat = false) : Spells c [c.toNat]
  /-- Any other character is a pair. -/
  | pair {u v : Nat} (high : isHigh u = true) (low : isLow v = true) (joins : join u v = c) :
      Spells c [u, v]

theorem lt_of_isHigh {u : Nat} (h : isHigh u = true) : 0xD800 ≤ u ∧ u < 0x10000 := by
  simp only [isHigh, Bool.and_eq_true, decide_eq_true_eq] at h
  omega

theorem lt_of_isLow {u : Nat} (h : isLow u = true) : 0xDC00 ≤ u ∧ u < 0x10000 := by
  simp only [isLow, Bool.and_eq_true, decide_eq_true_eq] at h
  omega

theorem spells_encodeChar (c : Char) : Spells c (encodeChar c) := by
  have hvalid := Utf8.toNat_valid c
  simp only [encodeChar]
  split
  · next hlt =>
    refine .single hlt ?_ ?_
    · simp only [isHigh, Bool.and_eq_false_iff, decide_eq_false_iff_not]
      omega
    · simp only [isLow, Bool.and_eq_false_iff, decide_eq_false_iff_not]
      omega
  · next hge =>
    refine .pair ?_ ?_ ?_
    · simp only [isHigh, Bool.and_eq_true, decide_eq_true_eq]
      omega
    · simp only [isLow, Bool.and_eq_true, decide_eq_true_eq]
      omega
    · rw [join, show 0x10000 + (0xD800 + (c.toNat - 0x10000) / 0x400 - 0xD800) * 0x400
        + (0xDC00 + (c.toNat - 0x10000) % 0x400 - 0xDC00) = c.toNat by omega, Char.ofNat_toNat]

/-- Every unit is one, and only NUL has a unit that is zero. -/
theorem unit_bounds {c : Char} {u : Nat} (hu : u ∈ encodeChar c) :
    u < 0x10000 ∧ (c ≠ '\x00' → u ≠ 0) := by
  have hspells := spells_encodeChar c
  generalize encodeChar c = units at hu hspells
  cases hspells with
  | single hlt hhigh hlow =>
    simp only [List.mem_cons, List.not_mem_nil, or_false] at hu
    subst hu
    refine ⟨hlt, fun hc h0 => hc ?_⟩
    rw [← Char.ofNat_toNat c, h0]
  | pair hhigh hlow hjoin =>
    have h₁ := lt_of_isHigh hhigh
    have h₂ := lt_of_isLow hlow
    simp only [List.mem_cons, List.not_mem_nil, or_false] at hu
    rcases hu with rfl | rfl
    · exact ⟨h₁.2, fun _ => by omega⟩
    · exact ⟨h₂.2, fun _ => by omega⟩

/-! ## Units -/

theorem decode_cons_of_single {u : Nat} (hhigh : isHigh u = false) (hlow : isLow u = false)
    (us : List Nat) : decode (u :: us) = Char.ofNat u :: decode us := by
  cases us with
  | nil => simp [decode, hhigh, hlow]
  | cons v us => rw [decode, if_neg (by simp [hhigh]), if_neg (by simp [hlow])]

theorem decode_cons_of_pair {u v : Nat} (hhigh : isHigh u = true) (hlow : isLow v = true)
    (us : List Nat) : decode (u :: v :: us) = join u v :: decode us := by
  rw [decode, if_pos hhigh, if_pos hlow]

theorem decode_encodeChar_append (c : Char) (us : List Nat) :
    decode (encodeChar c ++ us) = c :: decode us := by
  have hspells := spells_encodeChar c
  generalize encodeChar c = units at hspells
  cases hspells with
  | single hlt hhigh hlow =>
    rw [List.singleton_append, decode_cons_of_single hhigh hlow, Char.ofNat_toNat]
  | pair hhigh hlow hjoin =>
    rw [List.cons_append, List.singleton_append, decode_cons_of_pair hhigh hlow, hjoin]

/-- A text that was written is read. -/
theorem decode_encode (cs : List Char) : decode (encode cs) = cs := by
  induction cs with
  | nil => rfl
  | cons c cs ih =>
    rw [encode, List.flatMap_cons, decode_encodeChar_append, ← encode, ih]

/-! ## Bytes -/

/-- Two bytes are written for a unit, and they are read as it. -/
theorem exists_unitBytes (order : Order) {u : Nat} (h : u < 0x10000) :
    ∃ a b, unitBytes order u = [a, b] ∧ unit order a b = u := by
  have hhigh := Utf8.toNat_ofNat (show u / 0x100 < 256 by omega)
  have hlow := Utf8.toNat_ofNat (show u % 0x100 < 256 by omega)
  cases order with
  | big => exact ⟨_, _, rfl, by simp only [unit, hhigh, hlow]; omega⟩
  | little => exact ⟨_, _, rfl, by simp only [unit, hhigh, hlow]; omega⟩

theorem unitsOf_unitBytes_append (order : Order) {u : Nat} (h : u < 0x10000) (rest : Bytes) :
    unitsOf order (unitBytes order u ++ rest)
      = (u :: (unitsOf order rest).1, (unitsOf order rest).2) := by
  obtain ⟨a, b, hbytes, hunit⟩ := exists_unitBytes order h
  rw [hbytes, List.cons_append, List.singleton_append, unitsOf, hunit]

theorem unitsOf_flatMap_append (order : Order) {us : List Nat} (h : ∀ u ∈ us, u < 0x10000)
    (rest : Bytes) :
    unitsOf order (us.flatMap (unitBytes order) ++ rest)
      = (us ++ (unitsOf order rest).1, (unitsOf order rest).2) := by
  induction us with
  | nil => rfl
  | cons u us ih =>
    rw [List.flatMap_cons, List.append_assoc,
      unitsOf_unitBytes_append order (h u List.mem_cons_self),
      ih (fun v hv => h v (List.mem_cons_of_mem _ hv)), List.cons_append]

theorem decodeBytes_charBytes_append (order : Order) (c : Char) (rest : Bytes) :
    decodeBytes order (charBytes order c ++ rest) = c :: decodeBytes order rest := by
  have hunits := unitsOf_flatMap_append order (fun u hu => (unit_bounds (c := c) hu).1) rest
  rw [decodeBytes, charBytes, hunits, decode_encodeChar_append]
  rfl

/-- A text that was written is read, and then what follows it. -/
theorem decodeBytes_flatMap_append (order : Order) (cs : List Char) (rest : Bytes) :
    decodeBytes order (cs.flatMap (charBytes order) ++ rest) = cs ++ decodeBytes order rest := by
  induction cs with
  | nil => rfl
  | cons c cs ih =>
    rw [List.flatMap_cons, List.append_assoc, decodeBytes_charBytes_append, ih, List.cons_append]

@[simp] theorem decodeBytes_nil (order : Order) : decodeBytes order [] = [] := by
  simp [decodeBytes, unitsOf, decode]

theorem lt_of_mem_unitsOf {order : Order} {bytes : Bytes} {u : Nat}
    (h : u ∈ (unitsOf order bytes).1) : u < 0x10000 := by
  fun_induction unitsOf order bytes with
  | case1 => cases h
  | case2 => cases h
  | case3 a b rest ih =>
    rcases List.mem_cons.mp h with rfl | h
    · exact unit_lt order a b
    · exact ih h

/-! ## Units that nobody wrote -/

/-- Every unit is read as a character or as part of one. -/
theorem decode_ne_nil {us : List Nat} (h : us ≠ []) : decode us ≠ [] := by
  fun_cases decode us with
  | case1 => exact absurd rfl h
  | _ => exact List.cons_ne_nil _ _

theorem decode_cons_of_low {u : Nat} (hlow : isLow u = true) (us : List Nat) :
    decode (u :: us) = '\ufffd' :: decode us := by
  have hhigh : isHigh u = false := by
    have := lt_of_isLow hlow
    simp only [isHigh, Bool.and_eq_false_iff, decide_eq_false_iff_not]
    omega
  cases us with
  | nil => simp [decode, hlow]
  | cons v us => rw [decode, if_neg (by simp [hhigh]), if_pos hlow]

/-- A high surrogate without its partner. -/
theorem decode_cons_of_high_alone {u : Nat} (hhigh : isHigh u = true) {us : List Nat}
    (hnext : ∀ v ∈ us.head?, isLow v = false) : decode (u :: us) = '\ufffd' :: decode us := by
  cases us with
  | nil => simp [decode, hhigh]
  | cons v us => rw [decode, if_pos hhigh, if_neg (by simp [hnext v rfl])]

/-- Units are read apart where no pair is cut. -/
theorem decode_append {us vs : List Nat} (h : ∀ v ∈ vs.head?, isLow v = false) :
    decode (us ++ vs) = decode us ++ decode vs := by
  fun_induction decode us with
  | case1 => rfl
  | case2 u =>
    rw [List.singleton_append]
    by_cases hhigh : isHigh u = true
    · rw [decode_cons_of_high_alone hhigh h, hhigh]
      rfl
    · by_cases hlow : isLow u = true
      · rw [decode_cons_of_low hlow, hlow]
        simp
      · rw [decode_cons_of_single (by simpa using hhigh) (by simpa using hlow)]
        simp [hhigh, hlow]
  | case3 u v rest hhigh hlow ih =>
    rw [List.cons_append, List.cons_append, decode_cons_of_pair hhigh hlow, ih, List.cons_append]
  | case4 u v rest hhigh hlow ih =>
    rw [List.cons_append, List.cons_append,
      decode_cons_of_high_alone hhigh (by rintro w ⟨⟩; simpa using hlow), ← List.cons_append, ih,
      List.cons_append]
  | case5 u v rest hhigh hlow ih =>
    rw [List.cons_append, List.cons_append, decode_cons_of_low hlow, ← List.cons_append, ih,
      List.cons_append]
  | case6 u v rest hhigh hlow ih =>
    rw [List.cons_append, List.cons_append,
      decode_cons_of_single (by simpa using hhigh) (by simpa using hlow), ← List.cons_append, ih,
      List.cons_append]

/-- Only zero is the number of NUL. -/
theorem ofNat_ne_nul {n : Nat} (hvalid : n.isValidChar) (h0 : n ≠ 0) : Char.ofNat n ≠ '\x00' := by
  intro hnul
  have hnat : (Char.ofNat n).toNat = n := Utf8.toNat_char_ofNat hvalid
  rw [hnul] at hnat
  exact h0 hnat.symm

theorem isValidChar_of_single {u : Nat} (hlt : u < 0x10000) (hhigh : isHigh u = false)
    (hlow : isLow u = false) : u.isValidChar := by
  simp only [isHigh, isLow, Bool.and_eq_false_iff, decide_eq_false_iff_not] at hhigh hlow
  simp only [Nat.isValidChar]
  omega

theorem join_ne_nul {u v : Nat} (hhigh : isHigh u = true) (hlow : isLow v = true) :
    join u v ≠ '\x00' := by
  simp only [isHigh, isLow, Bool.and_eq_true, decide_eq_true_eq] at hhigh hlow
  refine ofNat_ne_nul ?_ (by omega)
  simp only [Nat.isValidChar]
  omega

/-- NUL is read of no unit but zero. -/
theorem nul_not_mem_decode {us : List Nat} (h : ∀ u ∈ us, u < 0x10000 ∧ u ≠ 0) :
    '\x00' ∉ decode us := by
  have hreplacement : '\x00' ≠ '\ufffd' := by decide
  fun_induction decode us with
  | case1 => simp
  | case2 u =>
    obtain ⟨hlt, h0⟩ := h u List.mem_cons_self
    rw [List.mem_singleton]
    split
    · exact hreplacement
    · next hsingle =>
      simp only [Bool.or_eq_true, not_or, Bool.not_eq_true] at hsingle
      exact (ofNat_ne_nul (isValidChar_of_single hlt hsingle.1 hsingle.2) h0).symm
  | case3 u v rest hhigh hlow ih =>
    have hrest := ih (fun x hx => h x (List.mem_cons_of_mem _ (List.mem_cons_of_mem _ hx)))
    simp [hrest, (join_ne_nul hhigh hlow).symm]
  | case4 u v rest hhigh hlow ih | case5 u v rest hhigh hlow ih =>
    have hrest := ih (fun x hx => h x (List.mem_cons_of_mem _ hx))
    simp [hrest, hreplacement]
  | case6 u v rest hhigh hlow ih =>
    obtain ⟨hlt, h0⟩ := h u List.mem_cons_self
    have hrest := ih (fun x hx => h x (List.mem_cons_of_mem _ hx))
    have hvalid := isValidChar_of_single hlt (by simpa using hhigh) (by simpa using hlow)
    simp [hrest, (ofNat_ne_nul hvalid h0).symm]

/-! ## Half a unit -/

/-- The units of the bytes, half a unit at the end counting as U+FFFD. -/
def allUnits (order : Order) (bytes : Bytes) : List Nat :=
  (unitsOf order bytes).1 ++ (if (unitsOf order bytes).2 then [0xFFFD] else [])

@[simp] theorem allUnits_nil (order : Order) : allUnits order [] = [] := rfl

@[simp] theorem allUnits_singleton (order : Order) (b : UInt8) : allUnits order [b] = [0xFFFD] := rfl

@[simp] theorem allUnits_cons_cons (order : Order) (a b : UInt8) (rest : Bytes) :
    allUnits order (a :: b :: rest) = unit order a b :: allUnits order rest := rfl

/-- The text of the bytes is the text of all their units. -/
theorem decodeBytes_eq_decode (order : Order) (bytes : Bytes) :
    decodeBytes order bytes = decode (allUnits order bytes) := by
  rw [decodeBytes, allUnits]
  split
  · rw [decode_append (by rintro v ⟨⟩; decide)]
    rfl
  · rw [List.append_nil, List.append_nil]

end Clipboard.Utf16
