import Clipboard.Proofs.CharReader.AnyBytes

/-!
# Ill-formed UTF-8

Any bytes begin with a character, with a byte that begins none, or with a character that breaks off
(`front_cases`). `decodeLossy` and `decodeByLead` agree on the first two. Where a character breaks
off, both read U+FFFD, but then `decodeLossy` goes on with the byte at which it broke off
(`decodeLossy_of_begins`), and `decodeByLead` behind as many bytes as the character lacks
(`decodeByLead_of_begins`).

They give the same text therefore if a character breaks off at the end of the bytes only
(`decodeByLead_of_unbroken`).

`Begins` and `Breaks` speak of the bytes that characters are written in. `continues` is the test that
`next` makes of them.
-/

namespace Clipboard.Utf8

/-! ## Bytes behind a leading byte -/

/-- The bytes may follow a leading byte, as far as they go. -/
def continues (lead : UInt8) : Bytes → Bool
  | [] => true
  | second :: others => isSecond lead second && others.all isTail

variable {lead b c d : UInt8} {start others rest : Bytes} {n : Nat}

theorem length?_cases (h : length? lead = some n) :
    (n = 1 ∧ lead.toNat < 0x80) ∨ (n = 2 ∧ 0xC2 ≤ lead.toNat ∧ lead.toNat < 0xE0) ∨
      (n = 3 ∧ 0xE0 ≤ lead.toNat ∧ lead.toNat < 0xF0) ∨
      (n = 4 ∧ 0xF0 ≤ lead.toNat ∧ lead.toNat < 0xF5) := by
  dsimp only [length?] at h
  repeat' split at h
  all_goals
    simp at h
    try omega

theorem isTail_iff : isTail b = true ↔ 0x80 ≤ b.toNat ∧ b.toNat ≤ 0xBF := by
  simp only [isTail, Bool.and_eq_true, decide_eq_true_eq]

theorem isSecond_iff : isSecond lead b = true ↔ isTail b = true ∧
    (lead.toNat = 0xE0 → 0xA0 ≤ b.toNat) ∧ (lead.toNat = 0xED → b.toNat ≤ 0x9F) ∧
      (lead.toNat = 0xF0 → 0x90 ≤ b.toNat) ∧ (lead.toNat = 0xF4 → b.toNat ≤ 0x8F) := by
  rw [isTail_iff, isSecond]
  repeat' split
  all_goals
    simp only [Bool.and_eq_true, decide_eq_true_eq, isTail_iff]
    omega

theorem isSecond_eq_isTail (hlead : lead.toNat < 0xE0) (b : UInt8) : isSecond lead b = isTail b := by
  unfold isSecond
  rw [if_neg (by omega), if_neg (by omega), if_neg (by omega), if_neg (by omega)]

/-! ## Characters from their bytes -/

theorem ofNat_eq_of_toNat (h : n = b.toNat) : UInt8.ofNat n = b := by
  rw [h, UInt8.ofNat_toNat]

theorem exists_encodeChar_one (hlead : lead.toNat < 0x80) : ∃ x, encodeChar x = [lead] := by
  refine ⟨Char.ofNat lead.toNat, ?_⟩
  have hvalid : lead.toNat.isValidChar := Or.inl (by omega)
  simp only [encodeChar, toNat_char_ofNat hvalid]
  rw [if_pos hlead, UInt8.ofNat_toNat]

theorem exists_encodeChar_two (hlead : 0xC2 ≤ lead.toNat ∧ lead.toNat < 0xE0)
    (hb : isTail b = true) : ∃ x, encodeChar x = [lead, b] := by
  rw [isTail_iff] at hb
  refine ⟨Char.ofNat ((lead.toNat - 0xC0) * 0x40 + (b.toNat - 0x80)), ?_⟩
  have hvalid : ((lead.toNat - 0xC0) * 0x40 + (b.toNat - 0x80)).isValidChar := Or.inl (by omega)
  simp only [encodeChar, toNat_char_ofNat hvalid]
  rw [if_neg (by omega), if_pos (by omega), ofNat_eq_of_toNat (b := lead) (by omega),
    ofNat_eq_of_toNat (b := b) (by omega)]

theorem exists_encodeChar_three (hlead : 0xE0 ≤ lead.toNat ∧ lead.toNat < 0xF0)
    (hb : isSecond lead b = true) (hc : isTail c = true) : ∃ x, encodeChar x = [lead, b, c] := by
  rw [isSecond_iff, isTail_iff] at hb
  rw [isTail_iff] at hc
  generalize hv : (lead.toNat - 0xE0) * 0x1000 + (b.toNat - 0x80) * 0x40 + (c.toNat - 0x80) = v
  have hvalid : v.isValidChar := by
    unfold Nat.isValidChar
    omega
  refine ⟨Char.ofNat v, ?_⟩
  simp only [encodeChar, toNat_char_ofNat hvalid]
  rw [if_neg (by omega), if_neg (by omega), if_pos (by omega),
    ofNat_eq_of_toNat (b := lead) (by omega), ofNat_eq_of_toNat (b := b) (by omega),
    ofNat_eq_of_toNat (b := c) (by omega)]

theorem exists_encodeChar_four (hlead : 0xF0 ≤ lead.toNat ∧ lead.toNat < 0xF5)
    (hb : isSecond lead b = true) (hc : isTail c = true) (hd : isTail d = true) :
    ∃ x, encodeChar x = [lead, b, c, d] := by
  rw [isSecond_iff, isTail_iff] at hb
  rw [isTail_iff] at hc hd
  generalize hv : (lead.toNat - 0xF0) * 0x40000 + (b.toNat - 0x80) * 0x1000
    + (c.toNat - 0x80) * 0x40 + (d.toNat - 0x80) = v
  have hvalid : v.isValidChar := by
    unfold Nat.isValidChar
    omega
  refine ⟨Char.ofNat v, ?_⟩
  simp only [encodeChar, toNat_char_ofNat hvalid]
  rw [if_neg (by omega), if_neg (by omega), if_neg (by omega),
    ofNat_eq_of_toNat (b := lead) (by omega), ofNat_eq_of_toNat (b := b) (by omega),
    ofNat_eq_of_toNat (b := c) (by omega), ofNat_eq_of_toNat (b := d) (by omega)]

/-- A leading byte and as many bytes as it announces, if they may follow it, are a character. -/
theorem exists_encodeChar (hlead : length? lead = some (others.length + 1))
    (h : continues lead others = true) : ∃ x, encodeChar x = lead :: others := by
  have hrange := length?_cases hlead
  match others with
  | [] => exact exists_encodeChar_one (by simp at hrange; omega)
  | [b] =>
    have hb : isSecond lead b = true := by simpa [continues] using h
    exact exists_encodeChar_two (by simp at hrange; omega) (isSecond_iff.mp hb).1
  | [b, c] =>
    obtain ⟨hb, hc⟩ : isSecond lead b = true ∧ isTail c = true := by simpa [continues] using h
    exact exists_encodeChar_three (by simp at hrange; omega) hb hc
  | [b, c, d] =>
    obtain ⟨hb, hc, hd⟩ : isSecond lead b = true ∧ isTail c = true ∧ isTail d = true := by
      simpa [continues] using h
    exact exists_encodeChar_four (by simp at hrange; omega) hb hc hd
  | b :: c :: d :: e :: more => simp at hrange

/-! ## Where reading stops -/

theorem next2_of_stop (hrest : ∀ b ∈ rest.head?, isTail b = false) :
    next2 lead rest = (none, rest) := by
  match rest with
  | [] => rfl
  | b :: rest => simpa [next2] using hrest

theorem next3_of_stop (hrest : ∀ b ∈ rest.head?, isSecond lead b = false) :
    next3 lead rest = (none, rest) := by
  match rest with
  | [] => rfl
  | [b] => simpa [next3] using hrest
  | b :: c :: rest =>
    have hb : isSecond lead b = false := by simpa using hrest
    simp [next3, hb]

theorem next3_of_stop_after (hb : isSecond lead b = true)
    (hrest : ∀ c ∈ rest.head?, isTail c = false) : next3 lead (b :: rest) = (none, rest) := by
  match rest with
  | [] => simp [next3, hb]
  | c :: rest =>
    have hc : isTail c = false := by simpa using hrest
    simp [next3, hb, hc]

theorem next4_of_stop (hrest : ∀ b ∈ rest.head?, isSecond lead b = false) :
    next4 lead rest = (none, rest) := by
  match rest with
  | [] => rfl
  | [b] => simpa [next4] using hrest
  | [b, c] | b :: c :: d :: rest =>
    have hb : isSecond lead b = false := by simpa using hrest
    simp [next4, hb]

theorem next4_of_stop_after (hb : isSecond lead b = true)
    (hrest : ∀ c ∈ rest.head?, isTail c = false) : next4 lead (b :: rest) = (none, rest) := by
  match rest with
  | [] => simp [next4, hb]
  | [c] | c :: d :: rest =>
    have hc : isTail c = false := by simpa using hrest
    simp [next4, hb, hc]

theorem next4_of_stop_after_two (hb : isSecond lead b = true) (hc : isTail c = true)
    (hrest : ∀ d ∈ rest.head?, isTail d = false) : next4 lead (b :: c :: rest) = (none, rest) := by
  match rest with
  | [] => simp [next4, hb, hc]
  | d :: rest =>
    have hd : isTail d = false := by simpa using hrest
    simp [next4, hb, hc, hd]

/-- Up to a byte that may not follow, or to the end of the bytes, there is no character. -/
theorem next_of_continues (hlead : length? lead = some n) (hshort : start.length + 1 < n)
    (h : continues lead start = true)
    (hrest : ∀ b ∈ rest.head?, continues lead (start ++ [b]) = false) :
    next lead (start ++ rest) = (none, rest) := by
  rcases length?_cases hlead with ⟨rfl, -⟩ | ⟨rfl, -, hlow⟩ | ⟨rfl, -⟩ | ⟨rfl, -⟩
  · omega
  · obtain rfl : start = [] := List.eq_nil_of_length_eq_zero (by omega)
    rw [next, hlead]
    exact next2_of_stop (by simpa [continues, isSecond_eq_isTail hlow] using hrest)
  · rw [next, hlead]
    match start with
    | [] => exact next3_of_stop (by simpa [continues] using hrest)
    | [a] =>
      have ha : isSecond lead a = true := by simpa [continues] using h
      exact next3_of_stop_after ha (by simpa [continues, ha] using hrest)
    | a :: b :: start =>
      simp only [List.length_cons] at hshort
      omega
  · rw [next, hlead]
    match start with
    | [] => exact next4_of_stop (by simpa [continues] using hrest)
    | [a] =>
      have ha : isSecond lead a = true := by simpa [continues] using h
      exact next4_of_stop_after ha (by simpa [continues, ha] using hrest)
    | [a, b] =>
      obtain ⟨ha, hb⟩ : isSecond lead a = true ∧ isTail b = true := by simpa [continues] using h
      exact next4_of_stop_after_two ha hb (by simpa [continues, ha, hb] using hrest)
    | a :: b :: c :: start =>
      simp only [List.length_cons] at hshort
      omega

/-- The bytes that may follow a leading byte: as many as are looked for, or up to one that may not
follow, or all. -/
theorem exists_continues (lead : UInt8) (k : Nat) (rest : Bytes) :
    ∃ start after, rest = start ++ after ∧ continues lead start = true ∧
      (start.length = k ∨
        start.length < k ∧ ∀ b ∈ after.head?, continues lead (start ++ [b]) = false) := by
  -- on how many are looked for: the next byte is one more of them, or the first that may not follow
  induction k with
  | zero => exact ⟨[], rest, rfl, rfl, Or.inl rfl⟩
  | succ k ih =>
    obtain ⟨start, after, rfl, h, hlength | ⟨hlength, hstop⟩⟩ := ih
    · match after with
      | [] => exact ⟨start, [], rfl, h, Or.inr ⟨by omega, by simp⟩⟩
      | b :: after =>
        cases hb : continues lead (start ++ [b]) with
        | true => exact ⟨start ++ [b], after, by simp, hb, Or.inl (by simp [hlength])⟩
        | false => exact ⟨start, b :: after, rfl, h, Or.inr ⟨by omega, by simpa using hb⟩⟩
    · exact ⟨start, after, rfl, h, Or.inr ⟨by omega, hstop⟩⟩

theorem length?_of_encodeChar {x : Char} (h : encodeChar x = lead :: others) :
    length? lead = some (others.length + 1) ∧ ∀ rest, next lead (others ++ rest) = (some x, rest) := by
  obtain ⟨lead', others', hbytes, hlength, hnext⟩ := exists_writes x
  rw [h] at hbytes
  obtain ⟨rfl, rfl⟩ := List.cons.inj hbytes
  exact ⟨hlength, hnext⟩

theorem continues_of_encodeChar {x : Char} (h : encodeChar x = lead :: others) :
    continues lead others = true := by
  obtain ⟨hlength, hnext⟩ := length?_of_encodeChar h
  obtain ⟨start, after, rfl, hstart, hall | ⟨hshort, hstop⟩⟩ :=
    exists_continues lead others.length others
  · rw [List.length_append] at hall
    obtain rfl : after = [] := List.eq_nil_of_length_eq_zero (by omega)
    rwa [List.append_nil]
  · have hnone := next_of_continues hlength (by omega) hstart hstop
    have hsome := hnext []
    rw [List.append_nil, hnone] at hsome
    cases hsome

theorem continues_append (h : continues lead (start ++ rest) = true) :
    continues lead start = true := by
  cases start with
  | nil => rfl
  | cons a start =>
    simp only [continues, List.cons_append, List.all_append, Bool.and_eq_true] at h ⊢
    exact ⟨h.1, h.2.1⟩

theorem exists_isSecond (lead : UInt8) : ∃ b, isSecond lead b = true := by
  by_cases hE0 : lead.toNat = 0xE0
  · exact ⟨0xA0, by simp [isSecond, hE0]⟩
  · by_cases hF0 : lead.toNat = 0xF0
    · exact ⟨0x90, by simp [isSecond, hF0]⟩
    · refine ⟨0x80, isSecond_iff.mpr ⟨by decide, ?_⟩⟩
      simp [hE0, hF0]

/-- Bytes that may follow can be made more. -/
theorem exists_continues_append (h : continues lead start = true) (k : Nat) :
    ∃ more, more.length = k ∧ continues lead (start ++ more) = true := by
  induction k with
  | zero => exact ⟨[], rfl, by rwa [List.append_nil]⟩
  | succ k ih =>
    obtain ⟨more, hlength, hmore⟩ := ih
    have hnext : ∃ b, continues lead ((start ++ more) ++ [b]) = true := by
      cases hnil : start ++ more with
      | nil =>
        obtain ⟨b, hb⟩ := exists_isSecond lead
        exact ⟨b, by simpa [continues] using hb⟩
      | cons a others =>
        rw [hnil] at hmore
        refine ⟨0x80, ?_⟩
        simp only [continues, List.cons_append, List.all_append, Bool.and_eq_true] at hmore ⊢
        exact ⟨hmore.1, hmore.2, by decide⟩
    obtain ⟨b, hb⟩ := hnext
    exact ⟨more ++ [b], by simp [hlength], by rwa [← List.append_assoc]⟩

/-- Bytes that may follow are those that a character begins with. -/
theorem exists_encodeChar_append (hlead : length? lead = some n) (hlength : start.length < n)
    (h : continues lead start = true) :
    ∃ x more, more.length + (start.length + 1) = n ∧ encodeChar x = lead :: start ++ more := by
  obtain ⟨more, hmore, hall⟩ := exists_continues_append h (n - 1 - start.length)
  have hn : n = (start ++ more).length + 1 := by
    rw [List.length_append]
    omega
  obtain ⟨x, hx⟩ := exists_encodeChar (hn ▸ hlead) hall
  exact ⟨x, more, by omega, hx⟩

/-! ## How bytes begin -/

/-- The first bytes of a character, but not all of them. -/
def Begins (start : Bytes) : Prop :=
  start ≠ [] ∧ ∃ x more, more ≠ [] ∧ encodeChar x = start ++ more

/-- A character begins and breaks off: no character that begins so has this byte next. -/
structure Breaks (start : Bytes) (b : UInt8) : Prop where
  begins : Begins start
  stops : ∀ x, ¬start ++ [b] <+: encodeChar x

/-- How many more bytes the leading byte announces. -/
def missing : Bytes → Nat
  | [] => 0
  | lead :: others => (length? lead).getD 1 - 1 - others.length

theorem begins_cons_iff : Begins (lead :: start) ↔
    ∃ n, length? lead = some n ∧ start.length + 1 < n ∧ continues lead start = true := by
  constructor
  · rintro ⟨-, x, more, hmore, hx⟩
    rw [List.cons_append] at hx
    obtain ⟨hlead, -⟩ := length?_of_encodeChar hx
    have hpos : 0 < more.length := List.length_pos_iff.mpr hmore
    refine ⟨_, hlead, ?_, continues_append (continues_of_encodeChar hx)⟩
    rw [List.length_append]
    omega
  · rintro ⟨n, hlead, hshort, h⟩
    obtain ⟨x, more, hmore, hx⟩ := exists_encodeChar_append hlead (by omega) h
    refine ⟨by simp, x, more, ?_, hx⟩
    rintro rfl
    simp only [List.length_nil] at hmore
    omega

theorem breaks_cons_iff : Breaks (lead :: start) b ↔
    Begins (lead :: start) ∧ continues lead (start ++ [b]) = false := by
  constructor
  · rintro ⟨hbegins, hstops⟩
    refine ⟨hbegins, Bool.eq_false_iff.mpr fun h => ?_⟩
    obtain ⟨n, hlead, hshort, -⟩ := begins_cons_iff.mp hbegins
    obtain ⟨x, more, -, hx⟩ :=
      exists_encodeChar_append hlead (by simpa using hshort) h
    exact hstops x ⟨more, hx.symm⟩
  · rintro ⟨hbegins, hstop⟩
    refine ⟨hbegins, ?_⟩
    rintro x ⟨more, hx⟩
    rw [List.cons_append, List.cons_append] at hx
    have h : continues lead (start ++ [b]) = true :=
      continues_append (continues_of_encodeChar hx.symm)
    rw [hstop] at h
    cases h

theorem missing_pos (h : Begins start) : 0 < missing start := by
  match start with
  | [] => exact absurd rfl h.1
  | lead :: others =>
    obtain ⟨n, hlead, hshort, -⟩ := begins_cons_iff.mp h
    simp only [missing, hlead, Option.getD_some]
    omega

/-- **How any bytes begin**: with a character, with a byte that begins none, or with one that breaks
off, where the bytes end or at the byte that follows. -/
theorem front_cases (lead : UInt8) (rest : Bytes) :
    (∃ x after, lead :: rest = encodeChar x ++ after) ∨ length? lead = none ∨
      ∃ start after, lead :: rest = start ++ after ∧ Begins start ∧
        ∀ b ∈ after.head?, Breaks start b := by
  cases hlead : length? lead with
  | none => exact Or.inr (Or.inl rfl)
  | some n =>
    have hpos := length?_cases hlead
    obtain ⟨start, after, rfl, h, hall | ⟨hshort, hstop⟩⟩ := exists_continues lead (n - 1) rest
    · have hn : n = start.length + 1 := by omega
      obtain ⟨x, hx⟩ := exists_encodeChar (hn ▸ hlead) h
      exact Or.inl ⟨x, after, by rw [hx, List.cons_append]⟩
    · have hbegins : Begins (lead :: start) := begins_cons_iff.mpr ⟨n, hlead, by omega, h⟩
      exact Or.inr (Or.inr ⟨lead :: start, after, rfl, hbegins,
        fun b hb => breaks_cons_iff.mpr ⟨hbegins, hstop b hb⟩⟩)

theorem next_of_length_none (h : length? lead = none) (rest : Bytes) :
    next lead rest = (none, rest) := by
  rw [next, h]

theorem next_of_begins (h : Begins (lead :: start))
    (hrest : ∀ b ∈ rest.head?, Breaks (lead :: start) b) :
    next lead (start ++ rest) = (none, rest) := by
  obtain ⟨n, hlead, hshort, hall⟩ := begins_cons_iff.mp h
  exact next_of_continues hlead hshort hall fun b hb => (breaks_cons_iff.mp (hrest b hb)).2

/-- What is read as a character is what that character is written in. -/
theorem encodeChar_of_next {x : Char} {after : Bytes} (h : next lead rest = (some x, after)) :
    lead :: rest = encodeChar x ++ after := by
  rcases front_cases lead rest with
    ⟨y, behind, hfront⟩ | hnone | ⟨start, behind, hfront, hbegins, hbreaks⟩
  · obtain ⟨lead', others, hbytes, -, hnext⟩ := exists_writes y
    rw [hbytes, List.cons_append] at hfront
    obtain ⟨rfl, rfl⟩ := List.cons.inj hfront
    rw [hnext] at h
    cases h
    rw [hbytes, List.cons_append]
  · rw [next_of_length_none hnone] at h
    cases h
  · cases start with
    | nil => exact absurd rfl hbegins.1
    | cons lead' start =>
      rw [List.cons_append] at hfront
      obtain ⟨rfl, rfl⟩ := List.cons.inj hfront
      rw [next_of_begins hbegins hbreaks] at h
      cases h

/-! ## The text of each beginning -/

theorem decodeByLead_encodeChar_append (x : Char) (rest : Bytes) :
    decodeByLead (encodeChar x ++ rest) = x :: decodeByLead rest := by
  obtain ⟨lead, others, hbytes, hlead, hnext⟩ := exists_writes x
  have hothers : (length? lead).getD 1 - 1 = others.length := by rw [hlead]; rfl
  have hchar : char? (lead :: others) = some x := hbytes ▸ char?_encodeChar x
  rw [hbytes, List.cons_append, decodeByLead_cons, hothers, List.take_left, List.drop_left, hchar]
  rfl

theorem decodeByLead_encode (text : List Char) : decodeByLead (encode text) = text := by
  induction text with
  | nil => exact decodeByLead_nil
  | cons x text ih => rw [encode_cons, decodeByLead_encodeChar_append, ih]

theorem decodeLossy_of_length_none (h : length? lead = none) (rest : Bytes) :
    decodeLossy (lead :: rest) = replacement :: decodeLossy rest := by
  rw [decodeLossy, next_of_length_none h]
  rfl

theorem decodeByLead_of_length_none (h : length? lead = none) (rest : Bytes) :
    decodeByLead (lead :: rest) = replacement :: decodeByLead rest := by
  rw [decodeByLead_cons, h]
  simp [char?, next_of_length_none h]

/-- All at once, the text goes on right behind the beginning. -/
theorem decodeLossy_of_begins (h : Begins start) (hrest : ∀ b ∈ rest.head?, Breaks start b) :
    decodeLossy (start ++ rest) = replacement :: decodeLossy rest := by
  match start with
  | [] => exact absurd rfl h.1
  | lead :: others =>
    rw [List.cons_append, decodeLossy, next_of_begins h hrest]
    rfl

/-- By the leading byte, as many bytes are taken as are missing. -/
theorem decodeByLead_of_begins (h : Begins start) (hrest : ∀ b ∈ rest.head?, Breaks start b) :
    decodeByLead (start ++ rest) = replacement :: decodeByLead (rest.drop (missing start)) := by
  match start with
  | [] => exact absurd rfl h.1
  | lead :: others =>
    obtain ⟨n, hlead, hshort, -⟩ := begins_cons_iff.mp h
    have hothers : (length? lead).getD 1 - 1 = others.length + missing (lead :: others) := by
      simp only [missing, hlead, Option.getD_some]
      omega
    have hnext : next lead (others ++ rest.take (missing (lead :: others)))
        = (none, rest.take (missing (lead :: others))) := by
      refine next_of_begins h fun b hb => hrest b ?_
      rw [List.head?_take] at hb
      split at hb
      · cases hb
      · exact hb
    rw [List.cons_append, decodeByLead_cons, hothers, List.take_length_add_append,
      List.drop_length_add_append, char?, hnext]
    rfl

/-! ## Nothing lost -/

/-- Characters, and bytes among them that begin none. -/
inductive Whole : Bytes → Prop where
  | nil : Whole []
  | char (x : Char) {rest : Bytes} (h : Whole rest) : Whole (encodeChar x ++ rest)
  | stray {b : UInt8} (hb : length? b = none) {rest : Bytes} (h : Whole rest) : Whole (b :: rest)

/-- No character breaks off, but for one at the end of the bytes. -/
def Unbroken (bytes : Bytes) : Prop :=
  ∃ whole cut, Whole whole ∧ bytes = whole ++ cut ∧ (cut = [] ∨ Begins cut)

/-- Behind whole bytes a character breaks off, at the byte that follows. -/
structure BreaksAt (whole start : Bytes) (b : UInt8) (after bytes : Bytes) : Prop where
  isWhole : Whole whole
  breaks : Breaks start b
  bytes_eq : bytes = whole ++ (start ++ b :: after)

theorem decodeLossy_whole_append {whole : Bytes} (h : Whole whole) (rest : Bytes) :
    decodeLossy (whole ++ rest) = decodeLossy whole ++ decodeLossy rest := by
  induction h with
  | nil => simp
  | char x _ ih =>
    rw [List.append_assoc, decodeLossy_encodeChar_append, decodeLossy_encodeChar_append, ih]
    rfl
  | stray hb _ ih =>
    rw [List.cons_append, decodeLossy_of_length_none hb, decodeLossy_of_length_none hb, ih]
    rfl

theorem decodeByLead_whole_append {whole : Bytes} (h : Whole whole) (rest : Bytes) :
    decodeByLead (whole ++ rest) = decodeLossy whole ++ decodeByLead rest := by
  induction h with
  | nil => simp
  | char x _ ih =>
    rw [List.append_assoc, decodeByLead_encodeChar_append, decodeLossy_encodeChar_append, ih]
    rfl
  | stray hb _ ih =>
    rw [List.cons_append, decodeByLead_of_length_none hb, decodeLossy_of_length_none hb, ih]
    rfl

/-- Bytes are whole up to where a character first breaks off. -/
theorem exists_whole (bytes : Bytes) : ∃ whole rest, Whole whole ∧ bytes = whole ++ rest ∧
    (rest = [] ∨ ∃ start after, rest = start ++ after ∧ Begins start ∧
      ∀ b ∈ after.head?, Breaks start b) := by
  -- what follows a character, or a byte that begins none, is shorter
  induction hn : bytes.length using Nat.strongRecOn generalizing bytes with
  | _ n ih =>
    match bytes with
    | [] => exact ⟨[], [], .nil, rfl, Or.inl rfl⟩
    | lead :: rest =>
      rcases front_cases lead rest with ⟨x, after, hfront⟩ | hnone | ⟨start, after, hfront, hbreaks⟩
      · rw [hfront, List.length_append] at hn
        have hpos : 0 < (encodeChar x).length := List.length_pos_iff.mpr (encodeChar_ne_nil x)
        obtain ⟨whole, rest', hwhole, hafter, hrest⟩ := ih after.length (by omega) after rfl
        exact ⟨encodeChar x ++ whole, rest', .char x hwhole,
          by rw [hfront, hafter, List.append_assoc], hrest⟩
      · obtain ⟨whole, rest', hwhole, hafter, hrest⟩ := ih rest.length (by simp [← hn]) rest rfl
        exact ⟨lead :: whole, rest', .stray hnone hwhole, by rw [hafter, List.cons_append], hrest⟩
      · exact ⟨[], lead :: rest, .nil, rfl, Or.inr ⟨start, after, hfront, hbreaks⟩⟩

/-- **Where no character breaks off, the leading bytes give the text.** -/
theorem decodeByLead_of_unbroken {bytes : Bytes} (h : Unbroken bytes) :
    decodeByLead bytes = decodeLossy bytes := by
  obtain ⟨whole, cut, hwhole, rfl, hcut⟩ := h
  rw [decodeByLead_whole_append hwhole, decodeLossy_whole_append hwhole]
  rcases hcut with rfl | hcut
  · rw [decodeByLead_nil, decodeLossy_nil]
  · have hend : ∀ b ∈ ([] : Bytes).head?, Breaks cut b := by simp
    rw [← List.append_nil cut, decodeByLead_of_begins hcut hend, decodeLossy_of_begins hcut hend,
      List.drop_nil, decodeByLead_nil, decodeLossy_nil]

theorem exists_breaksAt {bytes : Bytes} (h : ¬Unbroken bytes) :
    ∃ whole start b after, BreaksAt whole start b after bytes := by
  obtain ⟨whole, rest, hwhole, hbytes, hrest⟩ := exists_whole bytes
  rcases hrest with rfl | ⟨start, after, rfl, hbegins, hbreaks⟩
  · exact absurd ⟨whole, [], hwhole, hbytes, Or.inl rfl⟩ h
  · cases after with
    | nil => exact absurd ⟨whole, start, hwhole, by simpa using hbytes, Or.inr hbegins⟩ h
    | cons b after => exact ⟨whole, start, b, after, hwhole, hbreaks b rfl, hbytes⟩

theorem decodeLossy_of_breaksAt {whole after bytes : Bytes}
    (h : BreaksAt whole start b after bytes) :
    decodeLossy bytes = decodeLossy whole ++ replacement :: decodeLossy (b :: after) := by
  obtain ⟨hwhole, hbreaks, rfl⟩ := h
  rw [decodeLossy_whole_append hwhole, decodeLossy_of_begins hbreaks.begins (by simpa using hbreaks)]

theorem decodeByLead_of_breaksAt {whole after bytes : Bytes}
    (h : BreaksAt whole start b after bytes) :
    decodeByLead bytes
      = decodeLossy whole ++ replacement :: decodeByLead ((b :: after).drop (missing start)) := by
  obtain ⟨hwhole, hbreaks, rfl⟩ := h
  rw [decodeByLead_whole_append hwhole, decodeByLead_of_begins hbreaks.begins (by simpa using hbreaks)]

/-! ## What is lost -/

theorem length?_of_isTail (h : isTail b = true) : length? b = none := by
  rw [isTail_iff] at h
  dsimp only [length?]
  rw [if_neg (by omega), if_pos (by omega)]

theorem isTail_of_continues (h : continues lead others = true) : ∀ b ∈ others, isTail b = true := by
  cases others with
  | nil => simp
  | cons second others =>
    simp only [continues, Bool.and_eq_true, List.all_eq_true] at h
    rintro b (_ | ⟨_, hb⟩)
    · exact (isSecond_iff.mp h.1).1
    · exact h.2 b hb

/-- From within a character the text does not begin with one. -/
theorem head?_decodeByLead_drop_encodeChar {i : Nat} {x : Char} (hpos : 0 < i)
    (hlt : i < (encodeChar x).length) (rest : Bytes) :
    (decodeByLead ((encodeChar x ++ rest).drop i)).head? = some replacement := by
  obtain ⟨i, rfl⟩ : ∃ k, i = k + 1 := ⟨i - 1, by omega⟩
  obtain ⟨lead, others, hbytes, -⟩ := exists_writes x
  rw [hbytes, List.length_cons, Nat.add_lt_add_iff_right] at hlt
  have htail : isTail others[i] = true :=
    isTail_of_continues (continues_of_encodeChar hbytes) _ (List.getElem_mem hlt)
  rw [hbytes, List.cons_append, List.drop_succ_cons,
    List.drop_append_of_le_length (Nat.le_of_lt hlt), List.drop_eq_getElem_cons hlt,
    List.cons_append, decodeByLead_of_length_none (length?_of_isTail htail)]
  rfl

/-- From anywhere in a text no more is read than the text has, or else it does not begin with a
character. -/
theorem decodeByLead_drop_encode (text : List Char) (i : Nat) :
    (decodeByLead ((encode text).drop i)).length ≤ text.length ∨
      (decodeByLead ((encode text).drop i)).head? = some replacement := by
  -- on the text: the cut is in its first character, or behind it
  induction text generalizing i with
  | nil => exact Or.inl (by simp)
  | cons x text ih =>
    rw [encode_cons]
    by_cases hi : i < (encodeChar x).length
    · cases i with
      | zero =>
        rw [List.drop_zero, ← encode_cons, decodeByLead_encode]
        exact Or.inl (Nat.le_refl _)
      | succ i => exact Or.inr (head?_decodeByLead_drop_encodeChar (Nat.succ_pos i) hi _)
    · rw [List.drop_append, List.drop_of_length_le (by omega), List.nil_append]
      rcases ih (i - (encodeChar x).length) with hlength | hhead
      · exact Or.inl (Nat.le_succ_of_le hlength)
      · exact Or.inr hhead

/-- A character is not read without its first bytes. -/
theorem decodeByLead_drop_ne {i : Nat} {x : Char} (hpos : 0 < i) (hx : x ≠ replacement)
    (text : List Char) : decodeByLead ((encode (x :: text)).drop i) ≠ x :: text := by
  intro h
  have hhead : (decodeByLead ((encode (x :: text)).drop i)).head? ≠ some replacement := by
    rw [h]
    simpa using hx
  rw [encode_cons] at h hhead
  by_cases hi : i < (encodeChar x).length
  · exact hhead (head?_decodeByLead_drop_encodeChar hpos hi _)
  · rw [List.drop_append, List.drop_of_length_le (by omega), List.nil_append] at h hhead
    rcases decodeByLead_drop_encode text (i - (encodeChar x).length) with hlength | hnone
    · rw [h, List.length_cons] at hlength
      omega
    · exact hhead hnone

end Clipboard.Utf8
