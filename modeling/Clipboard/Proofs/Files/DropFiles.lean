import Clipboard.Files.DropFiles
import Clipboard.Proofs.NativeText.Terminator

/-!
# Lists of dropped files there and back

A name can stand in a list if it is not empty and has no zero in it (`IsName`). Such names are read
back, whatever is behind the list (`namesOf_entries_append`), and whatever the bytes are, only such
names are read from them (`isName_of_mem_namesOf`).

`decode` takes runs off a list. `decodeAt?` goes through the bytes by position instead, and gives
nothing if it looks where there is no byte or goes round a loop too often; `decodeAt?_eq` says that
it does neither and gives what `decode` gives.
-/

namespace Clipboard.DropFiles

/-! ## Runs -/

section Runs

variable {α : Type} {isZero : α → Bool}

/-- What comes before the first zero. -/
def firstRun (isZero : α → Bool) (xs : List α) : List α := xs.takeWhile (!isZero ·)

/-- What comes behind the first zero. -/
def behindRun (isZero : α → Bool) (xs : List α) : List α := (xs.dropWhile (!isZero ·)).drop 1

theorem firstRun_cons (x : α) (xs : List α) :
    firstRun isZero (x :: xs) = if isZero x then [] else x :: firstRun isZero xs := by
  cases hx : isZero x with
  | true => simp [firstRun, hx]
  | false => simp [firstRun, hx]

theorem behindRun_cons (x : α) (xs : List α) :
    behindRun isZero (x :: xs) = if isZero x then xs else behindRun isZero xs := by
  cases hx : isZero x with
  | true => simp [behindRun, hx]
  | false => simp [behindRun, hx]

/-- The runs are taken off one by one. -/
theorem runs_eq (xs : List α) :
    runs isZero xs = if firstRun isZero xs = [] then []
      else firstRun isZero xs :: runs isZero (behindRun isZero xs) := by
  cases xs with
  | nil => rw [runs]; rfl
  | cons x rest =>
    rw [runs, firstRun_cons, behindRun_cons]
    cases isZero x with
    | true => rfl
    | false => rfl

theorem runs_cons_of_zero {z : α} (hz : isZero z = true) (rest : List α) :
    runs isZero (z :: rest) = [] := by
  rw [runs, if_pos hz]

/-- A run with its zero, and then what follows it. -/
theorem runs_append_cons {run : List α} (hne : run ≠ []) (h : ∀ x ∈ run, isZero x = false) {z : α}
    (hz : isZero z = true) (rest : List α) :
    runs isZero (run ++ z :: rest) = run :: runs isZero rest := by
  have hrun : ∀ x ∈ run, (!isZero x) = true := fun x hx => by rw [h x hx]; rfl
  have hfirst : firstRun isZero (run ++ z :: rest) = run := by
    have hstop : firstRun isZero (z :: rest) = [] := by rw [firstRun_cons, if_pos hz]
    rw [firstRun, List.takeWhile_append_of_pos hrun, ← firstRun, hstop, List.append_nil]
  have hbehind : behindRun isZero (run ++ z :: rest) = rest := by
    rw [behindRun, List.dropWhile_append_of_pos hrun, ← behindRun, behindRun_cons, if_pos hz]
  rw [runs_eq, hfirst, hbehind, if_neg hne]

/-- No run is empty, and what is in it is in the list and no zero. -/
theorem of_mem_runs {xs run : List α} (h : run ∈ runs isZero xs) :
    run ≠ [] ∧ ∀ x ∈ run, x ∈ xs ∧ isZero x = false := by
  fun_induction runs isZero xs with
  | case1 => cases h
  | case2 => cases h
  | case3 x rest hx ih =>
    rw [List.mem_cons] at h
    rcases h with rfl | h
    · refine ⟨List.cons_ne_nil _ _, List.forall_mem_cons.mpr
        ⟨⟨List.mem_cons_self, by simpa using hx⟩, fun y hy => ?_⟩⟩
      have hnot := List.all_eq_true.mp List.all_takeWhile y hy
      exact ⟨List.mem_cons_of_mem _ (List.takeWhile_subset _ hy), by simpa using hnot⟩
    · obtain ⟨hne, hrun⟩ := ih h
      refine ⟨hne, fun y hy => ⟨List.mem_cons_of_mem _ ?_, (hrun y hy).2⟩⟩
      exact (List.dropWhile_sublist _).mem (List.mem_of_mem_drop (hrun y hy).1)

end Runs

/-! ## Names -/

/-- The name can stand in a list. -/
def IsName (name : String) : Prop := name ≠ "" ∧ '\x00' ∉ name.toList

instance (name : String) : Decidable (IsName name) := inferInstanceAs (Decidable (_ ∧ _))

theorem isName_ofList_iff {cs : List Char} :
    IsName (String.ofList cs) ↔ cs ≠ [] ∧ '\x00' ∉ cs := by
  rw [IsName, String.toList_ofList, ne_eq, String.ofList_eq_empty_iff]

/-! ## Names that were written -/

theorem encode_ne_nil_of_ne {cs : List Char} (h : cs ≠ []) : Utf16.encode cs ≠ [] := by
  cases cs with
  | nil => exact absurd rfl h
  | cons c cs =>
    rw [Utf16.encode, List.flatMap_cons]
    exact List.append_ne_nil_of_left_ne_nil (Utf16.encodeChar_ne_nil c) _

/-- The bytes of a name and its zero are its units and a unit that is zero. -/
theorem unitsOf_nameBytes_append (name : String) (rest : Bytes) :
    (Utf16.unitsOf .little (nameBytes name ++ [0, 0] ++ rest)).1
      = Utf16.encode name.toList ++ 0 :: (Utf16.unitsOf .little rest).1 := by
  have hlt : ∀ u ∈ Utf16.encode name.toList, u < 0x10000 := fun u hu => by
    obtain ⟨c, -, hc⟩ := List.mem_flatMap.mp hu
    exact (Utf16.unit_bounds hc).1
  rw [List.append_assoc, nameBytes, Utf16.unitsOf_flatMap_append .little hlt]
  rfl

/-- A name with its zero, and then what follows it. -/
theorem namesOf_nameBytes_append {name : String} (h : IsName name) (rest : Bytes) :
    namesOf true (nameBytes name ++ [0, 0] ++ rest) = name :: namesOf true rest := by
  have hne : Utf16.encode name.toList ≠ [] :=
    encode_ne_nil_of_ne (fun hnil => h.1 (String.toList_eq_nil_iff.mp hnil))
  have hzero : ∀ u ∈ Utf16.encode name.toList, decide (u = 0) = false := fun u hu => by
    obtain ⟨c, hmem, hc⟩ := List.mem_flatMap.mp hu
    exact decide_eq_false ((Utf16.unit_bounds hc).2 (fun hnul => h.2 (hnul ▸ hmem)))
  rw [namesOf, if_pos rfl, unitsOf_nameBytes_append, runs_append_cons hne hzero (by rfl),
    List.map_cons, Utf16.decode_encode, String.ofList_toList, namesOf, if_pos rfl]

/-- The names that were written are read, whatever is behind the zero that ends the list. -/
theorem namesOf_entries_append {names : List String} (h : ∀ name ∈ names, IsName name)
    (rest : Bytes) :
    namesOf true (names.flatMap (fun name => nameBytes name ++ [0, 0]) ++ [0, 0] ++ rest)
      = names := by
  induction names with
  | nil =>
    have hunits : (Utf16.unitsOf .little ([0, 0] ++ rest)).1
        = 0 :: (Utf16.unitsOf .little rest).1 := rfl
    rw [List.flatMap_nil, List.nil_append, namesOf, if_pos rfl, hunits,
      runs_cons_of_zero (by rfl), List.map_nil]
  | cons name names ih =>
    have hnames := ih (fun x hx => h x (List.mem_cons_of_mem _ hx))
    rw [List.flatMap_cons, List.append_assoc (_ ++ _), List.append_assoc (_ ++ _),
      namesOf_nameBytes_append (h name List.mem_cons_self), ← List.append_assoc, hnames]

/-- What is behind the header is read as names. -/
theorem decode_header_append (data : Bytes) :
    decode (header ++ data) = .ok (namesOf true data) := by
  have hheader : header.length = headerLength := by decide
  have hlength : (header ++ data).length = headerLength + data.length := by
    rw [List.length_append, hheader]
  have hoffset : Endian.littleAt (header ++ data) 0 4 = headerLength := rfl
  have hwide : Endian.littleAt (header ++ data) 16 4 = 1 := rfl
  have hdata : (header ++ data).drop headerLength = data := List.drop_left' hheader
  rw [decode, if_neg (by omega)]
  simp only [hoffset, hwide]
  rw [if_neg (by omega), hdata]
  rfl

/-- **Names are read back.** -/
theorem decode_encode {names : List String} (h : ∀ name ∈ names, IsName name) :
    decode (encode names) = .ok names := by
  have hnames := namesOf_entries_append h []
  rw [List.append_nil] at hnames
  rw [encode, List.append_assoc, decode_header_append, hnames]

/-! ## Names that are read -/

theorem isName_of_mem_namesOf {wide : Bool} {data : Bytes} {name : String}
    (h : name ∈ namesOf wide data) : IsName name := by
  cases wide with
  | true =>
    obtain ⟨run, hrun, rfl⟩ := List.mem_map.mp h
    obtain ⟨hne, hunits⟩ := of_mem_runs hrun
    refine isName_ofList_iff.mpr ⟨Utf16.decode_ne_nil hne, Utf16.nul_not_mem_decode fun u hu => ?_⟩
    obtain ⟨hmem, hzero⟩ := hunits u hu
    exact ⟨Utf16.lt_of_mem_unitsOf hmem, of_decide_eq_false hzero⟩
  | false =>
    obtain ⟨run, hrun, rfl⟩ := List.mem_map.mp h
    obtain ⟨hne, hbytes⟩ := of_mem_runs hrun
    have hunits : NativeText.Unterminated Charset.windows1252.unitWidth run :=
      .of_ne_zero fun b hb => of_decide_eq_false (hbytes b hb).2
    exact isName_ofList_iff.mpr ⟨by simpa [Charset.decode] using hne,
      Charset.nul_not_mem_decode_unterminated (by decide) hunits⟩

/-- Whatever the bytes are, only names are read from them. -/
theorem isName_of_decode {bytes : Bytes} {names : List String} (h : decode bytes = .ok names) :
    ∀ name ∈ names, IsName name := by
  rw [decode] at h
  split at h
  · cases h
  · simp only at h
    split at h
    · cases h
    · cases h
      exact fun name => isName_of_mem_namesOf

/-! ## The bytes by position -/

/-- The bytes from one position up to another, if they are all there. -/
def slice? (bytes : Bytes) (start stop : Nat) : Option Bytes :=
  if start ≤ stop ∧ stop ≤ bytes.length then some (Endian.slice bytes start (stop - start))
  else none

theorem slice?_eq {bytes : Bytes} {start stop : Nat} (hstart : start ≤ stop)
    (hstop : stop ≤ bytes.length) :
    slice? bytes start stop = some (Endian.slice bytes start (stop - start)) :=
  if_pos ⟨hstart, hstop⟩

/-- All bytes from a position on. -/
theorem slice?_length {bytes : Bytes} {start : Nat} (h : start ≤ bytes.length) :
    slice? bytes start bytes.length = some (bytes.drop start) := by
  rw [slice?_eq h (Nat.le_refl _), Endian.slice,
    List.take_of_length_le (Nat.le_of_eq List.length_drop)]

/-- The number at a position, the low byte first, if all its bytes are there. -/
def littleAt? (bytes : Bytes) (pos width : Nat) : Option Nat :=
  (slice? bytes pos (pos + width)).map Endian.ofLittle

theorem littleAt?_eq {bytes : Bytes} {pos width : Nat} (h : pos + width ≤ bytes.length) :
    littleAt? bytes pos width = some (Endian.littleAt bytes pos width) := by
  rw [littleAt?, slice?_eq (Nat.le_add_right _ _) h, Nat.add_sub_cancel_left, Option.map_some,
    Endian.littleAt]

section RunsAt

variable {α : Type}

/-- The runs from a position on. `run?` reads the run at a position and says where to look for the
next; the last one is read where less than `width` bytes are left. -/
def runsAt? (data : Bytes) (width : Nat) (run? : Nat → Option (List α × Nat)) :
    (rounds pos : Nat) → Option (List (List α))
  | 0, _ => none
  | rounds + 1, pos =>
    if pos + width ≤ data.length then do
      let (run, next) ← run? pos
      if run.isEmpty then some []
      else (runsAt? data width run? rounds next).map (run :: ·)
    else some []

/-- `run?` takes a run and its zero off what `view` shows from a position on. -/
structure ReadsRuns (data : Bytes) (width : Nat) (isZero : α → Bool) (view : Nat → List α)
    (run? : Nat → Option (List α × Nat)) : Prop where
  width_pos : 0 < width
  view_eq_nil : ∀ pos, data.length < pos + width → view pos = []
  run?_eq : ∀ pos, pos + width ≤ data.length →
    ∃ next, run? pos = some (firstRun isZero (view pos), next) ∧ pos < next ∧
      view next = behindRun isZero (view pos)

/-- A round for each byte that is left, and one to see that there is none, are enough. -/
theorem ReadsRuns.runsAt?_eq {data : Bytes} {width : Nat} {isZero : α → Bool}
    {view : Nat → List α} {run? : Nat → Option (List α × Nat)}
    (h : ReadsRuns data width isZero view run?) {rounds pos : Nat}
    (hrounds : data.length - pos < rounds) :
    runsAt? data width run? rounds pos = some (runs isZero (view pos)) := by
  induction rounds generalizing pos with
  | zero => omega
  | succ rounds ih =>
    have hwidth := h.width_pos
    rw [runsAt?]
    by_cases hmore : pos + width ≤ data.length
    · obtain ⟨next, hrun, hnext, hview⟩ := h.run?_eq pos hmore
      -- a run ends behind its first position, so that one round less is enough for the others
      have hrest := ih (show data.length - next < rounds by omega)
      rw [if_pos hmore, hrun, runs_eq, ← hview]
      simp only [Option.bind_eq_bind, Option.bind_some, List.isEmpty_iff, hrest, Option.map_some]
      split
      · rfl
      · rfl
    · rw [if_neg hmore, h.view_eq_nil pos (by omega), runs]

end RunsAt

/-! ### Names of two bytes for a unit -/

/-- The units from a position up to a zero, and where to look for the next. -/
def unitsAt? (data : Bytes) : (rounds pos : Nat) → Option (List Nat × Nat)
  | 0, _ => none
  | rounds + 1, pos =>
    if pos + 2 ≤ data.length then do
      let first ← data[pos]?
      let second ← data[pos + 1]?
      let u := Utf16.unit .little first second
      if u = 0 then some ([], pos + 2)
      else do
        let (units, next) ← unitsAt? data rounds (pos + 2)
        some (u :: units, next)
    else some ([], pos)

/-- The units from a position on. -/
def unitsFrom (data : Bytes) (pos : Nat) : List Nat := (Utf16.unitsOf .little (data.drop pos)).1

theorem unitsFrom_eq_nil {data : Bytes} {pos : Nat} (h : data.length < pos + 2) :
    unitsFrom data pos = [] := by
  have hlength : (data.drop pos).length < 2 := by rw [List.length_drop]; omega
  rw [unitsFrom]
  match data.drop pos, hlength with
  | [], _ => rfl
  | [_], _ => rfl

theorem unitsFrom_eq_cons {data : Bytes} {pos : Nat} (hfirst : pos < data.length)
    (hsecond : pos + 1 < data.length) :
    unitsFrom data pos
      = Utf16.unit .little data[pos] data[pos + 1] :: unitsFrom data (pos + 2) := by
  rw [unitsFrom, List.drop_eq_getElem_cons hfirst, List.drop_eq_getElem_cons hsecond]
  rfl

/-- The units up to a zero are read, and the position moves on if there is a unit at all. -/
theorem unitsAt?_eq {data : Bytes} {rounds pos : Nat} (hrounds : data.length - pos < rounds) :
    ∃ next, unitsAt? data rounds pos = some (firstRun (· = 0) (unitsFrom data pos), next) ∧
      pos ≤ next ∧ (pos + 2 ≤ data.length → pos < next) ∧
      unitsFrom data next = behindRun (· = 0) (unitsFrom data pos) := by
  induction rounds generalizing pos with
  | zero => omega
  | succ rounds ih =>
    rw [unitsAt?]
    by_cases hmore : pos + 2 ≤ data.length
    · obtain ⟨next, hunits, hle, -, hview⟩ :=
        ih (show data.length - (pos + 2) < rounds by omega)
      have hfirst : pos < data.length := by omega
      have hsecond : pos + 1 < data.length := by omega
      rw [if_pos hmore, List.getElem?_eq_getElem hfirst, List.getElem?_eq_getElem hsecond,
        unitsFrom_eq_cons hfirst hsecond, firstRun_cons, behindRun_cons]
      simp only [Option.bind_eq_bind, Option.bind_some, hunits]
      generalize Utf16.unit .little _ _ = u
      by_cases hu : u = 0
      · exact ⟨pos + 2, by simp [hu], by omega, fun _ => by omega, by simp [hu]⟩
      · exact ⟨next, by simp [hu], by omega, fun _ => by omega, by simp [hu, hview]⟩
    · rw [if_neg hmore, unitsFrom_eq_nil (by omega)]
      exact ⟨pos, rfl, Nat.le_refl _, fun h => absurd h hmore, unitsFrom_eq_nil (by omega)⟩

theorem readsRuns_unitsAt? {data : Bytes} {rounds : Nat} (hrounds : data.length < rounds) :
    ReadsRuns data 2 (· = 0) (unitsFrom data) (unitsAt? data rounds) where
  width_pos := by omega
  view_eq_nil _ h := unitsFrom_eq_nil h
  run?_eq pos hmore := by
    obtain ⟨next, hunits, -, hlt, hview⟩ :=
      unitsAt?_eq (show data.length - pos < rounds by omega)
    exact ⟨next, hunits, hlt hmore, hview⟩

/-! ### Names of one byte for a character -/

/-- The bytes from a position up to a zero, and the position behind that zero. -/
def bytesAt? (data : Bytes) (pos : Nat) : Option (Bytes × Nat) := do
  let rest ← slice? data pos data.length
  let stop := pos + rest.findIdx (· = 0)
  let run ← slice? data pos stop
  some (run, stop + 1)

theorem readsRuns_bytesAt? (data : Bytes) :
    ReadsRuns data 1 (· = 0) (data.drop ·) (bytesAt? data) where
  width_pos := by omega
  view_eq_nil pos h := List.drop_eq_nil_of_le (by omega)
  run?_eq pos hmore := by
    have hstop : (data.drop pos).findIdx (· = 0) ≤ (data.drop pos).length :=
      List.findIdx_le_length
    rw [List.length_drop] at hstop
    refine ⟨pos + (data.drop pos).findIdx (· = 0) + 1, ?_, by omega, ?_⟩
    · rw [bytesAt?, slice?_length (by omega)]
      simp only [Option.bind_eq_bind, Option.bind_some]
      rw [slice?_eq (by omega) (by omega), Endian.slice, firstRun,
        List.takeWhile_eq_take_findIdx_not]
      simp
    · rw [behindRun, List.dropWhile_eq_drop_findIdx_not]
      simp [Nat.add_assoc]

/-! ### The structure -/

/-- The names in the bytes behind the header. -/
def namesAt? (wide : Bool) (data : Bytes) (rounds : Nat) : Option (List String) :=
  if wide then
    (runsAt? data 2 (unitsAt? data rounds) rounds 0).map
      (·.map (fun u => String.ofList (Utf16.decode u)))
  else
    (runsAt? data 1 (bytesAt? data) rounds 0).map
      (·.map (fun bs => String.ofList (Charset.windows1252.decode bs)))

theorem namesAt?_eq (wide : Bool) {data : Bytes} {rounds : Nat} (h : data.length < rounds) :
    namesAt? wide data rounds = some (namesOf wide data) := by
  cases wide with
  | true =>
    rw [namesAt?, if_pos rfl, (readsRuns_unitsAt? h).runsAt?_eq (by omega)]
    rfl
  | false =>
    rw [namesAt?, if_neg Bool.false_ne_true, (readsRuns_bytesAt? data).runsAt?_eq (by omega)]
    rfl

/-- `decode` by position: nothing if it looks where there is no byte, or if it goes round a loop
more often than it may. -/
def decodeAt? (bytes : Bytes) (rounds : Nat) : Option (Except Error (List String)) :=
  if bytes.length < headerLength then some (.error (.invalidData .dropFilesTooSmall))
  else do
    let offset ← littleAt? bytes 0 4
    let flag ← littleAt? bytes 16 4
    if offset < headerLength ∨ bytes.length < offset then
      some (.error (.invalidData .dropFilesOffset))
    else do
      let data ← slice? bytes offset bytes.length
      let names ← namesAt? (flag ≠ 0) data rounds
      some (.ok names)

/-- **No byte is looked for where there is none**, and no loop is gone round more often than there
are bytes. -/
theorem decodeAt?_eq {bytes : Bytes} {rounds : Nat} (h : bytes.length ≤ rounds) :
    decodeAt? bytes rounds = some (decode bytes) := by
  rw [decodeAt?, decode]
  by_cases hsmall : bytes.length < headerLength
  · rw [if_pos hsmall, if_pos hsmall]
  · have hheader : headerLength = 20 := rfl
    rw [if_neg hsmall, if_neg hsmall, littleAt?_eq (by omega), littleAt?_eq (by omega)]
    simp only [Option.bind_eq_bind, Option.bind_some]
    generalize Endian.littleAt bytes 0 4 = offset
    by_cases hoffset : offset < headerLength ∨ bytes.length < offset
    · rw [if_pos hoffset, if_pos hoffset]
    · have hnames : (bytes.drop offset).length < rounds := by rw [List.length_drop]; omega
      rw [if_neg hoffset, if_neg hoffset, slice?_length (by omega), Option.bind_some,
        namesAt?_eq _ hnames, Option.bind_some]

/-! ## The codec -/

/-- **Names are read back, and nothing else is read.** A list of names is written and read again.
Any bytes are read without a look past their end, in no more rounds of a loop than there are bytes,
and if there is a list in them it is one of names, which is written and read again. -/
theorem codec_decode_encode :
    (∀ names : List String, (∀ name ∈ names, IsName name) →
      ∃ bytes, codec.encode names = .ok bytes ∧ codec.decode bytes = .ok (some names)) ∧
    ∀ bytes : Bytes,
      (∀ rounds, bytes.length ≤ rounds →
        (decodeAt? bytes rounds).map (·.map some) = some (codec.decode bytes)) ∧
      ((∃ fault, codec.decode bytes = .error fault) ∨
        ∃ names, codec.decode bytes = .ok (some names) ∧ (∀ name ∈ names, IsName name) ∧
          ∃ again, codec.encode names = .ok again ∧ codec.decode again = .ok (some names)) := by
  have hwritten : ∀ names : List String, (∀ name ∈ names, IsName name) →
      ∃ bytes, codec.encode names = .ok bytes ∧ codec.decode bytes = .ok (some names) :=
    fun names hnames => ⟨encode names, rfl, congrArg (Except.map some) (decode_encode hnames)⟩
  refine ⟨hwritten, fun bytes => ⟨fun rounds hrounds => ?_, ?_⟩⟩
  · rw [decodeAt?_eq hrounds]
    rfl
  · cases hdecode : decode bytes with
    | error fault => exact Or.inl ⟨fault, congrArg (Except.map some) hdecode⟩
    | ok names =>
      have hnames := isName_of_decode hdecode
      exact Or.inr ⟨names, congrArg (Except.map some) hdecode, hnames, hwritten names hnames⟩

/-- A path with a blank and a name beyond ASCII. -/
theorem codec_decode_encode_two_names :
    (∀ name ∈ ["C:\\a b", "é😀"], IsName name) ∧
      ∃ bytes, codec.encode ["C:\\a b", "é😀"] = .ok bytes ∧
        codec.decode bytes = .ok (some ["C:\\a b", "é😀"]) :=
  have hnames : ∀ name ∈ ["C:\\a b", "é😀"], IsName name := by decide
  ⟨hnames, codec_decode_encode.1 _ hnames⟩

end Clipboard.DropFiles
