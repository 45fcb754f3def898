import Clipboard.Json.Reader
import Clipboard.Proofs.Json.Token
import Clipboard.Proofs.Utf8

/-!
# Values written and read

A value that was written is cut into tokens of its own and read, whatever stands behind it and in
whatever arrays and objects it stands (`ReadAs`); only a number that is out of range keeps it from being
cut (`Uncut`). It is read if the arrays and objects around it and in it, one inside the other, are not
too many. So a text that is read back as the value it was written for is read back within another text
too, unless it is too deep there (`readAs_of_ofBytes`).
-/

namespace Clipboard.Json

open Token (all)

/-! ## Nesting -/

mutual

/-- How many arrays and objects stand inside one another. -/
def Value.depth : Value → Nat
  | .null | .bool _ | .number _ | .string _ => 0
  | .array items => itemsDepth items + 1
  | .object members => membersDepth members + 1

/-- The depth of the deepest item. -/
def itemsDepth : List Value → Nat
  | [] => 0
  | v :: items => max v.depth (itemsDepth items)

/-- The depth of the deepest member. -/
def membersDepth : List (String × Value) → Nat
  | [] => 0
  | (_, v) :: members => max v.depth (membersDepth members)

end

/-! ## Texts -/

/-- The items behind the first. -/
def writeItems (items : List Value) : List Char := items.flatMap (fun v => ',' :: write v)

def writeMember (m : String × Value) : List Char := writeString m.1 ++ ':' :: write m.2

/-- The members behind the first. -/
def writeMembers (members : List (String × Value)) : List Char :=
  members.flatMap (fun m => ',' :: writeMember m)

theorem joinWith_cons (comma t : List Char) (ts : List (List Char)) :
    joinWith comma (t :: ts) = t ++ ts.flatMap (comma ++ ·) := by
  induction ts generalizing t with
  | nil => simp [joinWith]
  | cons u ts ih => rw [joinWith, ih, List.flatMap_cons, List.append_assoc, List.append_assoc]; simp

theorem write_array_nil : write (.array []) = ['[', ']'] := by
  rw [write]
  rfl

theorem write_object_nil : write (.object []) = ['\x7b', '\x7d'] := by
  rw [write]
  rfl

/-- The parts of an array, with a text behind it. -/
theorem write_array_cons_append (v : Value) (items : List Value) (rest : List Char) :
    write (.array (v :: items)) ++ rest = '[' :: (write v ++ (writeItems items ++ ']' :: rest)) := by
  rw [write, List.attach_map_val, List.map_cons, joinWith_cons, List.flatMap_map]
  simp [writeItems]

/-- The parts of an object, with a text behind it. -/
theorem write_object_cons_append (m : String × Value) (members : List (String × Value))
    (rest : List Char) :
    write (.object (m :: members)) ++ rest
      = '\x7b' :: (writeMember m ++ (writeMembers members ++ '\x7d' :: rest)) := by
  have hmember : (fun p : String × Value => writeString p.1 ++ ':' :: write p.2) = writeMember := rfl
  rw [write, List.attach_map_val (f := fun p : String × Value => writeString p.1 ++ ':' :: write p.2),
    hmember, List.map_cons, joinWith_cons, List.flatMap_map]
  simp [writeMembers]

theorem writeItems_cons_append (v : Value) (items : List Value) (rest : List Char) :
    writeItems (v :: items) ++ rest = ',' :: (write v ++ (writeItems items ++ rest)) := by
  simp [writeItems]

theorem writeMembers_cons_append (m : String × Value) (members : List (String × Value))
    (rest : List Char) :
    writeMembers (m :: members) ++ rest = ',' :: (writeMember m ++ (writeMembers members ++ rest)) := by
  simp [writeMembers]

theorem writeMember_append (name : String) (v : Value) (rest : List Char) :
    writeMember (name, v) ++ rest = writeString name ++ ':' :: (write v ++ rest) := by
  simp [writeMember]

/-! ## Reading within arrays and objects -/

namespace Reader

variable {t : Token} {ts : List Token}

theorem run_cons (r : Reader) (t : Token) (ts : List Token) :
    r.run (t :: ts) = (r.step t).bind (·.run ts) := by
  rw [run]
  cases r.step t <;> rfl

theorem run_cons_of_step {r r' : Reader} (h : r.step t = .ok r') (ts : List Token) :
    r.run (t :: ts) = r'.run ts := by
  rw [run_cons, h]
  rfl

theorem run_openArray (frames : List Frame) (ts : List Token) :
    (value frames).run (.openArray :: ts)
      = if frames.length < depthLimit then (firstItem frames).run ts else .error .tooDeep := by
  rw [run_cons, step, beginValue]
  split <;> rfl

theorem run_openObject (frames : List Frame) (ts : List Token) :
    (value frames).run (.openObject :: ts)
      = if frames.length < depthLimit then (firstName frames).run ts else .error .tooDeep := by
  rw [run_cons, step, beginValue]
  split <;> rfl

/-- The first item may be anything but the end of the array. -/
theorem run_firstItem (ht : t ≠ .closeArray) (frames : List Frame) (ts : List Token) :
    (firstItem frames).run (t :: ts) = (value (.array [] :: frames)).run (t :: ts) := by
  rw [run_cons, run_cons]
  cases t <;> first | rfl | exact absurd rfl ht

/-- A name, a colon, and what follows. -/
theorem run_name {r : Reader} {name : String} {acc : Dictionary Value} {frames : List Frame}
    (h : r.step (.string name) = .ok (.colon acc name frames)) (ts : List Token) :
    r.run (.string name :: .colon :: ts) = (value (.object acc name :: frames)).run ts := by
  rw [run_cons_of_step h]
  exact run_cons_of_step rfl ts

end Reader

/-- Of two bounds that are checked one after the other. -/
theorem ite_ite_of_iff {α : Type} {a b c : Prop} [Decidable a] [Decidable b] [Decidable c] {x y : α}
    (h : c ↔ a ∧ b) : (if a then if b then x else y else y) = if c then x else y := by
  by_cases ha : a <;> simp [h, ha]

/-- A value is cut off as tokens, and read as a value if it is not too deep. -/
structure ReadAs (v w : Value) (ts : List Token) : Prop where
  all_append : ∀ rest, Delimited rest → all (write v ++ rest) = (all rest).map (ts ++ ·)
  run_append : ∀ frames more, frames.length ≤ depthLimit →
    (Reader.value frames).run (ts ++ more)
      = if frames.length + v.depth ≤ depthLimit then (Reader.receive w frames).run more
        else .error .tooDeep
  begins : ∃ t more, ts = t :: more ∧ t ≠ .closeArray

/-- The items behind the first are cut off as tokens and read as items, with the end of the array. -/
structure ItemsReadAs (items ws : List Value) (ts : List Token) : Prop where
  all_append : ∀ rest, all (writeItems items ++ ']' :: rest)
    = (all rest).map (fun us => ts ++ .closeArray :: us)
  run_append : ∀ acc frames more, frames.length < depthLimit →
    (Reader.afterItem acc frames).run (ts ++ .closeArray :: more)
      = if frames.length + (itemsDepth items + 1) ≤ depthLimit then
          (Reader.receive (.array (acc.reverse ++ ws)) frames).run more
        else .error .tooDeep

/-- So are the members behind the first. -/
structure MembersReadAs (members ws : List (String × Value)) (ts : List Token) : Prop where
  all_append : ∀ rest, all (writeMembers members ++ '\x7d' :: rest)
    = (all rest).map (fun us => ts ++ .closeObject :: us)
  run_append : ∀ acc frames more, frames.length < depthLimit →
    (Reader.afterMember acc frames).run (ts ++ .closeObject :: more)
      = if frames.length + (membersDepth members + 1) ≤ depthLimit then
          (Reader.receive (.object (ws.foldl (fun d m => Dictionary.insert m.1 m.2 d) acc)) frames).run more
        else .error .tooDeep

/-- A text is not cut into tokens, whatever stands behind it. -/
def Uncut (cs : List Char) : Prop :=
  ∃ fault, ∀ rest, Delimited rest → all (cs ++ rest) = .error fault

theorem delimited_writeItems (items : List Value) (rest : List Char) :
    Delimited (writeItems items ++ ']' :: rest) := by
  cases items with
  | nil => exact delimited_cons (.inr (.inl rfl)) rest
  | cons v items => exact delimited_cons (.inl rfl) _

theorem delimited_writeMembers (members : List (String × Value)) (rest : List Char) :
    Delimited (writeMembers members ++ '\x7d' :: rest) := by
  cases members with
  | nil => exact delimited_cons (.inr (.inr rfl)) rest
  | cons m members => exact delimited_cons (.inl rfl) _

/-! ## Values without parts -/

theorem readAs_of_token {v w : Value} {t : Token}
    (hall : ∀ rest, Delimited rest → all (write v ++ rest) = (all rest).map (t :: ·))
    (hstep : ∀ frames, (Reader.value frames).step t = .ok (Reader.receive w frames))
    (hdepth : v.depth = 0) (ht : t ≠ .closeArray) : ReadAs v w [t] where
  all_append rest hrest := hall rest hrest
  run_append frames more hframes := by
    rw [hdepth, Nat.add_zero, if_pos hframes, List.cons_append, Reader.run_cons, hstep]
    rfl
  begins := ⟨t, [], rfl, ht⟩

theorem readAs_null : ReadAs .null .null [.scalar .null] :=
  readAs_of_token (fun rest _ => by rw [write]; exact Token.all_null rest) (fun _ => rfl) rfl nofun

theorem readAs_bool (b : Bool) : ReadAs (.bool b) (.bool b) [.scalar (.bool b)] :=
  readAs_of_token (fun rest _ => by rw [write]; exact Token.all_bool b rest) (fun _ => rfl) rfl nofun

theorem readAs_string (s : String) : ReadAs (.string s) (.string s) [.string s] :=
  readAs_of_token (fun rest _ => by rw [write]; exact Token.all_writeString s rest)
    (fun _ => rfl) rfl nofun

theorem uncut_or_readAs_number (x : Number) :
    Uncut (write (.number x)) ∨ ∃ w ts, ReadAs (.number x) w ts := by
  obtain ⟨o, ho⟩ := Token.exists_all_writeNumber x
  rw [← show write (.number x) = writeNumber x by rw [write]] at ho
  cases o with
  | error fault => exact .inl ⟨fault, ho⟩
  | ok n => exact .inr ⟨.number n, _, readAs_of_token ho (fun _ => rfl) rfl (by simp)⟩

/-! ## Arrays -/

section Arrays

variable {v w : Value} {items ws : List Value} {ts us : List Token}

theorem ItemsReadAs.nil : ItemsReadAs [] [] [] where
  all_append rest := Token.all_closeArray rest
  run_append acc frames more hframes := by
    rw [if_pos (show frames.length + (itemsDepth [] + 1) ≤ depthLimit from hframes),
      List.nil_append, Reader.run_cons, List.append_nil]
    rfl

theorem ItemsReadAs.cons (hv : ReadAs v w ts) (h : ItemsReadAs items ws us) :
    ItemsReadAs (v :: items) (w :: ws) (.comma :: (ts ++ us)) where
  all_append rest := by
    rw [writeItems_cons_append, Token.all_comma, hv.all_append _ (delimited_writeItems items rest),
      h.all_append]
    cases all rest <;> simp [Except.map]
  run_append acc frames more hframes := by
    have hstep : (Reader.afterItem acc frames).step .comma = .ok (.value (.array acc :: frames)) := rfl
    have hw : Reader.receive w (.array acc :: frames) = .afterItem (w :: acc) frames := rfl
    rw [List.cons_append, List.append_assoc, Reader.run_cons, hstep, Except.bind,
      hv.run_append (.array acc :: frames) _ hframes, hw, h.run_append _ _ _ hframes,
      List.reverse_cons, List.append_assoc, List.length_cons, itemsDepth]
    exact ite_ite_of_iff (by omega)

theorem readAs_array_nil : ReadAs (.array []) (.array []) [.openArray, .closeArray] where
  all_append rest _ := by
    rw [write_array_nil]
    show all ('[' :: ']' :: rest) = _
    rw [Token.all_openArray, Token.all_closeArray]
    cases all rest <;> rfl
  run_append frames more _ := by
    rw [List.cons_append, Reader.run_openArray]
    rfl
  begins := ⟨_, _, rfl, nofun⟩

theorem readAs_array_cons (hv : ReadAs v w ts) (h : ItemsReadAs items ws us) :
    ReadAs (.array (v :: items)) (.array (w :: ws)) (.openArray :: (ts ++ (us ++ [.closeArray]))) where
  all_append rest _ := by
    rw [write_array_cons_append, Token.all_openArray,
      hv.all_append _ (delimited_writeItems items rest), h.all_append]
    cases all rest <;> simp [Except.map]
  run_append frames more _ := by
    have hw : Reader.receive w (.array [] :: frames) = .afterItem [w] frames := rfl
    rw [List.cons_append, Reader.run_openArray]
    split
    · next hframes =>
      obtain ⟨t, ts', rfl, ht⟩ := hv.begins
      rw [List.append_assoc, List.append_assoc, List.singleton_append, List.cons_append,
        Reader.run_firstItem ht, ← List.cons_append, hv.run_append (.array [] :: frames) _ hframes, hw,
        h.run_append _ _ _ hframes, List.length_cons, Value.depth, itemsDepth]
      exact ite_ite_of_iff (by omega)
    · next hframes => rw [if_neg (by rw [Value.depth]; omega)]
  begins := ⟨_, _, rfl, nofun⟩

end Arrays

/-! ## Objects -/

section Objects

variable {v w : Value} {members ws : List (String × Value)} {ts us : List Token}

theorem all_writeMember (name : String) (hv : ReadAs v w ts) {rest : List Char} (hrest : Delimited rest) :
    all (writeMember (name, v) ++ rest) = (all rest).map (.string name :: .colon :: ts ++ ·) := by
  rw [writeMember_append, Token.all_writeString, Token.all_colon, hv.all_append rest hrest]
  cases all rest <;> rfl

theorem MembersReadAs.nil : MembersReadAs [] [] [] where
  all_append rest := Token.all_closeObject rest
  run_append acc frames more hframes := by
    rw [if_pos (show frames.length + (membersDepth [] + 1) ≤ depthLimit from hframes)]
    exact Reader.run_cons_of_step rfl more

theorem MembersReadAs.cons (name : String) (hv : ReadAs v w ts) (h : MembersReadAs members ws us) :
    MembersReadAs ((name, v) :: members) ((name, w) :: ws)
      (.comma :: .string name :: .colon :: (ts ++ us)) where
  all_append rest := by
    rw [writeMembers_cons_append, Token.all_comma,
      all_writeMember name hv (delimited_writeMembers members rest), h.all_append]
    cases all rest <;> simp [Except.map]
  run_append acc frames more hframes := by
    have hcomma : (Reader.afterMember acc frames).step .comma = .ok (.nextName acc frames) := rfl
    have hw : Reader.receive w (.object acc name :: frames)
      = .afterMember (Dictionary.insert name w acc) frames := rfl
    rw [List.cons_append, List.cons_append, List.cons_append, List.append_assoc,
      Reader.run_cons_of_step hcomma, Reader.run_name rfl,
      hv.run_append (.object acc name :: frames) _ hframes, hw, h.run_append _ _ _ hframes,
      List.foldl_cons, List.length_cons, membersDepth]
    exact ite_ite_of_iff (by omega)

theorem readAs_object_nil : ReadAs (.object []) (.object []) [.openObject, .closeObject] where
  all_append rest _ := by
    rw [write_object_nil]
    show all ('\x7b' :: '\x7d' :: rest) = _
    rw [Token.all_openObject, Token.all_closeObject]
    cases all rest <;> rfl
  run_append frames more _ := by
    rw [List.cons_append, Reader.run_openObject]
    rfl
  begins := ⟨_, _, rfl, nofun⟩

theorem readAs_object_cons (name : String) (hv : ReadAs v w ts) (h : MembersReadAs members ws us) :
    ReadAs (.object ((name, v) :: members)) (.object (Dictionary.ofList ((name, w) :: ws)))
      (.openObject :: .string name :: .colon :: (ts ++ (us ++ [.closeObject]))) where
  all_append rest _ := by
    rw [write_object_cons_append, Token.all_openObject,
      all_writeMember name hv (delimited_writeMembers members rest), h.all_append]
    cases all rest <;> simp [Except.map]
  run_append frames more _ := by
    have hw : Reader.receive w (.object [] name :: frames)
      = .afterMember (Dictionary.insert name w []) frames := rfl
    rw [List.cons_append, Reader.run_openObject]
    split
    · next hframes =>
      rw [List.cons_append, List.cons_append, List.append_assoc, List.append_assoc,
        List.singleton_append, Reader.run_name rfl, hv.run_append (.object [] name :: frames) _ hframes,
        hw, h.run_append _ _ _ hframes, List.length_cons, Value.depth, membersDepth]
      exact ite_ite_of_iff (by omega)
    · next hframes => rw [if_neg (by rw [Value.depth]; omega)]
  begins := ⟨_, _, rfl, nofun⟩

end Objects

/-! ## Any value -/

section Uncut

variable {name : String} {v : Value} {items : List Value} {members : List (String × Value)}

/-- The items behind the first are not cut into tokens. -/
def ItemsUncut (items : List Value) : Prop :=
  ∃ fault, ∀ rest, all (writeItems items ++ ']' :: rest) = .error fault

/-- Nor are the members behind the first. -/
def MembersUncut (members : List (String × Value)) : Prop :=
  ∃ fault, ∀ rest, all (writeMembers members ++ '\x7d' :: rest) = .error fault

/-- A text of a value and more is not cut if either is not. -/
theorem exists_error_append {tail : List Char → List Char} (htail : ∀ rest, Delimited (tail rest))
    (h : Uncut (write v) ∨
      (∃ w ts, ReadAs v w ts) ∧ ∃ fault, ∀ rest, all (tail rest) = .error fault) :
    ∃ fault, ∀ rest, all (write v ++ tail rest) = .error fault := by
  obtain ⟨fault, hv⟩ | ⟨⟨w, ts, hv⟩, fault, ht⟩ := h
  · exact ⟨fault, fun rest => hv _ (htail rest)⟩
  · exact ⟨fault, fun rest => by rw [hv.all_append _ (htail rest), ht]; rfl⟩

theorem ItemsUncut.cons (h : Uncut (write v) ∨ (∃ w ts, ReadAs v w ts) ∧ ItemsUncut items) :
    ItemsUncut (v :: items) := by
  obtain ⟨fault, h⟩ := exists_error_append (delimited_writeItems items) h
  refine ⟨fault, fun rest => ?_⟩
  rw [writeItems_cons_append, Token.all_comma, h]
  rfl

theorem uncut_array_cons (h : Uncut (write v) ∨ (∃ w ts, ReadAs v w ts) ∧ ItemsUncut items) :
    Uncut (write (.array (v :: items))) := by
  obtain ⟨fault, h⟩ := exists_error_append (delimited_writeItems items) h
  refine ⟨fault, fun rest _ => ?_⟩
  rw [write_array_cons_append, Token.all_openArray, h]
  rfl

theorem MembersUncut.cons (h : Uncut (write v) ∨ (∃ w ts, ReadAs v w ts) ∧ MembersUncut members) :
    MembersUncut ((name, v) :: members) := by
  obtain ⟨fault, h⟩ := exists_error_append (delimited_writeMembers members) h
  refine ⟨fault, fun rest => ?_⟩
  rw [writeMembers_cons_append, Token.all_comma, writeMember_append, Token.all_writeString,
    Token.all_colon, h]
  rfl

theorem uncut_object_cons (h : Uncut (write v) ∨ (∃ w ts, ReadAs v w ts) ∧ MembersUncut members) :
    Uncut (write (.object ((name, v) :: members))) := by
  obtain ⟨fault, h⟩ := exists_error_append (delimited_writeMembers members) h
  refine ⟨fault, fun rest _ => ?_⟩
  rw [write_object_cons_append, Token.all_openObject, writeMember_append, Token.all_writeString,
    Token.all_colon, h]
  rfl

end Uncut

-- By induction on the value: the text of an array or object is not cut from the first part on that is
-- not, and if all are cut, the tokens of the parts are read one after the other.
mutual

/-- **A value that was written is read**, wherever it stands, or is not even cut. -/
theorem uncut_or_readAs : ∀ v : Value, Uncut (write v) ∨ ∃ w ts, ReadAs v w ts
  | .null => .inr ⟨_, _, readAs_null⟩
  | .bool b => .inr ⟨_, _, readAs_bool b⟩
  | .number x => uncut_or_readAs_number x
  | .string s => .inr ⟨_, _, readAs_string s⟩
  | .array [] => .inr ⟨_, _, readAs_array_nil⟩
  | .array (v :: items) => by
    obtain hv | ⟨w, ts, hv⟩ := uncut_or_readAs v
    · exact .inl (uncut_array_cons (.inl hv))
    · obtain hitems | ⟨ws, us, hitems⟩ := itemsUncut_or_itemsReadAs items
      · exact .inl (uncut_array_cons (.inr ⟨⟨w, ts, hv⟩, hitems⟩))
      · exact .inr ⟨_, _, readAs_array_cons hv hitems⟩
  | .object [] => .inr ⟨_, _, readAs_object_nil⟩
  | .object ((name, v) :: members) => by
    obtain hv | ⟨w, ts, hv⟩ := uncut_or_readAs v
    · exact .inl (uncut_object_cons (.inl hv))
    · obtain hmembers | ⟨ws, us, hmembers⟩ := membersUncut_or_membersReadAs members
      · exact .inl (uncut_object_cons (.inr ⟨⟨w, ts, hv⟩, hmembers⟩))
      · exact .inr ⟨_, _, readAs_object_cons name hv hmembers⟩

theorem itemsUncut_or_itemsReadAs :
    ∀ items : List Value, ItemsUncut items ∨ ∃ ws ts, ItemsReadAs items ws ts
  | [] => .inr ⟨_, _, .nil⟩
  | v :: items => by
    obtain hv | ⟨w, ts, hv⟩ := uncut_or_readAs v
    · exact .inl (.cons (.inl hv))
    · obtain hitems | ⟨ws, us, hitems⟩ := itemsUncut_or_itemsReadAs items
      · exact .inl (.cons (.inr ⟨⟨w, ts, hv⟩, hitems⟩))
      · exact .inr ⟨_, _, .cons hv hitems⟩

theorem membersUncut_or_membersReadAs :
    ∀ members : List (String × Value), MembersUncut members ∨ ∃ ws ts, MembersReadAs members ws ts
  | [] => .inr ⟨_, _, .nil⟩
  | (name, v) :: members => by
    obtain hv | ⟨w, ts, hv⟩ := uncut_or_readAs v
    · exact .inl (.cons (.inl hv))
    · obtain hmembers | ⟨ws, us, hmembers⟩ := membersUncut_or_membersReadAs members
      · exact .inl (.cons (.inr ⟨⟨w, ts, hv⟩, hmembers⟩))
      · exact .inr ⟨_, _, .cons name hv hmembers⟩

end

/-! ## Whole texts -/

/-- A text that was written is read if it is not too deep. -/
theorem ReadAs.ofBytes_toBytes {v w : Value} {ts : List Token} (h : ReadAs v w ts) :
    ofBytes (toBytes v) = if v.depth ≤ depthLimit then .ok w else .error .tooDeep := by
  have hall : all (write v) = .ok ts := by
    have := h.all_append [] delimited_nil
    rwa [List.append_nil, all, Except.map, List.append_nil] at this
  have hrun := h.run_append [] [] (Nat.zero_le _)
  rw [List.append_nil, List.length_nil, Nat.zero_add] at hrun
  rw [ofBytes, toBytes, Utf8.decode?_encode]
  show ofChars (write v) = _
  rw [ofChars, hall]
  show ofTokens ts = _
  rw [ofTokens, hrun]
  by_cases hdepth : v.depth ≤ depthLimit
  · rw [if_pos hdepth, if_pos hdepth]
    rfl
  · rw [if_neg hdepth, if_neg hdepth]

/-- **What is read back by itself is read back anywhere**, unless it is too deep there. -/
theorem readAs_of_ofBytes {v : Value} (h : ofBytes (toBytes v) = .ok v) :
    (∃ ts, ReadAs v v ts) ∧ v.depth ≤ depthLimit := by
  obtain ⟨fault, hv⟩ | ⟨w, ts, hv⟩ := uncut_or_readAs v
  · have hall := hv [] delimited_nil
    rw [List.append_nil] at hall
    rw [ofBytes, toBytes, Utf8.decode?_encode] at h
    replace h : ofChars (write v) = .ok v := h
    rw [ofChars, hall] at h
    cases h
  · rw [hv.ofBytes_toBytes] at h
    split at h
    · next hdepth =>
      cases h
      exact ⟨⟨ts, hv⟩, hdepth⟩
    · cases h

end Clipboard.Json
