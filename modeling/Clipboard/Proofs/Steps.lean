import Clipboard.Transfer.Engine

/-!
# Steps that may fail

What succeeds has succeeded in every step, so a result leads back to the results of the steps.
-/

namespace Clipboard

section Except

variable {ε α β : Type}

theorem ok_bind (a : α) (f : α → Except ε β) : ((.ok a : Except ε α) >>= f) = f a := rfl

theorem error_bind (fault : ε) (f : α → Except ε β) :
    ((.error fault : Except ε α) >>= f) = .error fault := rfl

theorem of_bind_eq_ok {x : Except ε α} {f : α → Except ε β} {b : β} (h : (x >>= f) = .ok b) :
    ∃ a, x = .ok a ∧ f a = .ok b := by
  cases x with
  | ok a => exact ⟨a, rfl, h⟩
  | error fault => cases h

theorem of_map_eq_ok {x : Except ε α} {f : α → β} {b : β} (h : x.map f = .ok b) :
    ∃ a, x = .ok a ∧ f a = b := by
  cases x with
  | ok a =>
    cases h
    exact ⟨a, rfl, rfl⟩
  | error fault => cases h

theorem of_mem_mapM {f : α → Except ε β} {as : List α} {bs : List β} (h : as.mapM f = .ok bs) :
    ∀ b ∈ bs, ∃ a ∈ as, f a = .ok b := by
  induction as generalizing bs with
  | nil =>
    cases h
    intro b hb
    cases hb
  | cons a as ih =>
    rw [List.mapM_cons] at h
    obtain ⟨first, hfirst, h⟩ := of_bind_eq_ok h
    obtain ⟨rest, hrest, h⟩ := of_bind_eq_ok h
    cases h
    intro b hb
    rcases List.mem_cons.mp hb with rfl | hmem
    · exact ⟨a, List.mem_cons_self, hfirst⟩
    · obtain ⟨other, hother, hb⟩ := ih hrest b hmem
      exact ⟨other, List.mem_cons_of_mem a hother, hb⟩

/-- If every element has a result, so has the list, and it is made of theirs. -/
theorem exists_mapM {f : α → Except ε β} {as : List α} (h : ∀ a ∈ as, ∃ b, f a = .ok b) :
    ∃ bs, as.mapM f = .ok bs ∧ ∀ a ∈ as, ∀ b, f a = .ok b → b ∈ bs := by
  induction as with
  | nil => exact ⟨[], rfl, fun a ha => by cases ha⟩
  | cons a as ih =>
    obtain ⟨first, hfirst⟩ := h a List.mem_cons_self
    obtain ⟨rest, hrest, hmem⟩ := ih (fun a ha => h a (List.mem_cons_of_mem _ ha))
    refine ⟨first :: rest, by rw [List.mapM_cons, hfirst, hrest]; rfl, ?_⟩
    rintro other hother b hb
    rcases List.mem_cons.mp hother with rfl | hlater
    · rw [hfirst] at hb
      cases hb
      exact List.mem_cons_self
    · exact List.mem_cons_of_mem _ (hmem other hlater b hb)

end Except

namespace Transfer

variable {α β : Type} {memo after : SubtypeMemo}

theorem eq_of_run {x y : Transfer α} (h : ∀ memo, x.run memo = y.run memo) : x = y := by
  cases x
  cases y
  exact congrArg mk (funext h)

instance : LawfulMonad Transfer := by
  refine .mk' Transfer ?_ ?_ ?_
  · intro α x
    refine eq_of_run (fun memo => ?_)
    show (x >>= pure).run memo = x.run memo
    rcases hx : x.run memo with ⟨_ | a, after⟩
    · exact run_bind_of_error hx
    · exact run_bind_of_ok hx
  · intro α β a f
    rfl
  · intro α β γ x f g
    refine eq_of_run (fun memo => ?_)
    rcases hx : x.run memo with ⟨_ | a, after⟩
    · rw [run_bind_of_error (run_bind_of_error hx), run_bind_of_error hx]
    · rw [run_bind, run_bind_of_ok hx, run_bind_of_ok hx, run_bind]

theorem run_map (f : α → β) (x : Transfer α) (memo : SubtypeMemo) :
    (f <$> x).run memo =
      match x.run memo with
      | (.ok a, memo) => (.ok (f a), memo)
      | (.error e, memo) => (.error e, memo) := rfl

theorem of_run_bind {x : Transfer α} {f : α → Transfer β} {b : β}
    (h : (x >>= f).run memo = (.ok b, after)) :
    ∃ a between, x.run memo = (.ok a, between) ∧ (f a).run between = (.ok b, after) := by
  rw [run_bind] at h
  split at h
  · next a between hx => exact ⟨a, between, hx, h⟩
  · cases h

theorem of_run_lift {x : Except Error α} {a : α} (h : (lift x).run memo = (.ok a, after)) :
    x = .ok a := by
  cases x with
  | ok b =>
    cases h
    rfl
  | error err => cases h

end Transfer

end Clipboard
