import Clipboard.Proofs.Handoff.Delivery
import Clipboard.Proofs.Handoff.Dispatcher

/-!
# The slot for the current job is never stale

The slot is written when a job is posted, emptied when the current job is serviced, and cleared at
the end of a task, and between the run of a job and that clearing anything may happen, nested calls
included. What keeps it from holding a job that is over is that a job is only run by its task, which
clears the slot next, or after it was taken from the slot, where it does not come back. `Frames`
says this of what a thread has left to do; with it the `Invariant` of the slot is kept by everything
that may happen.

A call that serves the slot is followed from the turn that takes the job to its return (`Serving`).
-/

namespace Clipboard.Handoff

open Machine (stepsOf taskOf)

variable {posted posted' : List JobId} {current current' : Option JobId} {control rest : List Step}
  {script : Script} {j k : JobId}

/-! ## What threads have left to do -/

/-- A task that may wait: it only calls the dispatcher, or it is that of a posted job. -/
def IsTask (posted : List JobId) (script : Script) : Prop :=
  Calls script ∨ ∃ j ∈ posted, script = taskOf j

/-- What a thread may have left to do, going by the jobs that were posted and by the slot. -/
inductive Frames (posted : List JobId) (current : Option JobId) : List Step → Prop where
  | nil : Frames posted current []
  | free {x : Step} {rest : List Step} : x.isFree = true → Frames posted current rest →
      Frames posted current (x :: rest)
  | post {script : Script} {rest : List Step} : IsTask posted script →
      Frames posted current rest → Frames posted current (.act (.post script) :: rest)
  | posting {j : JobId} {rest : List Step} : Frames posted current rest →
      Frames posted current (.act (.setCurrent j) :: .act (.post (taskOf j)) :: rest)
  /-- A job is run by its task, which then clears the slot. -/
  | task {j : JobId} {label : Option String} {rest : List Step} : j ∈ posted →
      Frames posted current rest →
      Frames posted current (.act (.run j label) :: .act (.clearCurrent j) :: rest)
  | ending {j : JobId} {rest : List Step} : Frames posted current rest →
      Frames posted current (.act (.clearCurrent j) :: rest)
  /-- A job is run that has left the slot. -/
  | serving {j : JobId} {label : Option String} {rest : List Step} : j ∈ posted →
      current ≠ some j → Frames posted current rest →
      Frames posted current (.act (.run j label) :: rest)

theorem IsTask.mono (hposted : posted ⊆ posted') (h : IsTask posted script) :
    IsTask posted' script :=
  h.imp id (fun ⟨j, hj, heq⟩ => ⟨j, hposted hj, heq⟩)

/-- More jobs may be posted, as long as none that has left the slot comes back. -/
theorem Frames.mono (hposted : posted ⊆ posted')
    (hleft : ∀ j ∈ posted, current ≠ some j → current' ≠ some j)
    (h : Frames posted current control) : Frames posted' current' control := by
  induction h with
  | nil => exact .nil
  | free hx _ ih => exact .free hx ih
  | post hscript _ ih => exact .post (hscript.mono hposted) ih
  | posting _ ih => exact .posting ih
  | task hj _ ih => exact .task (hposted hj) ih
  | ending _ ih => exact .ending ih
  | serving hj hne _ ih => exact .serving (hposted hj) (hleft _ hj hne) ih

theorem Frames.of_free {new : List Step} (hnew : ∀ x ∈ new, x.isFree = true)
    (h : Frames posted current rest) : Frames posted current (new ++ rest) := by
  induction new with
  | nil => exact h
  | cons x new ih =>
    exact .free (hnew x List.mem_cons_self) (ih (fun y hy => hnew y (List.mem_cons_of_mem _ hy)))

theorem Frames.of_calls (hscript : Calls script) (h : Frames posted current rest) :
    Frames posted current (stepsOf script rest) := by
  induction hscript with
  | nil => exact h
  | free haction _ ih => exact .free haction ih
  | post htask _ _ ih => exact .post (Or.inl htask) ih
  | posting _ ih => exact .posting ih

theorem Frames.of_task (hscript : IsTask posted script) (h : Frames posted current rest) :
    Frames posted current (stepsOf script rest) := by
  rcases hscript with hcalls | ⟨j, hj, rfl⟩
  · exact .of_calls hcalls h
  · exact .task hj h

theorem Frames.rest_of_free {x : Step} (hx : x.isFree = true)
    (h : Frames posted current (x :: rest)) : Frames posted current rest := by
  cases h with
  | free _ h => exact h
  | post | posting | task | ending | serving => cases hx

theorem Frames.of_post (h : Frames posted current (.act (.post script) :: rest)) :
    IsTask posted script ∧ Frames posted current rest := by
  cases h with
  | free hx => cases hx
  | post hscript h => exact ⟨hscript, h⟩

theorem Frames.of_put (h : Frames posted current (.act (.setCurrent j) :: rest)) :
    ∃ rest', rest = .act (.post (taskOf j)) :: rest' ∧ Frames posted current rest' := by
  cases h with
  | free hx => cases hx
  | posting h => exact ⟨_, rfl, h⟩

theorem Frames.of_clear (h : Frames posted current (.act (.clearCurrent j) :: rest)) :
    Frames posted current rest := by
  cases h with
  | free hx => cases hx
  | ending h => exact h

/-- A job that is run was posted, and if it is in the slot its task clears the slot next. -/
theorem Frames.of_run {label : Option String}
    (h : Frames posted current (.act (.run j label) :: rest)) :
    j ∈ posted ∧ (current = some j → .act (.clearCurrent j) ∈ rest) ∧
      Frames posted current rest := by
  cases h with
  | free hx => cases hx
  | task hj h => exact ⟨hj, fun _ => List.mem_cons_self, .ending h⟩
  | serving hj hne h => exact ⟨hj, fun heq => absurd heq hne, h⟩

/-! ## What a step keeps -/

theorem SlotEffect.isTask {m : Machine} {step : Step} {pending : JobId → Option Conversion}
    {queue : List Script} {new : List Step}
    (heffect : SlotEffect m step pending queue current new)
    (hframes : Frames posted current' (step :: rest))
    (hqueue : ∀ script ∈ m.queue, IsTask posted script) :
    ∀ script ∈ queue, IsTask posted script := by
  intro script hscript
  cases heffect with
  | stay | take | again | start | put | clear => exact hqueue script hscript
  | pop _ hq => exact hqueue script (hq ▸ List.mem_cons_of_mem _ hscript)
  | post =>
    rcases List.mem_append.mp hscript with hmem | hmem
    · exact hqueue script hmem
    · exact List.mem_singleton.mp hmem ▸ hframes.of_post.1

/-- **The frames of the thread that takes a step.** -/
theorem SlotEffect.frames {m : Machine} {step : Step} {pending : JobId → Option Conversion}
    {queue : List Script} {new : List Step}
    (heffect : SlotEffect m step pending queue current new)
    (hframes : Frames posted m.current (step :: rest))
    (hqueue : ∀ script ∈ m.queue, IsTask posted script)
    (hconversions : ∀ j c, m.pending? j = some c → Calls c.script)
    (hlast : ∀ j, m.current = some j → posted.getLast? = some j)
    (hfresh : ∀ j ∈ Dispatcher.putting step, j ∉ posted) :
    Frames (posted ++ Dispatcher.putting step) current (new ++ rest) := by
  cases heffect with
  | stay hfree hnew =>
    rw [putting_of_isFree hfree, List.append_nil]
    exact .of_free hnew (hframes.rest_of_free hfree)
  | @pop _ script _ new hfree hq hnew =>
    rw [putting_of_isFree hfree, List.append_nil, ← stepsOf_append]
    exact .of_task (hqueue script (hq ▸ List.mem_cons_self))
      (.of_free hnew (hframes.rest_of_free hfree))
  | @take j label hj =>
    rw [putting_of_isFree rfl, List.append_nil]
    -- the job is no longer in the slot when it is run
    have hmem : j ∈ posted := List.mem_of_getLast? (hlast j hj)
    exact .serving hmem (by simp) ((hframes.rest_of_free rfl).mono (List.Subset.refl _) (by simp))
  | post =>
    simp only [Dispatcher.putting, List.append_nil]
    exact hframes.of_post.2
  | again =>
    simp only [Dispatcher.putting, List.append_nil]
    exact .free rfl hframes.of_run.2.2
  | start hc =>
    simp only [Dispatcher.putting, List.append_nil, ← stepsOf_append]
    exact .of_calls (hconversions _ _ hc) (.free rfl (.free rfl hframes.of_run.2.2))
  | @put j =>
    obtain ⟨rest', rfl, hrest⟩ := hframes.of_put
    have hmem : j ∈ posted ++ [j] := List.mem_append_right _ (List.mem_singleton_self j)
    refine .post (Or.inr ⟨j, hmem, rfl⟩) (hrest.mono (List.subset_append_left _ _) ?_)
    rintro k hk - ⟨⟩
    exact hfresh j (List.mem_singleton_self j) hk
  | @clear j =>
    simp only [Dispatcher.putting, List.append_nil]
    refine hframes.of_clear.mono (List.Subset.refl _) (fun k _ hne heq => ?_)
    split at heq
    · cases heq
    · exact hne heq

/-! ## The invariant -/

namespace Dispatcher

variable {d d' : Dispatcher} {i : Nat} {step : Step}

/-- What holds of the slot, and of all that may be done about it. -/
structure Invariant (d : Dispatcher) : Prop where
  frames : ∀ control ∈ d.threads, Frames d.posted d.machine.current control
  queue : ∀ script ∈ d.machine.queue, IsTask d.posted script
  conversions : ∀ j c, d.machine.pending? j = some c → Calls c.script
  /-- A job that was not posted has not been run. -/
  unposted : ∀ j < d.machine.jobs.length, j ∉ d.posted → d.machine.isPending j = true
  last : ∀ j, d.machine.current = some j → d.posted.getLast? = some j
  current : ∀ j, d.machine.current = some j → d.machine.isPending j = true ∨ d.Executing j

theorem Invariant.initial : Invariant initial where
  frames := fun _ hcontrol => absurd hcontrol List.not_mem_nil
  queue := fun _ hscript => absurd hscript List.not_mem_nil
  conversions := fun _ _ hpending => by cases hpending
  unposted := fun _ hlt => absurd hlt (Nat.not_lt_zero _)
  last := fun _ hcurrent => by cases hcurrent
  current := fun _ hcurrent => by cases hcurrent

theorem length_jobs_turn (d : Dispatcher) (i : Nat) (step : Step) (rest : List Step) :
    (d.turn i step rest).machine.jobs.length = d.machine.jobs.length := by
  obtain ⟨new, -, heffect⟩ :=
    effect_step (m := { d.machine with control := step :: rest }) rfl
  show ({ d.machine with control := step :: rest } : Machine).step.jobs.length = _
  generalize ({ d.machine with control := step :: rest } : Machine).step.jobs = jobs at heffect
  generalize ({ d.machine with control := step :: rest } : Machine).step.queue = queue at heffect
  cases heffect with
  | plain | pop | post | again => rfl
  | start | finish => exact List.length_modify ..

/-- What a turn does to the slot and leaves to the thread. -/
theorem turn_effect (d : Dispatcher) (i : Nat) (step : Step) (rest : List Step) :
    ∃ new, (d.turn i step rest).threads = d.threads.set i (new ++ rest) ∧
      SlotEffect { d.machine with control := step :: rest } step
        (d.turn i step rest).machine.pending? (d.turn i step rest).machine.queue
        (d.turn i step rest).machine.current new := by
  obtain ⟨new, hcontrol, heffect⟩ :=
    slotEffect_step (m := { d.machine with control := step :: rest }) rfl
  exact ⟨new, congrArg (d.threads.set i) hcontrol, heffect⟩

/-- A task is executed until the thread takes the step that clears the slot. -/
theorem Executing.of_set {new : List Step} (h : d.Executing j)
    (hi : d.threads[i]? = some control)
    (hnew : .act (.clearCurrent j) ∈ control → .act (.clearCurrent j) ∈ new)
    (hthreads : d'.threads = d.threads.set i new) : d'.Executing j := by
  obtain ⟨hlt, hget⟩ := List.getElem?_eq_some_iff.mp hi
  obtain ⟨control', hmem, hclear⟩ := h
  obtain ⟨i', hlt', rfl⟩ := List.getElem_of_mem hmem
  unfold Executing
  rw [hthreads]
  by_cases hii : i = i'
  · subst hii
    refine ⟨new, List.mem_set hlt new, hnew ?_⟩
    rwa [← hget]
  · refine ⟨_, List.getElem_mem (l := d.threads.set i new) (by simpa using hlt'), ?_⟩
    rwa [List.getElem_set_ne hii]

theorem Invariant.turn (h : Invariant d) (hi : d.threads[i]? = some (step :: rest))
    (hput : ∀ j ∈ putting step, j < d.machine.jobs.length ∧ j ∉ d.posted) :
    Invariant (d.turn i step rest) := by
  obtain ⟨new, hthreads, heffect⟩ := d.turn_effect i step rest
  have hframes := h.frames _ (List.mem_of_getElem? hi)
  have hsubset : d.posted ⊆ (d.turn i step rest).posted := List.subset_append_left _ _
  refine ⟨?frames, ?queue, ?conversions, ?unposted, ?last, ?current⟩
  case frames =>
    rw [hthreads]
    intro control hmem
    rcases List.mem_or_eq_of_mem_set hmem with hmem | rfl
    · refine (h.frames control hmem).mono hsubset (fun k hk hne heq => ?_)
      rcases heffect.current_cases heq with hputs | ⟨hheld, -, -⟩
      · exact (hput k (hputs ▸ List.mem_singleton_self k)).2 hk
      · exact hne hheld
    · exact heffect.frames hframes h.queue h.conversions h.last
        (fun j hj => (hput j hj).2)
  case queue =>
    intro script hscript
    exact (heffect.isTask hframes h.queue script hscript).mono hsubset
  case conversions =>
    intro k c hc
    rcases heffect.pending_cases k with hsame | ⟨hnone, -⟩
    · exact h.conversions k c (hsame ▸ hc)
    · rw [hnone] at hc
      cases hc
  case unposted =>
    intro k hlt hk
    rw [length_jobs_turn] at hlt
    rcases heffect.pending_cases k with hsame | ⟨-, label, rfl⟩
    · unfold Machine.isPending
      rw [hsame]
      exact h.unposted k hlt (fun hin => hk (hsubset hin))
    · exact absurd (hsubset hframes.of_run.1) hk
  case last =>
    intro k hk
    show (d.posted ++ putting step).getLast? = some k
    rcases heffect.current_cases hk with hputs | ⟨hheld, hnone, -⟩
    · rw [hputs, List.getLast?_concat]
    · rw [hnone, List.append_nil]
      exact h.last k hheld
  case current =>
    intro k hk
    have hpending := heffect.pending_cases k
    unfold Machine.isPending
    rcases heffect.current_cases hk with hputs | ⟨hheld, -, hclear⟩
    · obtain ⟨hlt, hfresh⟩ := hput k (hputs ▸ List.mem_singleton_self k)
      rcases hpending with hsame | ⟨-, label, rfl⟩
      · rw [hsame]
        exact Or.inl (h.unposted k hlt hfresh)
      · cases hputs
    · rcases hpending with hsame | ⟨-, label, rfl⟩
      · rw [hsame]
        refine (h.current k hheld).imp id (fun hexec => hexec.of_set hi (fun hin => ?_) hthreads)
        exact List.mem_append_right _ (List.mem_of_ne_of_mem hclear hin)
      -- the job begins in its task, which is to clear the slot next
      · obtain ⟨hlt, -⟩ := List.getElem?_eq_some_iff.mp hi
        refine Or.inr ⟨_, hthreads ▸ List.mem_set hlt _, ?_⟩
        exact List.mem_append_right _ (hframes.of_run.2.1 hheld)

/-- Threads may change, as long as what is left to do stays. -/
theorem Invariant.of_threads {threads : List (List Step)} (h : Invariant d)
    (hframes : ∀ control ∈ threads, Frames d.posted d.machine.current control)
    (hexecuting : ∀ k, d.Executing k → Executing { d with threads } k) :
    Invariant { d with threads } where
  frames := hframes
  queue := h.queue
  conversions := h.conversions
  unposted := h.unposted
  last := h.last
  current := fun k hk => (h.current k hk).imp id (hexecuting k)

theorem Invariant.call (h : Invariant d) (hscript : Calls script)
    (hi : d.threads[i]? = some control) :
    Invariant { d with threads := d.threads.set i (stepsOf script control) } := by
  refine h.of_threads ?_ (fun k hexec => hexec.of_set hi (List.mem_append_right _) rfl)
  intro control' hmem
  rcases List.mem_or_eq_of_mem_set hmem with hmem | rfl
  · exact h.frames control' hmem
  · exact .of_calls hscript (h.frames control (List.mem_of_getElem? hi))

theorem Invariant.thread (h : Invariant d) : Invariant { d with threads := d.threads ++ [[]] } := by
  refine h.of_threads ?_ ?_
  · intro control hmem
    rcases List.mem_append.mp hmem with hmem | hmem
    · exact h.frames control hmem
    · exact List.mem_singleton.mp hmem ▸ .nil
  · rintro k ⟨control, hmem, hclear⟩
    exact ⟨control, List.mem_append_left _ hmem, hclear⟩

theorem Invariant.create {c : Conversion} (h : Invariant d) (hc : Calls c.script) :
    Invariant { d with toSystem := d.toSystem.create c } where
  frames := h.frames
  queue := h.queue
  conversions := by
    intro k c' hpending
    rcases Nat.lt_trichotomy k d.machine.jobs.length with hlt | rfl | hgt
    · exact h.conversions k c' ((pending?_newJob_of_lt hlt).symm.trans hpending)
    · cases (pending?_newJob_length d.machine c).symm.trans hpending
      exact hc
    · have hlt : k < (d.machine.newJob c).jobs.length := lt_length_of_pending? hpending
      rw [length_newJob] at hlt
      exact absurd (Nat.le_of_lt_succ hlt) (Nat.not_le_of_lt hgt)
  unposted := by
    intro k hk hnot
    have hlt : k < d.machine.jobs.length + 1 := (length_newJob d.machine c) ▸ hk
    show ((d.machine.newJob c).pending? k).isSome = true
    rcases Nat.lt_succ_iff_lt_or_eq.mp hlt with hlt | rfl
    · rw [pending?_newJob_of_lt hlt]
      exact h.unposted k hlt hnot
    · rw [pending?_newJob_length]
      rfl
  last := h.last
  current := by
    intro k hk
    refine (h.current k hk).imp (fun hpending => ?_) id
    obtain ⟨c', hc'⟩ := Option.isSome_iff_exists.mp hpending
    show ((d.machine.newJob c).pending? k).isSome = true
    rw [pending?_newJob_of_lt (lt_length_of_pending? hc')]
    exact hpending

/-- What the owner of the data does not look at may change. -/
theorem Invariant.of_machine {m : Machine} {history : History} (h : Invariant d)
    (hpending : m.pending? = d.machine.pending?) (hlength : m.jobs.length = d.machine.jobs.length)
    (hqueue : m.queue = d.machine.queue) (hcurrent : m.current = d.machine.current) :
    Invariant { d with machine := m, history } where
  frames := fun control hmem => hcurrent ▸ h.frames control hmem
  queue := fun script hmem => h.queue script (hqueue ▸ hmem)
  conversions := fun k c hc => h.conversions k c (hpending ▸ hc)
  unposted := by
    intro k hk hnot
    show (m.pending? k).isSome = true
    rw [hpending]
    exact h.unposted k (hlength ▸ hk) hnot
  last := fun k hk => h.last k (hcurrent ▸ hk)
  current := by
    intro k hk
    show (m.pending? k).isSome = true ∨ _
    rw [hpending]
    exact h.current k (hcurrent ▸ hk)

theorem current_receive (m : Machine) (j : JobId) : (m.receive j).2.current = m.current := by
  rcases receive_cases m j with ⟨job, data, -, -, hreceive⟩ | ⟨hmachine, -⟩
  · rw [hreceive]
  · rw [hmachine]

theorem Invariant.receive (h : Invariant d) (j : JobId) :
    Invariant { d with toSystem := d.toSystem.receive j } := by
  rcases receive_cases d.machine j with ⟨job, data, -, -, hreceive⟩ | ⟨hmachine, -⟩
  · refine h.of_machine ?_ ?_ ?_ (current_receive d.machine j)
    · exact pending?_modify (j := j) (f := fun job => { job with inbox := none })
        (by rw [hreceive]) (fun _ => rfl)
    · rw [hreceive]
      exact List.length_modify ..
    · rw [hreceive]
  · rw [System.receive, hmachine]
    exact h.of_machine rfl rfl rfl rfl

theorem Invariant.next (h : Invariant d) (hnext : Next d d') : Invariant d' := by
  cases hnext with
  | turn hi hput => exact h.turn hi hput
  | call hscript hi => exact h.call hscript hi
  | thread => exact h.thread
  | create hc => exact h.create hc
  | receive j => exact h.receive j
  | release j =>
    exact h.of_machine (pending?_modify (f := fun job => { job with isKept := false }) rfl
      (fun _ => rfl)) (List.length_modify ..) rfl rfl
  | dropReceiver j =>
    exact h.of_machine (pending?_modify (f := fun job => { job with hasReceiver := false }) rfl
      (fun _ => rfl)) (List.length_modify ..) rfl rfl
  | forget => exact h.of_machine rfl rfl rfl rfl

theorem invariant_of_reachable (h : Reachable d) : Invariant d := by
  induction h with
  | initial => exact .initial
  | next _ hnext ih => exact ih.next hnext

/-! ## How a job leaves the slot -/

/-- How a job leaves the slot. -/
inductive Leaves (d : Dispatcher) (k : JobId) (d' : Dispatcher) : Prop where
  /-- Another job is posted. -/
  | replaced {j : JobId} : d'.posted = d.posted ++ [j] → d'.machine.current = some j → Leaves d k d'
  /-- It is serviced: the thread that takes it runs it next. -/
  | taken {i : Nat} {label : Option String} {rest : List Step} :
      d.threads[i]? = some (.act (.service label) :: rest) →
      d'.threads[i]? = some (.act (.run k label) :: rest) → d'.machine.current = none →
      Leaves d k d'
  /-- Its own task comes to its end. -/
  | cleared {i : Nat} {rest : List Step} : d.threads[i]? = some (.act (.clearCurrent k) :: rest) →
      d'.threads[i]? = some rest → d'.machine.current = none → Leaves d k d'

theorem Next.leaves (hnext : Next d d') (hk : d.machine.current = some k)
    (hgone : d'.machine.current ≠ some k) : Leaves d k d' := by
  cases hnext with
  | call | thread | create | release | dropReceiver | forget => exact absurd hk hgone
  | receive j => exact absurd ((current_receive d.machine j).trans hk) hgone
  | @turn i step rest hi hput =>
    obtain ⟨new, hthreads, heffect⟩ := d.turn_effect i step rest
    obtain ⟨hlt, -⟩ := List.getElem?_eq_some_iff.mp hi
    have hposted : (d.turn i step rest).posted = d.posted ++ putting step := rfl
    have hcontrol : (d.turn i step rest).threads[i]? = some (new ++ rest) :=
      hthreads ▸ List.getElem?_set_self hlt
    generalize d.turn i step rest = d' at hgone hposted hcontrol heffect ⊢
    generalize d'.machine.pending? = pending at heffect
    generalize d'.machine.queue = queue at heffect
    generalize hcurrent : d'.machine.current = current at heffect hgone
    cases heffect with
    | stay | pop | post | again | start => exact absurd hk hgone
    | put => exact .replaced hposted hcurrent
    | take hj =>
      cases hj.symm.trans hk
      exact .taken hi hcontrol hcurrent
    | @clear j =>
      by_cases hj : d.machine.current = some j
      · cases hj.symm.trans hk
        exact .cleared hi hcontrol (hcurrent.trans (if_pos hj))
      · exact absurd ((if_neg hj).trans hk) hgone

/-! ## Serving the slot -/

/-- A call of a thread that serves the slot is going on, from the turn that looks into the slot to
the return to what the thread has left to do after it. The call has begun these jobs itself; what is
begun by nested calls, or by other threads, is not among them. -/
inductive Serving (i : Nat) (label : Option String) (rest : List Step) (start : Dispatcher) :
    List JobId → Dispatcher → Prop where
  | take : start.threads[i]? = some (.act (.service label) :: rest) →
      Serving i label rest start [] (start.turn i (.act (.service label)) rest)
  /-- The call runs a job. -/
  | run {begun : List JobId} {d : Dispatcher} {j : JobId} {label' : Option String} :
      Serving i label rest start begun d →
      d.threads[i]? = some (.act (.run j label') :: rest) →
      Serving i label rest start (if d.machine.isPending j then begun ++ [j] else begun)
        (d.turn i (.act (.run j label')) rest)
  /-- Something else happens, and the call does not return. -/
  | next {begun : List JobId} {d d' : Dispatcher} : Serving i label rest start begun d →
      Next d d' → d'.threads[i]? ≠ some rest →
      (∀ j label', d.threads[i]? = some (.act (.run j label') :: rest) →
        d'.threads[i]? = d.threads[i]?) →
      Serving i label rest start begun d'

/-- What a thread has left to do that serves the slot. -/
inductive Serves (start : Dispatcher) (label : Option String) (rest : List Step) :
    List JobId → List Step → Prop where
  | taken {j : JobId} : start.machine.current = some j →
      Serves start label rest [] (.act (.run j label) :: rest)
  | idle : Serves start label rest [] (.report label 0 :: rest)
  | converting {j : JobId} {outcome : Except Failure (Option Bytes)} {front : List Step} :
      start.machine.current = some j →
      Serves start label rest [j] (front ++ .finish j outcome :: .report label 1 :: rest)
  | ran {j : JobId} : start.machine.current = some j →
      Serves start label rest [j] (.report label 1 :: rest)

variable {label : Option String} {start : Dispatcher} {begun : List JobId}

theorem getElem?_turn (hi : d.threads[i]? = some (step :: rest)) :
    (d.turn i step rest).threads[i]?
      = some ({ d.machine with control := step :: rest } : Machine).step.control := by
  obtain ⟨hlt, -⟩ := List.getElem?_eq_some_iff.mp hi
  exact List.getElem?_set_self hlt

/-- A turn leaves what stands behind the step. -/
theorem exists_getElem?_turn (hi : d.threads[i]? = some (step :: rest)) :
    ∃ new, (d.turn i step rest).threads[i]? = some (new ++ rest) := by
  obtain ⟨new, hthreads, -⟩ := d.turn_effect i step rest
  obtain ⟨hlt, -⟩ := List.getElem?_eq_some_iff.mp hi
  exact ⟨new, hthreads ▸ List.getElem?_set_self hlt⟩

/-- A thread is left alone, takes a turn, or makes a call. -/
theorem Next.control_cases (hnext : Next d d') (hi : d.threads[i]? = some control) :
    d'.threads[i]? = some control ∨
      (∃ step rest, control = step :: rest ∧ d' = d.turn i step rest) ∨
      System.MayAct control ∧ ∃ script, d'.threads[i]? = some (stepsOf script control) := by
  cases hnext with
  | @turn i' step rest hi' =>
    by_cases hii : i' = i
    · subst hii
      exact Or.inr (Or.inl ⟨step, rest, Option.some.inj (hi.symm.trans hi'), rfl⟩)
    · exact Or.inl ((List.getElem?_set_ne hii).trans hi)
  | @call i' control' script _ hi' hact =>
    by_cases hii : i' = i
    · subst hii
      obtain rfl : control = control' := Option.some.inj (hi.symm.trans hi')
      obtain ⟨hlt, -⟩ := List.getElem?_eq_some_iff.mp hi
      exact Or.inr (Or.inr ⟨hact, script, List.getElem?_set_self hlt⟩)
    · exact Or.inl ((List.getElem?_set_ne hii).trans hi)
  | thread =>
    obtain ⟨hlt, -⟩ := List.getElem?_eq_some_iff.mp hi
    exact Or.inl ((List.getElem?_append_left hlt).trans hi)
  | create | receive | release | dropReceiver | forget => exact Or.inl hi

theorem Serves.length_lt (h : Serves start label rest begun control) :
    rest.length < control.length := by
  cases h with
  | taken | idle | ran => exact Nat.lt_succ_self _
  | converting => simp only [List.length_append, List.length_cons]; omega

theorem Serves.of_take (hi : start.threads[i]? = some (.act (.service label) :: rest)) :
    ∃ control, (start.turn i (.act (.service label)) rest).threads[i]? = some control ∧
      Serves start label rest [] control := by
  refine ⟨_, getElem?_turn hi, ?_⟩
  cases hc : start.machine.current with
  | none =>
    have hstep : ({ start.machine with control := .act (.service label) :: rest } : Machine).step
        = _ := (step_act rfl).trans (perform_service_of_none hc)
    rw [hstep]
    exact .idle
  | some j =>
    have hstep : ({ start.machine with control := .act (.service label) :: rest } : Machine).step
        = _ := (step_act rfl).trans (perform_service_of_some hc)
    rw [hstep]
    exact .taken hc

/-- The call runs no job but the one that it took, and has begun none before. -/
theorem Serves.of_run {label' : Option String} (h : Serves start label rest begun control)
    (hcontrol : control = .act (.run j label') :: rest) :
    begun = [] ∧ label' = label ∧ start.machine.current = some j := by
  cases h with
  | taken hj =>
    cases hcontrol
    exact ⟨rfl, rfl, hj⟩
  | idle | ran => cases hcontrol
  | @converting _ _ front =>
    cases front with
    | nil => cases hcontrol
    | cons x front =>
      have hlength := congrArg List.length hcontrol
      simp only [List.length_append, List.length_cons] at hlength
      omega

theorem Serves.run {label' : Option String} (h : Serves start label rest begun control)
    (hi : d.threads[i]? = some control) (hcontrol : control = .act (.run j label') :: rest) :
    ∃ control', (d.turn i (.act (.run j label')) rest).threads[i]? = some control' ∧
      Serves start label rest (if d.machine.isPending j then begun ++ [j] else begun) control' := by
  obtain ⟨rfl, rfl, hj⟩ := h.of_run hcontrol
  subst hcontrol
  refine ⟨_, getElem?_turn hi, ?_⟩
  unfold Machine.isPending
  cases hp : d.machine.pending? j with
  | none =>
    have hstep : ({ d.machine with control := .act (.run j label') :: rest } : Machine).step
        = _ := (step_act rfl).trans (perform_run_of_none hp)
    rw [hstep]
    exact .idle
  | some c =>
    have hstep : ({ d.machine with control := .act (.run j label') :: rest } : Machine).step
        = _ := (step_act rfl).trans (perform_run_of_some hp)
    rw [hstep]
    exact .converting hj

/-- What is put before the steps that end the conversion leaves them where they are. -/
theorem Serves.next (h : Serves start label rest begun control) (hi : d.threads[i]? = some control)
    (hnext : Next d d') (hreturn : d'.threads[i]? ≠ some rest)
    (hrun : ∀ j label', control = .act (.run j label') :: rest →
      d'.threads[i]? = some control) :
    ∃ control', d'.threads[i]? = some control' ∧ Serves start label rest begun control' := by
  rcases hnext.control_cases hi with hsame | ⟨step, rest', hcons, rfl⟩ | ⟨hact, script, hcall⟩
  · exact ⟨control, hsame, h⟩
  · have hturn := getElem?_turn (hcons ▸ hi)
    cases h with
    | @taken j hj => exact ⟨_, hrun j label rfl, .taken hj⟩
    | idle | ran =>
      cases hcons
      rw [step_report rfl] at hturn
      exact absurd hturn hreturn
    | @converting j outcome front hj =>
      cases front with
      | nil =>
        cases hcons
        rw [step_finish rfl] at hturn
        exact ⟨_, hturn, .ran hj⟩
      | cons x front =>
        have hrest : front ++ .finish j outcome :: .report label 1 :: rest = rest' :=
          (List.cons.inj hcons).2
        subst hrest
        obtain ⟨new, hnew⟩ := exists_getElem?_turn (hcons ▸ hi)
        rw [← List.append_assoc] at hnew
        exact ⟨_, hnew, .converting hj⟩
  · cases h with
    | taken | idle | ran => cases hact
    | @converting j outcome front hj =>
      refine ⟨_, hcall, ?_⟩
      unfold Machine.stepsOf
      rw [← List.append_assoc]
      exact .converting hj

theorem Serving.serves (h : Serving i label rest start begun d) :
    ∃ control, d.threads[i]? = some control ∧ Serves start label rest begun control := by
  induction h with
  | take hi => exact Serves.of_take hi
  | run _ hi ih =>
    obtain ⟨control, hcontrol, hserves⟩ := ih
    exact hserves.run hcontrol (Option.some.inj (hcontrol.symm.trans hi))
  | next _ hnext hreturn hrun ih =>
    obtain ⟨control, hcontrol, hserves⟩ := ih
    refine hserves.next hcontrol hnext hreturn (fun j label' heq => ?_)
    exact (hrun j label' (hcontrol.trans (congrArg some heq))).trans hcontrol

theorem answer_turn (d : Dispatcher) (i : Nat) (label : Option String) (n : Nat)
    (rest : List Step) : (d.turn i (.report label n) rest).machine.answer = n := by
  have hstep : ({ d.machine with control := .report label n :: rest } : Machine).step = _ :=
    step_report rfl
  exact congrArg Machine.answer hstep

/-- The call returns by the turn that reports how many jobs it has begun. -/
theorem Serves.answer {rest' : List Step} (h : Serves start label rest begun control)
    (hi : d.threads[i]? = some control) (hcons : control = step :: rest')
    (hreturn : (d.turn i step rest').threads[i]? = some rest) :
    (d.turn i step rest').machine.answer = begun.length := by
  cases h with
  | idle | ran =>
    cases hcons
    exact answer_turn d i label _ rest
  | taken hj =>
    cases hcons
    obtain ⟨control', hcontrol, hserves⟩ := (Serves.taken hj).run hi rfl
    obtain rfl : control' = rest := Option.some.inj (hcontrol.symm.trans hreturn)
    exact absurd hserves.length_lt (Nat.lt_irrefl _)
  | @converting j outcome front hj =>
    -- what stands behind the step is more than the rest
    obtain ⟨new, hnew⟩ := exists_getElem?_turn (hcons ▸ hi)
    have hlength := congrArg List.length (Option.some.inj (hnew.symm.trans hreturn))
    have hlength' := congrArg List.length hcons
    simp only [List.length_append, List.length_cons] at hlength hlength'
    omega

/-- **What the call returns.** -/
theorem Serving.returns (h : Serving i label rest start begun d) (hnext : Next d d')
    (hreturn : d'.threads[i]? = some rest) :
    d'.machine.answer = begun.length ∧
      ∀ j ∈ begun, begun = [j] ∧ start.machine.current = some j := by
  obtain ⟨control, hi, hserves⟩ := h.serves
  have hlt := hserves.length_lt
  constructor
  · rcases hnext.control_cases hi with hsame | ⟨step, rest', hcons, rfl⟩ | ⟨-, script, hcall⟩
    · obtain rfl : control = rest := Option.some.inj (hsame.symm.trans hreturn)
      exact absurd hlt (Nat.lt_irrefl _)
    · exact hserves.answer hi hcons hreturn
    · have hlength := congrArg List.length (Option.some.inj (hcall.symm.trans hreturn))
      rw [Machine.stepsOf, List.length_append] at hlength
      omega
  · cases hserves with
    | taken | idle => exact fun j hj => absurd hj List.not_mem_nil
    | converting hj | ran hj =>
      intro k hk
      obtain rfl := List.mem_singleton.mp hk
      exact ⟨rfl, hj⟩

/-- **The slot is never stale.** It is empty, or it holds the job that was posted last, and that job
is yet to be run or a thread is in its task. A job leaves the slot only if another is posted, if it
is taken to be run, or at the end of its own task, so servicing a job leaves a newer one where it
is. A call that serves the slot returns yes just if it has begun a job, and then it was one job, the
one that was posted last when the call looked into the slot. -/
theorem slot_never_stale (h : Reachable d) :
    (∀ j, d.machine.current = some j →
      d.posted.getLast? = some j ∧ (d.machine.isPending j = true ∨ d.Executing j)) ∧
    (∀ k d', Next d d' → d.machine.current = some k → d'.machine.current ≠ some k →
      Leaves d k d') ∧
    ∀ i label rest begun d₁ d₂, Serving i label rest d begun d₁ → Next d₁ d₂ →
      d₂.threads[i]? = some rest →
      (d₂.machine.answer ≠ 0 ↔ begun ≠ []) ∧
        ∀ j ∈ begun, begun = [j] ∧ d.posted.getLast? = some j := by
  have hinvariant := invariant_of_reachable h
  refine ⟨fun j hj => ⟨hinvariant.last j hj, hinvariant.current j hj⟩, ?_, ?_⟩
  · exact fun k d' hnext hk hgone => hnext.leaves hk hgone
  · intro i label rest begun d₁ d₂ hserving hnext hreturn
    obtain ⟨hanswer, hbegun⟩ := hserving.returns hnext hreturn
    refine ⟨?_, fun j hj => ⟨(hbegun j hj).1, hinvariant.last j (hbegun j hj).2⟩⟩
    rw [hanswer, ne_eq, List.length_eq_zero_iff]

/-- A job was posted whose conversion serves the slot as well, and a thread is about to serve it. -/
def asked : Dispatcher :=
  { machine :=
      { jobs := [{ conversion := some { script := [.service none], outcome := .ok (some [0x61]) },
                   inbox := none, hasReceiver := true, isKept := true }]
        queue := [taskOf 0]
        current := some 0
        control := []
        events := []
        answer := 0 }
    threads := [[.act (.service none)]]
    history :=
      { conversions := [{ script := [.service none], outcome := .ok (some [0x61]) }]
        posted := [0], started := [], completed := [], received := [] }
    posted := [0] }

theorem reachable_asked : Reachable asked := by
  have hscript : Calls [.service none] := .free rfl .nil
  have hcreated := Reachable.initial.next
    (.create (c := { script := [.service none], outcome := .ok (some [0x61]) }) hscript)
  have hcalled := (hcreated.next .thread).next (.call (i := 0) (.posting (j := 0) .nil) rfl .idle)
  have hput := hcalled.next (.turn (i := 0) rfl (by decide))
  have hposted := hput.next (.turn (i := 0) rfl (by decide))
  exact hposted.next (.call (i := 0) hscript rfl .idle)

/-- The call runs the job, which finds the slot empty. -/
theorem slot_never_stale_asked :
    ∃ d₁ d₂, (asked.machine.isPending 0 = true ∨ asked.Executing 0) ∧
      Leaves asked 0 (asked.turn 0 (.act (.service none)) []) ∧
      Serving 0 none [] asked [0] d₁ ∧ Next d₁ d₂ ∧ d₂.threads[0]? = some [] ∧
      d₂.machine.answer ≠ 0 ∧ asked.posted.getLast? = some 0 := by
  obtain ⟨hslot, hleaves, hserved⟩ := slot_never_stale reachable_asked
  have htaken : Serving 0 none [] asked [] _ := .take rfl
  have hbegun : Serving 0 none [] asked [0] _ := htaken.run (j := 0) rfl
  have hlooked := hbegun.next (.turn (i := 0) rfl (by decide)) (by rintro ⟨⟩) (by rintro _ _ ⟨⟩)
  have hreported := hlooked.next (.turn (i := 0) rfl (by decide)) (by rintro ⟨⟩) (by rintro _ _ ⟨⟩)
  have hended := hreported.next (.turn (i := 0) rfl (by decide)) (by rintro ⟨⟩) (by rintro _ _ ⟨⟩)
  obtain ⟨hanswer, hlast⟩ :=
    hserved 0 none [] [0] _ _ hended (.turn (i := 0) rfl (by decide)) rfl
  refine ⟨_, _, (hslot 0 rfl).2, ?_, hended, .turn (i := 0) rfl (by decide), rfl,
    hanswer.mpr (List.cons_ne_nil _ _), ?_⟩
  · exact hleaves 0 _ (.turn (i := 0) rfl (by decide)) rfl (by rintro ⟨⟩)
  · exact (hlast 0 (List.mem_singleton_self 0)).2

end Dispatcher

end Clipboard.Handoff
