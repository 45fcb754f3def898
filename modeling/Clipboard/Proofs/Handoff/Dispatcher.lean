import Clipboard.Proofs.Handoff.System

/-!
# Threads that go through the dispatcher

In a `System` a thread may take any action. Here threads only call the dispatcher: a job is run by
its task or out of the slot, and posting it is the one way into the slot. `Calls` says so of a
script; a `Dispatcher` is a system that only such scripts work on, and that remembers which jobs
were put into the slot, one after the other. A job is put there once.

`slotEffect_step` says all that a step can do to the slot, the queue and the conversions that have
not begun, and which steps it leaves to the thread.
-/

namespace Clipboard.Handoff

open Machine (stepsOf taskOf)

variable {m : Machine} {j k : JobId} {rest : List Step}

/-- Whether a step leaves it to others to run a job, to queue a task and to put a job into the slot
or to clear it. -/
def Step.isFree : Step → Bool
  | .act (.run _ _) | .act (.post _) | .act (.setCurrent _) | .act (.clearCurrent _) => false
  | _ => true

/-- What only calls the dispatcher, posted jobs being posted as a whole. -/
inductive Calls : Script → Prop where
  | nil : Calls []
  | free {action : Action} {script : Script} : (Step.act action).isFree = true → Calls script →
      Calls (action :: script)
  | post {task script : Script} : Calls task → Calls script → Calls (.post task :: script)
  | posting {j : JobId} {script : Script} : Calls script →
      Calls (.setCurrent j :: .post (taskOf j) :: script)

/-- A system, and the jobs that were put into the slot, the last one last. -/
structure Dispatcher extends System where
  posted : List JobId

namespace Dispatcher

def initial : Dispatcher := { toSystem := .initial, posted := [] }

/-- The job that a step puts into the slot. -/
def putting : Step → List JobId
  | .act (.setCurrent j) => [j]
  | _ => []

/-- A thread takes a step. -/
def turn (d : Dispatcher) (i : Nat) (step : Step) (rest : List Step) : Dispatcher :=
  { toSystem := d.toSystem.turn i step rest, posted := d.posted ++ putting step }

/-- One thing happens. -/
inductive Next (d : Dispatcher) : Dispatcher → Prop where
  /-- Only a job that there is, and that was not posted before, is put into the slot. -/
  | turn {i : Nat} {step : Step} {rest : List Step} : d.threads[i]? = some (step :: rest) →
      (∀ j ∈ putting step, j < d.machine.jobs.length ∧ j ∉ d.posted) → Next d (d.turn i step rest)
  | call {i : Nat} {control : List Step} {script : Script} : Calls script →
      d.threads[i]? = some control → System.MayAct control →
      Next d { d with threads := d.threads.set i (stepsOf script control) }
  | thread : Next d { d with threads := d.threads ++ [[]] }
  | create {c : Conversion} : Calls c.script → Next d { d with toSystem := d.toSystem.create c }
  | receive (j : JobId) : Next d { d with toSystem := d.toSystem.receive j }
  | release (j : JobId) : Next d { d with machine := d.machine.release j }
  | dropReceiver (j : JobId) : Next d { d with machine := d.machine.dropReceiver j }
  | forget : Next d { d with machine := { d.machine with answer := 0 } }

/-- What can have come about. -/
inductive Reachable : Dispatcher → Prop where
  | initial : Reachable initial
  | next {d d' : Dispatcher} : Reachable d → Next d d' → Reachable d'

/-- A thread is in the task of the job: clearing the slot, which the task ends with, is left to do.
-/
def Executing (d : Dispatcher) (j : JobId) : Prop :=
  ∃ control ∈ d.threads, .act (.clearCurrent j) ∈ control

end Dispatcher

/-! ## What a step does to the slot -/

/-- The conversions that have not begun, the queue and the slot after a step, and the steps that it
puts before the rest. -/
inductive SlotEffect (m : Machine) :
    Step → (JobId → Option Conversion) → List Script → Option JobId → List Step → Prop where
  /-- Nothing happens to any of them. -/
  | stay {step : Step} {new : List Step} : step.isFree = true → (∀ x ∈ new, x.isFree = true) →
      SlotEffect m step m.pending? m.queue m.current new
  /-- A task is taken from the queue. -/
  | pop {step : Step} {script : Script} {queue : List Script} {new : List Step} :
      step.isFree = true → m.queue = script :: queue → (∀ x ∈ new, x.isFree = true) →
      SlotEffect m step m.pending? queue m.current (stepsOf script new)
  /-- The current job is taken from the slot, to be run. -/
  | take {j : JobId} {label : Option String} : m.current = some j →
      SlotEffect m (.act (.service label)) m.pending? m.queue none [.act (.run j label)]
  | post {script : Script} :
      SlotEffect m (.act (.post script)) m.pending? (m.queue ++ [script]) m.current []
  /-- A job is run that has been run before, or that there is not. -/
  | again {j : JobId} {label : Option String} : m.pending? j = none →
      SlotEffect m (.act (.run j label)) m.pending? m.queue m.current [.report label 0]
  /-- A conversion begins. -/
  | start {j : JobId} {label : Option String} {c : Conversion} : m.pending? j = some c →
      SlotEffect m (.act (.run j label)) (m.begin j).pending? m.queue m.current
        (stepsOf c.script [.finish j c.outcome, .report label 1])
  | put {j : JobId} : SlotEffect m (.act (.setCurrent j)) m.pending? m.queue (some j) []
  /-- The slot is cleared if it holds the job. -/
  | clear {j : JobId} : SlotEffect m (.act (.clearCurrent j)) m.pending? m.queue
      (if m.current = some j then none else m.current) []

theorem pending?_of_jobs_eq {m' : Machine} (h : m'.jobs = m.jobs) : m'.pending? = m.pending? := by
  funext k
  unfold Machine.pending?
  rw [h]

/-- What happens to a job apart from its conversion does not matter. -/
theorem pending?_modify {m' : Machine} {f : Job → Job} (h : m'.jobs = m.jobs.modify j f)
    (hf : ∀ job, (f job).conversion = job.conversion) : m'.pending? = m.pending? := by
  funext k
  unfold Machine.pending?
  rw [h, List.getElem?_modify]
  cases m.jobs[k]? with
  | none => rfl
  | some job =>
    by_cases hjk : j = k
    · simp [hjk, hf]
    · simp [hjk]

theorem pending?_begin_self (m : Machine) (j : JobId) : (m.begin j).pending? j = none := by
  unfold Machine.pending? Machine.begin
  rw [List.getElem?_modify_eq]
  cases m.jobs[j]? <;> rfl

theorem pending?_begin_of_ne (h : j ≠ k) : (m.begin j).pending? k = m.pending? k := by
  unfold Machine.pending? Machine.begin
  rw [List.getElem?_modify_ne _ _ h]

theorem pending?_newJob_of_lt {c : Conversion} (h : k < m.jobs.length) :
    (m.newJob c).pending? k = m.pending? k := by
  unfold Machine.pending? Machine.newJob
  rw [List.getElem?_append_left h]

theorem pending?_newJob_length (m : Machine) (c : Conversion) :
    (m.newJob c).pending? m.jobs.length = some c := by
  unfold Machine.pending? Machine.newJob
  rw [List.getElem?_concat_length]
  rfl

theorem length_newJob (m : Machine) (c : Conversion) :
    (m.newJob c).jobs.length = m.jobs.length + 1 := List.length_append

theorem lt_length_of_pending? {c : Conversion} (h : m.pending? j = some c) :
    j < m.jobs.length := by
  obtain ⟨job, hjob, -⟩ := Option.bind_eq_some_iff.mp h
  exact (List.getElem?_eq_some_iff.mp hjob).1

@[simp] theorem current_note (m : Machine) (label : Option String) (text : String) :
    (m.note label text).current = m.current := by
  cases label <;> rfl

theorem slotEffect_perform (m : Machine) (action : Action) (rest : List Step) :
    ∃ new, (m.perform rest action).control = new ++ rest ∧
      SlotEffect m (.act action) (m.perform rest action).pending? (m.perform rest action).queue
        (m.perform rest action).current new := by
  cases action with
  | log event => exact ⟨[], rfl, .stay rfl (fun _ hx => absurd hx List.not_mem_nil)⟩
  | drain label => exact ⟨[.keepDraining label 0], rfl, .stay rfl (by simp [Step.isFree])⟩
  | post script => exact ⟨[], rfl, .post⟩
  | setCurrent j => exact ⟨[], rfl, .put⟩
  | clearCurrent j => exact ⟨[], rfl, .clear⟩
  | run j label =>
    cases hp : m.pending? j with
    | none =>
      rw [perform_run_of_none hp]
      exact ⟨[.report label 0], rfl, .again hp⟩
    | some c =>
      rw [perform_run_of_some hp]
      exact ⟨_, stepsOf_append c.script [.finish j c.outcome, .report label 1] rest, .start hp⟩
  | service label =>
    cases hc : m.current with
    | none =>
      rw [perform_service_of_none hc]
      exact ⟨[.report label 0], rfl, .stay rfl (by simp [Step.isFree])⟩
    | some j =>
      rw [perform_service_of_some hc]
      exact ⟨[.act (.run j label)], rfl, .take hc⟩
  | runNext label =>
    cases hq : m.queue with
    | nil =>
      rw [perform_runNext_of_nil hq]
      exact ⟨[.report label 0], rfl, .stay rfl (by simp [Step.isFree])⟩
    | cons script queue =>
      rw [perform_runNext_of_cons hq]
      exact ⟨_, stepsOf_append script [.report label 1] rest, .pop rfl hq (by simp [Step.isFree])⟩

/-- **All that a step can do to the slot.** -/
theorem slotEffect_step {step : Step} (h : m.control = step :: rest) :
    ∃ new, m.step.control = new ++ rest ∧
      SlotEffect m step m.step.pending? m.step.queue m.step.current new := by
  cases step with
  | act action =>
    rw [step_act h]
    exact slotEffect_perform m action rest
  | finish j outcome =>
    rw [step_finish h]
    refine ⟨[], rfl, ?_⟩
    have hpending : ({ m.send j (messageOf outcome) with control := rest } : Machine).pending?
        = m.pending? := pending?_modify rfl (fun job => by split <;> rfl)
    rw [hpending]
    exact .stay rfl (fun _ hx => absurd hx List.not_mem_nil)
  | report label n =>
    rw [step_report h, queue_note, current_note]
    refine ⟨[], rfl, ?_⟩
    rw [pending?_of_jobs_eq (m := m) (by simp)]
    exact .stay rfl (fun _ hx => absurd hx List.not_mem_nil)
  | keepDraining label n =>
    cases hq : m.queue with
    | nil =>
      rw [step_keepDraining_of_nil h hq, queue_note, current_note]
      refine ⟨[], rfl, ?_⟩
      rw [pending?_of_jobs_eq (m := m) (by simp)]
      exact .stay rfl (fun _ hx => absurd hx List.not_mem_nil)
    | cons script queue =>
      rw [step_keepDraining_of_cons h hq]
      exact ⟨_, stepsOf_append script [.keepDraining label (n + 1)] rest,
        .pop rfl hq (by simp [Step.isFree])⟩

theorem putting_of_isFree {step : Step} (h : step.isFree = true) :
    Dispatcher.putting step = [] := by
  cases step with
  | act action =>
    cases action with
    | setCurrent j => cases h
    | _ => rfl
  | _ => rfl

namespace SlotEffect

variable {step : Step} {pending : JobId → Option Conversion} {queue : List Script}
  {current : Option JobId} {new : List Step}

/-- What the slot holds was put there by the step, or it was there and the step does not clear it.
-/
theorem current_cases (h : SlotEffect m step pending queue current new) (hk : current = some k) :
    Dispatcher.putting step = [k] ∨
      m.current = some k ∧ Dispatcher.putting step = [] ∧ .act (.clearCurrent k) ≠ step := by
  cases h with
  | stay hfree | pop hfree =>
    exact Or.inr ⟨hk, putting_of_isFree hfree, by rintro rfl; cases hfree⟩
  | take => cases hk
  | post | again | start => exact Or.inr ⟨hk, rfl, by simp⟩
  | put =>
    cases hk
    exact Or.inl rfl
  | clear =>
    split at hk
    · cases hk
    · next hne => exact Or.inr ⟨hk, rfl, by rintro ⟨⟩; exact hne hk⟩

/-- A conversion that is no longer to begin has been begun by the step. -/
theorem pending_cases (h : SlotEffect m step pending queue current new) (k : JobId) :
    pending k = m.pending? k ∨ pending k = none ∧ ∃ label, step = .act (.run k label) := by
  cases h with
  | stay | pop | take | post | again | put | clear => exact Or.inl rfl
  | @start j label =>
    by_cases hjk : j = k
    · subst hjk
      exact Or.inr ⟨pending?_begin_self m j, label, rfl⟩
    · exact Or.inl (pending?_begin_of_ne hjk)

end SlotEffect

end Clipboard.Handoff
