import Clipboard.Handoff

/-!
# Threads that share a machine

A `System` is a machine that any number of threads work on, each with steps of its own left to do.
`Next` is all that may happen: a thread takes its next step, or begins an action when it is idle or
in the middle of a conversion, and requesters create jobs and look for messages. A job is posted by
two actions of a thread, one for each half, and anything may happen between them.

`History` keeps what has happened to the jobs. `effect_step` says all that a step can do to jobs and
tasks; the proofs about runs go by its cases and never look into the steps themselves.
-/

namespace Clipboard.Handoff

/-- What has happened to the jobs. -/
structure History where
  /-- The conversions that jobs were created with, by the numbers of the jobs. -/
  conversions : List Conversion
  /-- The jobs for which a task was queued. -/
  posted : List JobId
  /-- The jobs whose conversions were begun. -/
  started : List JobId
  /-- The jobs whose conversions ended. -/
  completed : List JobId
  /-- The messages that requesters found. -/
  received : List (JobId × Message)

/-- A machine, what each thread has left to do on it, and what has happened. -/
structure System where
  machine : Machine
  threads : List (List Step)
  history : History

/-- Whether a task runs a job. -/
def runs (j : JobId) (script : Script) : Bool :=
  script.any (fun
    | .run k _ => k = j
    | _ => false)

/-- What a step makes happen to the jobs of a machine. -/
def History.note (h : History) (m : Machine) : Step → History
  | .act (.run j _) => if m.isPending j then { h with started := h.started ++ [j] } else h
  | .act (.post script) =>
    { h with posted := h.posted ++ (List.range m.jobs.length).filter (runs · script) }
  | .finish j _ => { h with completed := h.completed ++ [j] }
  | _ => h

namespace System

/-- Nothing has happened yet. -/
def initial : System :=
  { machine := .empty
    threads := []
    history := { conversions := [], posted := [], started := [], completed := [], received := [] } }

/-- All the steps left to do. -/
def steps (s : System) : List Step := s.threads.flatten

/-- A thread takes a step and is left with what it puts before the rest. -/
def turn (s : System) (i : Nat) (step : Step) (rest : List Step) : System :=
  let after := { s.machine with control := step :: rest }.step
  { machine := { after with control := [] }
    threads := s.threads.set i after.control
    history := s.history.note s.machine step }

/-- A job is created. -/
def create (s : System) (c : Conversion) : System :=
  { s with
    machine := s.machine.newJob c
    history := { s.history with conversions := s.history.conversions ++ [c] } }

/-- What was found when the requester of a job looked for its message. -/
def found (j : JobId) : Machine.Receipt → List (JobId × Message)
  | .message data => [(j, data)]
  | _ => []

/-- The requester of a job looks for its message. -/
def receive (s : System) (j : JobId) : System :=
  { s with
    machine := (s.machine.receive j).2
    history :=
      { s.history with received := s.history.received ++ found j (s.machine.receive j).1 } }

/-- A thread may act that has nothing left to do, or is in a conversion. -/
inductive MayAct : List Step → Prop where
  | idle : MayAct []
  | converting {j : JobId} {outcome : Except Failure (Option Bytes)} {rest : List Step} :
      MayAct (.finish j outcome :: rest)

/-- One thing happens. -/
inductive Next (s : System) : System → Prop where
  | turn {i : Nat} {step : Step} {rest : List Step} : s.threads[i]? = some (step :: rest) →
      Next s (s.turn i step rest)
  | act {i : Nat} {control : List Step} (action : Action) : s.threads[i]? = some control →
      MayAct control → Next s { s with threads := s.threads.set i (.act action :: control) }
  | thread : Next s { s with threads := s.threads ++ [[]] }
  | create (c : Conversion) : Next s (s.create c)
  | receive (j : JobId) : Next s (s.receive j)
  | release (j : JobId) : Next s { s with machine := s.machine.release j }
  | dropReceiver (j : JobId) : Next s { s with machine := s.machine.dropReceiver j }
  /-- What was reported last is forgotten. -/
  | forget : Next s { s with machine := { s.machine with answer := 0 } }

/-- Any number of things happen. -/
inductive Run (s : System) : System → Prop where
  | refl : Run s s
  | tail {s' s'' : System} : Run s s' → Next s' s'' → Run s s''

theorem Run.single {s s' : System} (h : Next s s') : Run s s' := .tail .refl h

theorem Run.trans {s s' s'' : System} (h : Run s s') (h' : Run s' s'') : Run s s'' := by
  induction h' with
  | refl => exact h
  | tail _ hnext ih => exact ih.tail hnext

/-- What can have come about. -/
def Reachable (s : System) : Prop := Run initial s

end System

/-! ## What a step does -/

/-- Whether a step neither runs a job, nor ends a conversion, nor queues a task. -/
def Step.isPlain : Step → Bool
  | .act (.run _ _) | .act (.post _) | .finish _ _ => false
  | _ => true

/-- Whether a step ends a conversion. -/
def Step.isFinish : Step → Bool
  | .finish _ _ => true
  | _ => false

/-- The jobs and the tasks after a step, and the steps that it puts before the rest. -/
inductive Effect (m : Machine) : Step → List Job → List Script → List Step → Prop where
  /-- Nothing happens to jobs and tasks. -/
  | plain {step : Step} {new : List Step} : step.isPlain = true →
      (∀ x ∈ new, x.isFinish = false) → Effect m step m.jobs m.queue new
  /-- A task is taken from the queue. -/
  | pop {step : Step} {script : Script} {queue : List Script} {new : List Step} :
      step.isPlain = true → m.queue = script :: queue → (∀ action ∈ script, .act action ∈ new) →
      (∀ x ∈ new, x.isFinish = false) → Effect m step m.jobs queue new
  /-- A task is queued. -/
  | post {script : Script} : Effect m (.act (.post script)) m.jobs (m.queue ++ [script]) []
  /-- A job is run that has been run before, or that there is not. -/
  | again {j : JobId} {label : Option String} : m.isPending j = false →
      Effect m (.act (.run j label)) m.jobs m.queue [.report label 0]
  /-- A conversion begins. -/
  | start {j : JobId} {label : Option String} {c : Conversion} : m.pending? j = some c →
      Effect m (.act (.run j label)) (m.begin j).jobs m.queue
        (Machine.stepsOf c.script [.finish j c.outcome, .report label 1])
  /-- A conversion ends. -/
  | finish {j : JobId} {outcome : Except Failure (Option Bytes)} :
      Effect m (.finish j outcome) (m.send j (messageOf outcome)).jobs m.queue []

theorem isFinish_of_mem_stepsOf {script : Script} {control : List Step} {x : Step}
    (hcontrol : ∀ x ∈ control, x.isFinish = false) (hx : x ∈ Machine.stepsOf script control) :
    x.isFinish = false := by
  rcases List.mem_append.mp hx with hx | hx
  · obtain ⟨action, -, rfl⟩ := List.mem_map.mp hx
    rfl
  · exact hcontrol x hx

theorem mem_stepsOf {script : Script} {control : List Step} {action : Action}
    (h : action ∈ script) : .act action ∈ Machine.stepsOf script control :=
  List.mem_append_left _ (List.mem_map.mpr ⟨action, h, rfl⟩)

theorem stepsOf_append (script : Script) (a b : List Step) :
    Machine.stepsOf script (a ++ b) = Machine.stepsOf script a ++ b := by
  simp [Machine.stepsOf]

section

variable {m : Machine} {rest : List Step} {label : Option String} {j : JobId}

theorem perform_run_of_none (h : m.pending? j = none) :
    m.perform rest (.run j label) = { m with control := .report label 0 :: rest } := by
  simp only [Machine.perform, h]

theorem perform_run_of_some {c : Conversion} (h : m.pending? j = some c) :
    m.perform rest (.run j label) =
      { m.begin j with
        control := Machine.stepsOf c.script (.finish j c.outcome :: .report label 1 :: rest) } := by
  simp only [Machine.perform, h]

theorem perform_service_of_none (h : m.current = none) :
    m.perform rest (.service label) = { m with control := .report label 0 :: rest } := by
  simp only [Machine.perform, h]

theorem perform_service_of_some (h : m.current = some j) :
    m.perform rest (.service label)
      = { m with current := none, control := .act (.run j label) :: rest } := by
  simp only [Machine.perform, h]

theorem perform_runNext_of_nil (h : m.queue = []) :
    m.perform rest (.runNext label) = { m with control := .report label 0 :: rest } := by
  simp only [Machine.perform, h]

theorem perform_runNext_of_cons {script : Script} {queue : List Script}
    (h : m.queue = script :: queue) :
    m.perform rest (.runNext label)
      = { m with queue, control := Machine.stepsOf script (.report label 1 :: rest) } := by
  simp only [Machine.perform, h]

theorem step_act {action : Action} (h : m.control = .act action :: rest) :
    m.step = m.perform rest action := by
  simp only [Machine.step, h]

theorem step_finish {outcome : Except Failure (Option Bytes)}
    (h : m.control = .finish j outcome :: rest) :
    m.step = { m.send j (messageOf outcome) with control := rest } := by
  simp only [Machine.step, h]

theorem step_report {n : Nat} (h : m.control = .report label n :: rest) :
    m.step = { m.note label (if n = 0 then "false" else "true") with
      control := rest, answer := n } := by
  simp only [Machine.step, h]

theorem step_keepDraining_of_nil {n : Nat} (h : m.control = .keepDraining label n :: rest)
    (hq : m.queue = []) :
    m.step = { m.note label (toString n) with control := rest, answer := n } := by
  simp only [Machine.step, h, hq]

theorem step_keepDraining_of_cons {n : Nat} {script : Script} {queue : List Script}
    (h : m.control = .keepDraining label n :: rest) (hq : m.queue = script :: queue) :
    m.step = { m with
      queue, control := Machine.stepsOf script (.keepDraining label (n + 1) :: rest) } := by
  simp only [Machine.step, h, hq]

@[simp] theorem jobs_note (m : Machine) (label : Option String) (text : String) :
    (m.note label text).jobs = m.jobs := by
  cases label <;> rfl

@[simp] theorem queue_note (m : Machine) (label : Option String) (text : String) :
    (m.note label text).queue = m.queue := by
  cases label <;> rfl

end

theorem effect_perform (m : Machine) (action : Action) (rest : List Step) :
    ∃ new, (m.perform rest action).control = new ++ rest ∧
      Effect m (.act action) (m.perform rest action).jobs (m.perform rest action).queue new := by
  cases action with
  | log event | setCurrent j | clearCurrent j =>
    exact ⟨[], rfl, .plain rfl (fun _ hx => absurd hx List.not_mem_nil)⟩
  | drain label => exact ⟨[.keepDraining label 0], rfl, .plain rfl (by simp [Step.isFinish])⟩
  | post script => exact ⟨[], rfl, .post⟩
  | run j label =>
    cases hp : m.pending? j with
    | none =>
      rw [perform_run_of_none hp]
      exact ⟨[.report label 0], rfl, .again (by rw [Machine.isPending, hp]; rfl)⟩
    | some c =>
      rw [perform_run_of_some hp]
      exact ⟨_, stepsOf_append c.script [.finish j c.outcome, .report label 1] rest, .start hp⟩
  | service label =>
    cases hc : m.current with
    | none =>
      rw [perform_service_of_none hc]
      exact ⟨[.report label 0], rfl, .plain rfl (by simp [Step.isFinish])⟩
    | some j =>
      rw [perform_service_of_some hc]
      exact ⟨[.act (.run j label)], rfl, .plain rfl (by simp [Step.isFinish])⟩
  | runNext label =>
    cases hq : m.queue with
    | nil =>
      rw [perform_runNext_of_nil hq]
      exact ⟨[.report label 0], rfl, .plain rfl (by simp [Step.isFinish])⟩
    | cons script queue =>
      rw [perform_runNext_of_cons hq]
      refine ⟨_, stepsOf_append script [.report label 1] rest, .pop rfl hq (fun _ => mem_stepsOf) ?_⟩
      exact fun x => isFinish_of_mem_stepsOf (by simp [Step.isFinish])

/-- **All that a step can do.** -/
theorem effect_step {m : Machine} {step : Step} {rest : List Step} (h : m.control = step :: rest) :
    ∃ new, m.step.control = new ++ rest ∧ Effect m step m.step.jobs m.step.queue new := by
  cases step with
  | act action =>
    rw [step_act h]
    exact effect_perform m action rest
  | finish j outcome =>
    rw [step_finish h]
    exact ⟨[], rfl, .finish⟩
  | report label n =>
    rw [step_report h, jobs_note, queue_note]
    exact ⟨[], rfl, .plain rfl (fun _ hx => absurd hx List.not_mem_nil)⟩
  | keepDraining label n =>
    cases hq : m.queue with
    | nil =>
      rw [step_keepDraining_of_nil h hq, jobs_note, queue_note]
      exact ⟨[], rfl, .plain rfl (fun _ hx => absurd hx List.not_mem_nil)⟩
    | cons script queue =>
      rw [step_keepDraining_of_cons h hq]
      refine ⟨_, stepsOf_append script [.keepDraining label (n + 1)] rest,
        .pop rfl hq (fun _ => mem_stepsOf) ?_⟩
      exact fun x => isFinish_of_mem_stepsOf (by simp [Step.isFinish])

end Clipboard.Handoff
