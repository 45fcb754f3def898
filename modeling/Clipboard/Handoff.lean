import Clipboard.Transfer.Source

/-!
# Handing conversions to the thread that owns the data

Data may be read only on the thread that owns it. A conversion that another thread asks for becomes
a job: it is put into the owner's slot for the current job and a task that runs it is queued. The
owner runs queued tasks one after the other; code of the owner that cannot return to the queue can
run the current job instead. A job runs at most once. Its requester is sent one message: the data,
or nothing, which is also what a failure becomes, so that no requester waits in vain.

What the owner does is a machine. `control` lists the steps it still has to take; a conversion, and
a task, is a script of actions that are put there when it begins. Conversions may themselves run
jobs, serve the slot, empty the queue and post. `settle` takes steps until none is left.

`weight_step` says that every step uses something up, so the machine always comes to rest.
-/

namespace Clipboard.Handoff

/-- What a requester is sent: the data, or nothing. -/
abbrev Message := Option Bytes

/-- What the requester is sent about an outcome. -/
def messageOf : Except Failure (Option Bytes) → Message
  | .ok data => data
  | .error _ => none

abbrev JobId := Nat

/-- What the owner's code does. Where something is reported it may be logged under a label. -/
inductive Action where
  | log (event : String)
  /-- A job is run, and whether it ran is reported. -/
  | run (job : JobId) (label : Option String)
  /-- The current job is taken and run, and whether one ran is reported. -/
  | service (label : Option String)
  /-- The next task is run, and whether there was one is reported. -/
  | runNext (label : Option String)
  /-- All tasks are run, and how many is reported. -/
  | drain (label : Option String)
  | post (script : List Action)
  | setCurrent (job : JobId)
  /-- The slot is emptied if it holds the job. -/
  | clearCurrent (job : JobId)

/-- What a task or a conversion does, in order. -/
abbrev Script := List Action

/-- A conversion: what it does, and how it ends. -/
structure Conversion where
  script : Script
  outcome : Except Failure (Option Bytes)

structure Job where
  conversion : Option Conversion
  /-- The message that was sent and not yet received. -/
  inbox : Option Message
  hasReceiver : Bool
  /-- Whether someone holds on to the job apart from the machine. -/
  isKept : Bool

/-- Something left to do. -/
inductive Step where
  | act (action : Action)
  | finish (job : JobId) (outcome : Except Failure (Option Bytes))
  /-- A number is reported; one stands for yes and zero for no. -/
  | report (label : Option String) (n : Nat)
  /-- The queue is being emptied, so many tasks having been run. -/
  | keepDraining (label : Option String) (n : Nat)

/-- The owner of the data. -/
structure Machine where
  jobs : List Job
  /-- The tasks that wait, the next one first. -/
  queue : List Script
  current : Option JobId
  /-- What is left to do, the next step first. -/
  control : List Step
  events : List String
  /-- What was reported last. -/
  answer : Nat

namespace Machine

def empty : Machine :=
  { jobs := [], queue := [], current := none, control := [], events := [], answer := 0 }

/-- The conversion of a job that has not begun. -/
def pending? (m : Machine) (j : JobId) : Option Conversion := m.jobs[j]?.bind Job.conversion

/-- Whether a job is yet to run. -/
def isPending (m : Machine) (j : JobId) : Bool := (m.pending? j).isSome

/-- The task of a posted job: it runs the job, and empties the slot if no other job took it. -/
def taskOf (j : JobId) : Script := [.run j none, .clearCurrent j]

/-- How posting a job goes: the job takes the slot, then its task is queued. -/
def posting (j : JobId) : Script := [.setCurrent j, .post (taskOf j)]

/-- Something is noted, if it has a label. -/
def note (m : Machine) (label : Option String) (text : String) : Machine :=
  match label with
  | some label => { m with events := m.events ++ [label ++ " " ++ text] }
  | none => m

/-- The job's conversion is taken away. -/
def begin (m : Machine) (j : JobId) : Machine :=
  { m with jobs := m.jobs.modify j (fun job => { job with conversion := none }) }

/-- The requester of a job is sent a message. -/
def send (m : Machine) (j : JobId) (message : Message) : Machine :=
  { m with jobs := m.jobs.modify j (fun job =>
      if job.hasReceiver ∧ job.inbox.isNone then { job with inbox := some message } else job) }

/-- The steps of a script, before others. -/
def stepsOf (script : Script) (control : List Step) : List Step :=
  script.map .act ++ control

/-- One action, the rest of the control following it. -/
def perform (m : Machine) (rest : List Step) : Action → Machine
  | .log event => { m with control := rest, events := m.events ++ [event] }
  | .run j label =>
    match m.pending? j with
    | none => { m with control := .report label 0 :: rest }
    | some c =>
      -- taken away first, so a job that is run again from inside its conversion does nothing
      { m.begin j with control := stepsOf c.script (.finish j c.outcome :: .report label 1 :: rest) }
  | .service label =>
    match m.current with
    | none => { m with control := .report label 0 :: rest }
    -- the slot is free while the job runs, for another that is posted on the way
    | some j => { m with current := none, control := .act (.run j label) :: rest }
  | .runNext label =>
    match m.queue with
    | [] => { m with control := .report label 0 :: rest }
    | script :: queue =>
      { m with queue := queue, control := stepsOf script (.report label 1 :: rest) }
  | .drain label => { m with control := .keepDraining label 0 :: rest }
  | .post script => { m with control := rest, queue := m.queue ++ [script] }
  | .setCurrent j => { m with control := rest, current := some j }
  | .clearCurrent j =>
    { m with control := rest, current := if m.current = some j then none else m.current }

def step (m : Machine) : Machine :=
  match m.control with
  | [] => m
  | .act action :: rest => m.perform rest action
  | .finish j outcome :: rest => { m.send j (messageOf outcome) with control := rest }
  | .report label n :: rest =>
    { m.note label (if n = 0 then "false" else "true") with control := rest, answer := n }
  | .keepDraining label n :: rest =>
    match m.queue with
    | [] => { m.note label (toString n) with control := rest, answer := n }
    | script :: queue =>
      { m with queue := queue, control := stepsOf script (.keepDraining label (n + 1) :: rest) }

/-! ## Coming to rest -/

end Machine

mutual

/-- What an action may still use up. -/
def Action.weight : Action → Nat
  | .log _ => 1
  | .run _ _ => 2
  | .service _ => 3
  | .runNext _ => 2
  | .drain _ => 3
  | .post script => scriptWeight script + 2
  | .setCurrent _ => 1
  | .clearCurrent _ => 1

/-- What a script may still use up. -/
def scriptWeight : List Action → Nat
  | [] => 0
  | a :: as => a.weight + scriptWeight as

end

namespace Machine

/-- What a step may still use up. -/
def stepWeight : Step → Nat
  | .act action => action.weight
  | .finish _ _ => 1
  | .report _ _ => 1
  | .keepDraining _ _ => 2

/-- What a job may still use up. -/
def jobWeight (job : Job) : Nat :=
  match job.conversion with
  | some c => scriptWeight c.script + 1
  | none => 0

/-- What all of a list may still use up. -/
def total {α : Type} (weight : α → Nat) : List α → Nat
  | [] => 0
  | a :: as => weight a + total weight as

/-- What is left to use up. -/
def weight (m : Machine) : Nat :=
  total jobWeight m.jobs + total (scriptWeight · + 1) m.queue + total stepWeight m.control

@[simp] theorem total_append {α : Type} (weight : α → Nat) (as bs : List α) :
    total weight (as ++ bs) = total weight as + total weight bs := by
  induction as with
  | nil => simp [total]
  | cons a as ih =>
    simp only [List.cons_append, total, ih]
    omega

theorem total_stepsOf (script : Script) (control : List Step) :
    total stepWeight (stepsOf script control)
      = scriptWeight script + total stepWeight control := by
  induction script with
  | nil => simp [stepsOf, scriptWeight]
  | cons a as ih =>
    simp only [stepsOf, total_append] at ih
    simp only [stepsOf, List.map_cons, List.cons_append, total, total_append, scriptWeight,
      stepWeight]
    omega

theorem total_modify_begin (jobs : List Job) (j : JobId) (c : Conversion)
    (h : jobs[j]?.bind Job.conversion = some c) :
    total jobWeight (jobs.modify j (fun job => { job with conversion := none }))
      + (scriptWeight c.script + 1) = total jobWeight jobs := by
  induction jobs generalizing j with
  | nil => simp at h
  | cons job jobs ih =>
    cases j with
    | zero =>
      have hc : job.conversion = some c := by simpa using h
      simp [total, jobWeight, hc]
      omega
    | succ j =>
      have := ih j (by simpa using h)
      simp only [List.modify_succ_cons, total]
      omega

theorem total_modify_of_weight_eq (jobs : List Job) (j : JobId) (f : Job → Job)
    (h : ∀ job, jobWeight (f job) = jobWeight job) :
    total jobWeight (jobs.modify j f) = total jobWeight jobs := by
  induction jobs generalizing j with
  | nil => simp
  | cons job jobs ih =>
    cases j with
    | zero => simp [total, h]
    | succ j => simp [total, ih]

theorem total_send (m : Machine) (j : JobId) (message : Message) :
    total jobWeight (m.send j message).jobs = total jobWeight m.jobs :=
  total_modify_of_weight_eq _ _ _ (fun job => by split <;> simp [jobWeight])

theorem queue_send (m : Machine) (j : JobId) (message : Message) :
    (m.send j message).queue = m.queue := rfl

theorem weight_note (m : Machine) (label : Option String) (text : String) (control : List Step)
    (n : Nat) :
    ({ m.note label text with control := control, answer := n } : Machine).weight
      = ({ m with control := control } : Machine).weight := by
  cases label <;> rfl

/-- Every action uses something up. -/
theorem weight_perform (m : Machine) (rest : List Step) (a : Action) :
    (m.perform rest a).weight < ({ m with control := .act a :: rest } : Machine).weight := by
  cases a with
  | log event => simp [perform, weight, total, stepWeight, Action.weight]
  | run j label =>
    simp only [perform]
    split
    · simp [weight, total, stepWeight, Action.weight]
    · next c hc =>
      have := total_modify_begin m.jobs j c hc
      simp only [weight, begin, total_stepsOf, total, stepWeight, Action.weight]
      omega
  | service label =>
    simp only [perform]
    split <;> simp [weight, total, stepWeight, Action.weight]
  | runNext label =>
    simp only [perform]
    split
    · simp [weight, total, stepWeight, Action.weight]
    · next script queue hq =>
      simp only [weight, hq, total_stepsOf, total, stepWeight, Action.weight]
      omega
  | drain label => simp [perform, weight, total, stepWeight, Action.weight]
  | post script =>
    simp only [perform, weight, total_append, total, stepWeight, Action.weight]
    omega
  | setCurrent j => simp [perform, weight, total, stepWeight, Action.weight]
  | clearCurrent j => simp [perform, weight, total, stepWeight, Action.weight]

/-- Every step uses something up. -/
theorem weight_step (m : Machine) (h : m.control ≠ []) : m.step.weight < m.weight := by
  unfold step
  split
  · contradiction
  · next action rest hc =>
    have := m.weight_perform rest action
    rwa [← hc] at this
  · next j outcome rest hc =>
    have := m.total_send j (messageOf outcome)
    simp only [weight, this, queue_send, hc, total, stepWeight]
    omega
  · next label n rest hc =>
    rw [weight_note]
    simp [weight, total, hc, stepWeight]
  · next label n rest hc =>
    split
    · rw [weight_note]
      simp [weight, total, hc, stepWeight]
    · next script queue hq =>
      simp only [weight, hc, hq, total_stepsOf, total, stepWeight]
      omega

def settle (m : Machine) : Machine :=
  if _h : m.control = [] then m else m.step.settle
termination_by m.weight
decreasing_by exact m.weight_step _h

/-! ## The owner's and the requesters' calls -/

/-- An action that is begun at rest and followed to its end, and what it reports. -/
def call (m : Machine) (action : Action) : Nat × Machine :=
  let m := { m with control := [.act action], answer := 0 }.settle
  (m.answer, m)

/-- A new job; its number is the number of jobs before it. -/
def newJob (m : Machine) (c : Conversion) : Machine :=
  { m with jobs := m.jobs ++ [{ conversion := some c, inbox := none, hasReceiver := true,
                                isKept := true }] }

def run (m : Machine) (j : JobId) : Bool × Machine :=
  let (n, m) := m.call (.run j none)
  (n ≠ 0, m)

def service (m : Machine) : Bool × Machine :=
  let (n, m) := m.call (.service none)
  (n ≠ 0, m)

def runNext (m : Machine) : Bool × Machine :=
  let (n, m) := m.call (.runNext none)
  (n ≠ 0, m)

def drain (m : Machine) : Nat × Machine := m.call (.drain none)

def post (m : Machine) (script : Script) : Machine := { m with queue := m.queue ++ [script] }

def postJob (m : Machine) (j : JobId) : Machine :=
  { m with current := some j }.post (taskOf j)

def mentions (j : JobId) (script : Script) : Bool :=
  script.any (fun
    | .run k _ | .setCurrent k | .clearCurrent k => k = j
    | _ => false)

/-- Whether anyone holds on to a job. -/
def isHeld (m : Machine) (j : JobId) : Bool :=
  (m.jobs[j]?.any Job.isKept) || m.current = some j || m.queue.any (mentions j)

/-- No one but the machine holds on to a job any more. -/
def release (m : Machine) (j : JobId) : Machine :=
  { m with jobs := m.jobs.modify j (fun job => { job with isKept := false }) }

/-- The requester of a job will receive nothing any more. -/
def dropReceiver (m : Machine) (j : JobId) : Machine :=
  { m with jobs := m.jobs.modify j (fun job => { job with hasReceiver := false }) }

/-- What a requester finds when it looks for its message. -/
inductive Receipt where
  | message (data : Message)
  | waiting
  | disconnected
  | noReceiver
  deriving DecidableEq, Repr

/-- The requester of a job looks for its message. -/
def receive (m : Machine) (j : JobId) : Receipt × Machine :=
  match m.jobs[j]? with
  | none => (.noReceiver, m)
  | some job =>
    if !job.hasReceiver then (.noReceiver, m)
    else
      match job.inbox with
      | some data =>
        (.message data, { m with jobs := m.jobs.modify j (fun job => { job with inbox := none }) })
      | none => (if m.isHeld j then .waiting else .disconnected, m)

/-- The job as it is shown to a person. -/
def describeJob (m : Machine) (j : JobId) : String :=
  "HandoffJob \x7b pending: " ++ toString (m.isPending j) ++ " \x7d"

end Machine

end Clipboard.Handoff
