import Clipboard.Proofs.Handoff.Delivery
import Clipboard.Transfer.Convert

/-!
# What requesters are told

The messages of a job are those that its requester found and the one that waits for it. They are
none until the conversion of the job has ended, and one from then on. A job that was posted is
answered at the latest when the queue is empty, so a requester that waits while the owner empties
its queue is told what the conversion gives on the spot, a failure being told as no data.

What `Machine.settle` does to a machine is done in a `System` by turns of one thread (`run_settle`).
What is known of all runs therefore holds of the calls of the owner.
-/

namespace Clipboard.Handoff

variable {m : Machine} {j k : JobId}

/-! ## Calls of the owner -/

namespace Machine

/-- What each step keeps holds when the machine is at rest. -/
theorem settle_of_step {P : Machine → Prop}
    (hstep : ∀ m : Machine, m.control ≠ [] → P m → P m.step) (h : P m) : P m.settle := by
  induction m using settle.induct with
  | case1 m hcontrol =>
    rwa [settle, dif_pos hcontrol]
  | case2 m hcontrol ih =>
    rw [settle, dif_neg hcontrol]
    exact ih (hstep m hcontrol h)

theorem control_settle (m : Machine) : m.settle.control = [] := by
  induction m using settle.induct with
  | case1 m hcontrol => rwa [settle, dif_pos hcontrol]
  | case2 m hcontrol ih => rwa [settle, dif_neg hcontrol]

/-- The queue is being emptied, or it is empty and nothing is left to do. -/
def IsDraining (m : Machine) : Prop :=
  (∃ before label n, m.control = before ++ [.keepDraining label n]) ∨
    m.control = [] ∧ m.queue = []

theorem IsDraining.step (hcontrol : m.control ≠ []) (h : m.IsDraining) : m.step.IsDraining := by
  rcases h with ⟨before, label, n, hbefore⟩ | ⟨hnil, -⟩
  · cases before with
    | nil =>
      cases hqueue : m.queue with
      | nil =>
        rw [step_keepDraining_of_nil hbefore hqueue]
        exact Or.inr ⟨rfl, by simpa using hqueue⟩
      | cons script queue =>
        rw [step_keepDraining_of_cons hbefore hqueue]
        exact Or.inl ⟨script.map .act, label, n + 1, rfl⟩
    | cons step before =>
      -- a step puts others in front, and the last one stays
      obtain ⟨new, hnew, -⟩ := effect_step (hbefore.trans (List.cons_append ..))
      exact Or.inl ⟨new ++ before, label, n, by rw [hnew, List.append_assoc]⟩
  · exact absurd hnil hcontrol

theorem queue_drain (m : Machine) : m.drain.2.queue = [] := by
  have hdraining : m.drain.2.IsDraining := by
    show (settle _).IsDraining
    rw [settle, dif_neg (List.cons_ne_nil _ _)]
    exact settle_of_step (fun _ => IsDraining.step) (Or.inl ⟨[], none, 0, rfl⟩)
  rcases hdraining with ⟨before, label, n, hbefore⟩ | ⟨-, hqueue⟩
  · have hrest : m.drain.2.control = [] := control_settle _
    rw [hrest] at hbefore
    simp at hbefore
  · exact hqueue

/-- Whether the requester of a job can receive. -/
def hasReceiver (m : Machine) (j : JobId) : Bool := m.jobs[j]?.any Job.hasReceiver

theorem any_modify {p : Job → Bool} {f : Job → Job} (hf : ∀ job, p (f job) = p job)
    (jobs : List Job) : (jobs.modify k f)[j]?.any p = jobs[j]?.any p := by
  rw [List.getElem?_modify]
  cases jobs[j]? with
  | none => rfl
  | some job =>
    by_cases hkj : k = j
    · simp [hkj, hf]
    · simp [hkj]

theorem hasReceiver_step (m : Machine) (hcontrol : m.control ≠ []) :
    m.step.hasReceiver j = m.hasReceiver j := by
  obtain ⟨step, rest, hcons⟩ := List.exists_cons_of_ne_nil hcontrol
  obtain ⟨new, -, heffect⟩ := effect_step hcons
  unfold hasReceiver
  generalize m.step.jobs = jobs at heffect
  generalize m.step.queue = queue at heffect
  cases heffect with
  | plain | pop | post | again => rfl
  | start => exact any_modify (f := fun job => { job with conversion := none }) (fun _ => rfl) _
  | finish => exact any_modify (fun job => by split <;> rfl) _

theorem hasReceiver_settle (m : Machine) (j : JobId) :
    m.settle.hasReceiver j = m.hasReceiver j :=
  settle_of_step (P := fun m' => m'.hasReceiver j = m.hasReceiver j)
    (fun m' hcontrol h => (m'.hasReceiver_step hcontrol).trans h) rfl

end Machine

theorem receive_of_message {job : Job} {data : Message} (hjob : m.jobs[j]? = some job)
    (hreceiver : job.hasReceiver = true) (hdata : job.inbox = some data) :
    m.receive j = (.message data,
      { m with jobs := m.jobs.modify j (fun job => { job with inbox := none }) }) := by
  simp [Machine.receive, hjob, hreceiver, hdata]

theorem receive_of_isHeld {job : Job} (hjob : m.jobs[j]? = some job)
    (hreceiver : job.hasReceiver = true) (hinbox : job.inbox = none) (hheld : m.isHeld j = true) :
    m.receive j = (.waiting, m) := by
  simp [Machine.receive, hjob, hreceiver, hinbox, hheld]

theorem mentions_of_runs {script : Script} (h : runs j script = true) :
    Machine.mentions j script = true := by
  obtain ⟨action, haction, hrun⟩ := List.any_eq_true.mp h
  refine List.any_eq_true.mpr ⟨action, haction, ?_⟩
  cases action with
  | run k label => exact hrun
  | _ => cases hrun

/-! ## Conversions from other threads -/

section

variable {e : Engine} {source : Source} {id : FormatId} {ranked : RankedFormats}

theorem run_convertThrough_of_none {delivery : Delivery} {owner : Machine} {memo : SubtypeMemo}
    (h : ranked.get? id = none) :
    (e.convertThrough source id ranked delivery owner).run memo = (.ok (none, owner), memo) := by
  simp only [Engine.convertThrough, h]
  rfl

theorem run_convertThrough_of_some {delivery : Delivery} {owner owner' : Machine}
    {memo : SubtypeMemo} {f : Flavor} {data : Message} (h : ranked.get? id = some f)
    (hawait : (delivery owner.jobs.length
      ((owner.newJob { script := [], outcome := ((e.exportFrom source f id).run memo).1 }).release
        owner.jobs.length)).await owner.jobs.length = (some data, owner'))
    (hpending : owner'.isPending owner.jobs.length = false) :
    (e.convertThrough source id ranked delivery owner).run memo
      = (.ok (data, owner'), ((e.exportFrom source f id).run memo).2) := by
  simp only [Engine.convertThrough, h, hawait, hpending]
  rfl

end

namespace System

variable {s s' : System}

/-- The steps that threads have left are with the threads. -/
theorem Next.control (hnext : Next s s') (h : s.machine.control = []) :
    s'.machine.control = [] := by
  cases hnext with
  | turn => rfl
  | act | thread | create | release | dropReceiver | forget => exact h
  | receive j =>
    rcases receive_cases s.machine j with ⟨job, data, -, -, hreceive⟩ | ⟨hmachine, -⟩
    · simpa only [System.receive, hreceive] using h
    · simpa only [System.receive, hmachine] using h

theorem Run.control (hrun : Run s s') (h : s.machine.control = []) : s'.machine.control = [] := by
  induction hrun with
  | refl => exact h
  | tail _ hnext ih => exact hnext.control ih

/-- A step creates no job, finds no message and leaves what was posted. -/
theorem note_cases (h : History) (m : Machine) (step : Step) :
    (h.note m step).conversions = h.conversions ∧ (h.note m step).received = h.received ∧
      h.posted <+: (h.note m step).posted := by
  unfold History.note
  split
  · split <;> exact ⟨rfl, rfl, List.prefix_refl _⟩
  · exact ⟨rfl, rfl, List.prefix_append _ _⟩
  · exact ⟨rfl, rfl, List.prefix_refl _⟩
  · exact ⟨rfl, rfl, List.prefix_refl _⟩

theorem Next.history (hnext : Next s s') :
    s.history.conversions <+: s'.history.conversions ∧ s.history.posted <+: s'.history.posted := by
  cases hnext with
  | turn =>
    obtain ⟨hconversions, -, hposted⟩ := note_cases s.history s.machine ‹Step›
    exact ⟨hconversions.symm ▸ List.prefix_refl _, hposted⟩
  | create c => exact ⟨List.prefix_append _ _, List.prefix_refl _⟩
  | act | thread | receive | release | dropReceiver | forget =>
    exact ⟨List.prefix_refl _, List.prefix_refl _⟩

/-- What was created and what was posted stays so. -/
theorem Run.history (hrun : Run s s') :
    s.history.conversions <+: s'.history.conversions ∧ s.history.posted <+: s'.history.posted := by
  induction hrun with
  | refl => exact ⟨List.prefix_refl _, List.prefix_refl _⟩
  | tail _ hnext ih => exact ⟨ih.1.trans hnext.history.1, ih.2.trans hnext.history.2⟩

theorem Run.getElem?_conversions {c : Conversion} (hrun : Run s s')
    (hc : s.history.conversions[j]? = some c) : s'.history.conversions[j]? = some c := by
  obtain ⟨later, hlater⟩ := hrun.history.1
  obtain ⟨hlt, -⟩ := List.getElem?_eq_some_iff.mp hc
  rw [← hlater, List.getElem?_append_left hlt]
  exact hc

/-- A machine that a thread works on comes to rest by turns of that thread. -/
theorem run_settle {i : Nat} (hi : s.threads[i]? = some m.control)
    (hm : s.machine = { m with control := [] }) :
    ∃ s', Run s s' ∧ s'.machine = m.settle ∧ s'.threads = s.threads.set i [] ∧
      s'.history.received = s.history.received := by
  obtain ⟨hlt, hget⟩ := List.getElem?_eq_some_iff.mp hi
  have hturns : ∃ s', Run s s' ∧ s'.machine = { m.settle with control := [] } ∧
      s'.threads = s.threads.set i m.settle.control ∧
      s'.history.received = s.history.received := by
    -- a step of the machine is a turn of the thread, whose steps are the control of the machine
    refine Machine.settle_of_step (P := fun m' => ∃ s', Run s s' ∧
      s'.machine = { m' with control := [] } ∧ s'.threads = s.threads.set i m'.control ∧
      s'.history.received = s.history.received) ?_ ⟨s, .refl, hm, ?_, rfl⟩
    · rintro m' hcontrol ⟨s', hrun, hmachine, hthreads, hreceived⟩
      obtain ⟨step, rest, hcons⟩ := List.exists_cons_of_ne_nil hcontrol
      have hi' : s'.threads[i]? = some (step :: rest) := by
        rw [hthreads, List.getElem?_set_self hlt, hcons]
      have hm' : { s'.machine with control := step :: rest } = m' := by
        rw [hmachine, ← hcons]
      refine ⟨s'.turn i step rest, hrun.tail (.turn hi'), ?_, ?_, ?_⟩
      · simp only [System.turn, hm']
      · simp only [System.turn, hm', hthreads, List.set_set]
      · exact (note_cases _ _ _).2.1.trans hreceived
    · rw [← hget, List.set_getElem_self]
  obtain ⟨s', hrun, hmachine, hthreads, hreceived⟩ := hturns
  have hrest := m.control_settle
  refine ⟨s', hrun, ?_, by rw [hthreads, hrest], hreceived⟩
  rw [hmachine, ← hrest]

/-- A call of the owner is made by a thread that is there for it alone. -/
theorem run_call (s : System) (action : Action) (hcontrol : s.machine.control = []) :
    ∃ s', Run s s' ∧ s'.machine = (s.machine.call action).2 ∧ s'.steps = s.steps ∧
      s'.history.received = s.history.received := by
  have hi : (s.threads ++ [[]])[s.threads.length]? = some [] := List.getElem?_concat_length
  have hbegun : Run s { s with
      machine := { s.machine with answer := 0 }
      threads := (s.threads ++ [[]]).set s.threads.length [.act action] } :=
    ((Run.single .forget).tail .thread).tail (.act action hi .idle)
  obtain ⟨s', hrun, hmachine, hthreads, hreceived⟩ :=
    run_settle (m := { s.machine with control := [.act action], answer := 0 })
      (List.getElem?_set_self (by simp)) (by rw [← hcontrol]) (s := { s with
        machine := { s.machine with answer := 0 }
        threads := (s.threads ++ [[]]).set s.threads.length [.act action] })
  refine ⟨s', hbegun.trans hrun, hmachine, ?_, hreceived⟩
  simp [steps, hthreads]

/-! ## Answers -/

/-- The messages that the requester of a job was sent. -/
def messages (s : System) (j : JobId) : List Message :=
  receivedBy j s.history.received ++ (s.machine.jobs[j]?.bind Job.inbox).toList

/-- No thread is about to run the job, or in its conversion. -/
structure IsIdle (s : System) (j : JobId) : Prop where
  not_run : ∀ label, .act (.run j label) ∉ s.steps
  not_finish : ∀ outcome, .finish j outcome ∉ s.steps

theorem IsIdle.finishing_eq_nil (h : s.IsIdle j) : finishing j s.steps = [] := by
  refine List.filterMap_eq_nil_iff.mpr (fun step hstep => ?_)
  cases step with
  | finish k outcome =>
    refine if_neg ?_
    rintro rfl
    exact h.not_finish outcome hstep
  | act action | report label n | keepDraining label n => rfl

theorem IsIdle.of_steps_eq (h : s.IsIdle j) (hsteps : s'.steps = s.steps) : s'.IsIdle j :=
  ⟨hsteps ▸ h.not_run, hsteps ▸ h.not_finish⟩

/-- A job that was posted has been answered, unless a task that waits runs it. -/
theorem Invariant.completed_or_queued (h : Invariant s) (hposted : j ∈ s.history.posted)
    (hidle : s.IsIdle j) :
    j ∈ s.history.completed ∨ ∃ script ∈ s.machine.queue, runs j script = true := by
  have hs := h j
  unfold Stands at hs
  rw [hidle.finishing_eq_nil] at hs
  rcases hs.completed_or_upcoming hposted with hcompleted | hqueued | ⟨label, hmem⟩
  · exact Or.inl (List.count_pos_iff.mp hcompleted)
  · exact Or.inr hqueued
  · exact absurd hmem (hidle.not_run label)

theorem Invariant.completed_of_queue_eq_nil (h : Invariant s) (hposted : j ∈ s.history.posted)
    (hidle : s.IsIdle j) (hqueue : s.machine.queue = []) : j ∈ s.history.completed := by
  rcases h.completed_or_queued hposted hidle with hcompleted | ⟨script, hscript, -⟩
  · exact hcompleted
  · rw [hqueue] at hscript
    cases hscript

/-- A requester finds nothing before the conversion has ended. -/
theorem Invariant.messages_eq_nil (h : Invariant s) (hnot : j ∉ s.history.completed) :
    s.messages j = [] := by
  have hs := h j
  unfold Stands at hs
  rw [List.count_eq_zero.mpr hnot] at hs
  exact hs.unanswered

/-- A requester that looks for its message after the conversion has ended finds it. -/
theorem Invariant.receive_of_completed {c : Conversion} (h : Invariant s)
    (hc : s.history.conversions[j]? = some c) (hcompleted : j ∈ s.history.completed)
    (hunread : receivedBy j s.history.received = []) (hreceiver : s.machine.hasReceiver j = true) :
    ∃ owner, s.machine.receive j = (.message (messageOf c.outcome), owner) ∧
      owner.isPending j = false := by
  have hs := h j
  unfold Stands at hs
  rw [hc] at hs
  obtain ⟨job, hjob, hconversion, hmessages⟩ := hs.ended (List.count_pos_iff.mpr hcompleted)
  have hkept : job.hasReceiver = true := by simpa [Machine.hasReceiver, hjob] using hreceiver
  rw [hunread, hkept] at hmessages
  have hinbox : job.inbox = some (messageOf c.outcome) := by simpa using hmessages
  refine ⟨_, receive_of_message hjob hkept hinbox, ?_⟩
  simp [Machine.isPending, Machine.pending?, List.getElem?_modify_eq, hjob, hconversion]

/-- A requester that looks for its message before that finds that there will be one. -/
theorem Invariant.receive_of_queued (h : Invariant s) (hnot : j ∉ s.history.completed)
    (hreceiver : s.machine.hasReceiver j = true)
    (hqueued : ∃ script ∈ s.machine.queue, runs j script = true) :
    s.machine.receive j = (.waiting, s.machine) := by
  obtain ⟨job, hjob, hkept⟩ := (Option.any_eq_true _ _).mp hreceiver
  have hmessages := h.messages_eq_nil hnot
  have hinbox : job.inbox = none := by
    rw [messages, hjob] at hmessages
    simpa using (List.append_eq_nil_iff.mp hmessages).2
  refine receive_of_isHeld hjob hkept hinbox ?_
  obtain ⟨script, hscript, hruns⟩ := hqueued
  have hqueue : s.machine.queue.any (Machine.mentions j) = true :=
    List.any_eq_true.mpr ⟨script, hscript, mentions_of_runs hruns⟩
  rw [Machine.isHeld, hqueue, Bool.or_true]

/-- **A requester that waits is told how the conversion ended.** -/
theorem Invariant.await_of_posted {c : Conversion} (h : Invariant s)
    (hcontrol : s.machine.control = []) (hc : s.history.conversions[j]? = some c)
    (hposted : j ∈ s.history.posted) (hidle : s.IsIdle j)
    (hunread : receivedBy j s.history.received = []) (hreceiver : s.machine.hasReceiver j = true) :
    ∃ owner, s.machine.await j = (some (messageOf c.outcome), owner) ∧
      owner.isPending j = false := by
  by_cases hcompleted : j ∈ s.history.completed
  · obtain ⟨owner, hreceive, hpending⟩ := h.receive_of_completed hc hcompleted hunread hreceiver
    exact ⟨owner, by simp only [Machine.await, hreceive], hpending⟩
  -- nothing has been sent, but a task that waits will run the job
  · have hqueued := (h.completed_or_queued hposted hidle).resolve_left hcompleted
    have hwaiting := h.receive_of_queued hcompleted hreceiver hqueued
    obtain ⟨s', hrun, hmachine, hsteps, hreceived⟩ := run_call s (.drain none) hcontrol
    have hdrained : s'.machine = s.machine.drain.2 := hmachine
    have hreceiver' : s'.machine.hasReceiver j = true := by
      rw [hmachine]
      exact (Machine.hasReceiver_settle _ j).trans hreceiver
    have hcompleted' : j ∈ s'.history.completed :=
      (h.run hrun).completed_of_queue_eq_nil (hrun.history.2.subset hposted)
        (hidle.of_steps_eq hsteps) (by rw [hdrained, Machine.queue_drain])
    obtain ⟨owner, hreceive, hpending⟩ := (h.run hrun).receive_of_completed
      (hrun.getElem?_conversions hc) hcompleted' (hreceived ▸ hunread) hreceiver'
    refine ⟨owner, ?_, hpending⟩
    simp only [Machine.await, hwaiting, ← hdrained, hreceive]

/-- A job is created for a conversion that is done in one go, and given away. -/
def handOver (s : System) (outcome : Except Failure (Option Bytes)) : System :=
  let created := s.create { script := [], outcome }
  { created with machine := created.machine.release s.machine.jobs.length }

/-- What becomes of a job that is handed over comes about by a run: the job is posted, whatever else
happens, and its requester waits when no thread is about to run the job or in its conversion. -/
structure Delivers (delivery : Delivery) (s : System) (outcome : Except Failure (Option Bytes))
    (s' : System) : Prop where
  run : Run (s.handOver outcome) s'
  machine_eq : delivery s.machine.jobs.length (s.handOver outcome).machine = s'.machine
  posted : s.machine.jobs.length ∈ s'.history.posted
  idle : s'.IsIdle s.machine.jobs.length
  unread : receivedBy s.machine.jobs.length s'.history.received = []
  hasReceiver : s'.machine.hasReceiver s.machine.jobs.length = true

theorem run_handOver (s : System) (outcome : Except Failure (Option Bytes)) :
    Run s (s.handOver outcome) :=
  (Run.single (.create _)).tail (.release _)

/-- An idle thread acts, if nothing more is to be done about it. -/
theorem run_act {i : Nat} {after : Machine} (action : Action) (hi : s.threads[i]? = some [])
    (hafter : { s.machine with control := [.act action] }.step = after)
    (hrest : after.control = []) :
    Run s { s with machine := after, history := s.history.note s.machine (.act action) } := by
  obtain ⟨hlt, hget⟩ := List.getElem?_eq_some_iff.mp hi
  have hacts := Run.single (.act action hi .idle)
  have hturn := hacts.tail (.turn (i := i) (List.getElem?_set_self hlt))
  have hthreads : s.threads.set i [] = s.threads := by
    rw [← hget, List.set_getElem_self]
  have hmachine : { after with control := [] } = after := by rw [← hrest]
  simp only [System.turn, hafter, hrest, hmachine, List.set_set, hthreads] at hturn
  exact hturn

/-- A job is posted by a thread that is there for it alone. -/
theorem run_posting (s : System) (j : JobId) (hcontrol : s.machine.control = []) :
    Run s
      { machine := s.machine.postJob j
        threads := s.threads ++ [[]]
        history := s.history.note s.machine (.act (.post (Machine.taskOf j))) } := by
  obtain ⟨⟨jobs, queue, current, control, events, answer⟩, threads, history⟩ := s
  obtain rfl : control = [] := hcontrol
  have hi : (threads ++ [[]])[threads.length]? = some [] := List.getElem?_concat_length
  have hset := run_act (s := ⟨⟨jobs, queue, current, [], events, answer⟩, _, history⟩)
    (.setCurrent j) hi rfl rfl
  have hpost := run_act (s := ⟨⟨jobs, queue, some j, [], events, answer⟩, _, history⟩)
    (.post (Machine.taskOf j)) hi rfl rfl
  exact ((Run.single .thread).trans hset).trans hpost

/-- Nothing need have happened to the task of the job yet when the requester begins to wait. -/
theorem delivers_postJob (hs : Reachable s) (hidle : s.IsIdle s.machine.jobs.length)
    (outcome : Except Failure (Option Bytes)) :
    ∃ s', Delivers (fun j m => m.postJob j) s outcome s' := by
  have hcontrol : (s.handOver outcome).machine.control = [] := hs.control rfl
  have hunread : receivedBy s.machine.jobs.length s.history.received = [] := by
    have hstands := invariant_of_reachable hs s.machine.jobs.length
    unfold Stands at hstands
    rw [← (invariant_of_reachable hs).length_eq, List.getElem?_eq_none (Nat.le_refl _)] at hstands
    rw [← (invariant_of_reachable hs).length_eq]
    exact hstands.received_of_unknown
  refine ⟨_, run_posting _ s.machine.jobs.length hcontrol, rfl, ?_, ?_, hunread, ?_⟩
  · refine List.mem_append_right _ (List.mem_filter.mpr ⟨List.mem_range.mpr ?_, ?_⟩)
    · simp [handOver, create, Machine.newJob, Machine.release]
    · simp [runs, Machine.taskOf]
  · exact hidle.of_steps_eq (by simp [steps, handOver, create])
  · simp [Machine.hasReceiver, handOver, create, Machine.newJob, Machine.release, Machine.postJob,
      Machine.post]

theorem Delivers.await {delivery : Delivery} {outcome : Except Failure (Option Bytes)}
    (hs : Reachable s) (h : Delivers delivery s outcome s') :
    ∃ owner, (delivery s.machine.jobs.length (s.handOver outcome).machine).await
        s.machine.jobs.length = (some (messageOf outcome), owner) ∧
      owner.isPending s.machine.jobs.length = false := by
  have hrun : Run s s' := (run_handOver s outcome).trans h.run
  have hreachable : Reachable s' := hs.trans hrun
  have hcreated : (s.handOver outcome).history.conversions[s.machine.jobs.length]?
      = some { script := [], outcome } := by
    rw [← (invariant_of_reachable hs).length_eq]
    exact List.getElem?_concat_length
  rw [h.machine_eq]
  exact (invariant_of_reachable hreachable).await_of_posted (hreachable.control rfl)
    (h.run.getElem?_conversions hcreated) h.posted h.idle h.unread h.hasReceiver

/-- **Every conversion is delivered once.** At any time a conversion was begun at most once; its
requester was sent nothing before it ended, and after that just the message about it, unless the
requester had gone; and one that was posted has ended once the queue is empty and no thread is in
the middle of it. A conversion that is asked for from another thread gives what it gives on the
spot, a failure becoming no data. -/
theorem delivered_once (hs : Reachable s) :
    (∀ j c, s.history.conversions[j]? = some c →
      s.history.started.count j ≤ 1 ∧ s.history.completed.count j ≤ s.history.started.count j ∧
      (j ∉ s.history.completed → s.messages j = []) ∧
      (j ∈ s.history.completed → s.messages j = [messageOf c.outcome] ∨
        s.machine.hasReceiver j = false ∧ s.messages j = []) ∧
      (j ∈ s.history.posted → s.machine.queue = [] → s.IsIdle j → j ∈ s.history.completed)) ∧
    ∀ (e : Engine) (source : Source) (id : FormatId) (ranked : RankedFormats)
      (delivery : Delivery) (memo : SubtypeMemo) (s' : System),
      (∀ f, ranked.get? id = some f →
        Delivers delivery s ((e.exportFrom source f id).run memo).1 s') →
      ∃ owner, (e.convertThrough source id ranked delivery s.machine).run memo
        = (.ok (messageOf ((e.convert source id ranked).run memo).1, owner),
          ((e.convert source id ranked).run memo).2) := by
  have hinvariant := invariant_of_reachable hs
  constructor
  · intro j c hc
    have hstands := hinvariant j
    unfold Stands at hstands
    rw [hc] at hstands
    refine ⟨hstands.starts_le.1, hstands.starts_le.2, hinvariant.messages_eq_nil, ?_, ?_⟩
    · intro hcompleted
      obtain ⟨job, hjob, -, hmessages⟩ := hstands.ended (List.count_pos_iff.mpr hcompleted)
      simpa [messages, Machine.hasReceiver, hjob] using hmessages
    · intro hposted hqueue hidle
      exact hinvariant.completed_of_queue_eq_nil hposted hidle hqueue
  · intro e source id ranked delivery memo s' hdelivers
    cases hf : ranked.get? id with
    | none =>
      refine ⟨s.machine, ?_⟩
      rw [run_convertThrough_of_none hf]
      simp only [Engine.convert, hf]
      rfl
    | some f =>
      obtain ⟨owner, hawait, hpending⟩ := (hdelivers f hf).await hs
      refine ⟨owner, ?_⟩
      rw [run_convertThrough_of_some hf hawait hpending]
      simp only [Engine.convert, hf]

/-- A job was posted, and the owner has run its task up to the end of the conversion. -/
def answered : System :=
  { machine :=
      { jobs := [{ conversion := none, inbox := some (some [0x61]), hasReceiver := true,
                   isKept := true }]
        queue := []
        current := some 0
        control := []
        events := []
        answer := 0 }
    threads := [[.report none 1, .act (.clearCurrent 0), .report none 1]]
    history :=
      { conversions := [{ script := [], outcome := .ok (some [0x61]) }]
        posted := [0], started := [0], completed := [0], received := [] } }

theorem reachable_answered : Reachable answered := by
  have hcreated := Run.single (s := initial) (.create { script := [], outcome := .ok (some [0x61]) })
  have hset := ((hcreated.tail .thread).tail (.act (.setCurrent 0) (i := 0) rfl .idle)).tail
    (.turn (i := 0) rfl)
  have hposted := (hset.tail (.act (.post (Machine.taskOf 0)) (i := 0) rfl .idle)).tail
    (.turn (i := 0) rfl)
  have htaken := (hposted.tail (.act (.runNext none) (i := 0) rfl .idle)).tail (.turn (i := 0) rfl)
  have hended := (htaken.tail (.turn (i := 0) rfl)).tail (.turn (i := 0) rfl)
  exact hended

/-- The code of a source breaks off in a conversion that another thread asked for. -/
theorem delivered_once_answered :
    let e : Engine := .new { files := { nodes := [], current := [] }, environment := .ofList [] }
      { natives := [], formatsOf := [], flavorsOf := [] } "UTF-8"
    let source : Source :=
      { flavors := [Flavor.string], data := fun _ => .error .breakdown, permission := none }
    let ranked : RankedFormats := [{ format := .unicodeText, flavor := Flavor.string, index := 0 }]
    answered.messages 0 = [some [0x61]] ∧
      ∃ owner, (e.convertThrough source .unicodeText ranked (fun j m => m.postJob j)
        answered.machine).run .empty = (.ok (none, owner), .empty) := by
  intro e source ranked
  have hidle : answered.IsIdle answered.machine.jobs.length :=
    ⟨fun label => by simp [answered, steps], fun outcome => by simp [answered, steps]⟩
  obtain ⟨s', hdelivers⟩ := delivers_postJob reachable_answered hidle
    ((e.exportFrom source Flavor.string .unicodeText).run .empty).1
  obtain ⟨hjobs, hconversions⟩ := delivered_once reachable_answered
  refine ⟨?_, hconversions e source .unicodeText ranked _ .empty s' ?_⟩
  · exact ((hjobs 0 _ rfl).2.2.2.1 (by decide)).resolve_right (fun hgone => by cases hgone.1)
  · rintro f ⟨⟩
    exact hdelivers

end System

end Clipboard.Handoff
