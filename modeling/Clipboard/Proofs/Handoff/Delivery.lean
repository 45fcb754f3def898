import Clipboard.Proofs.Handoff.System

/-!
# Every conversion is delivered once

Where a job stands can be told from what is left to do (`Status`): it is yet to be run, and if it was
posted something left to do will run it; or its conversion is going on, in just one place; or it has
ended and its message was sent. `Invariant` says this of every job. Each thing that may happen
preserves it, so it holds of all that can have come about (`invariant_of_reachable`).

It does not matter here which thread has a step left and what stands before it, so the steps of all
threads are looked at together, up to their order.
-/

namespace Clipboard.Handoff

variable {j k : JobId} {c : Conversion} {steps others new : List Step} {queue : List Script}

/-! ## What is left to do about a job -/

/-- The outcomes of the conversions of a job that are going on. -/
def finishing (j : JobId) (steps : List Step) : List (Except Failure (Option Bytes)) :=
  steps.filterMap (fun
    | .finish k outcome => if k = j then some outcome else none
    | _ => none)

/-- Something left to do will run the job. -/
def Upcoming (j : JobId) (queue : List Script) (steps : List Step) : Prop :=
  (∃ script ∈ queue, runs j script = true) ∨ ∃ label, .act (.run j label) ∈ steps

theorem finishing_append (j : JobId) (a b : List Step) :
    finishing j (a ++ b) = finishing j a ++ finishing j b := List.filterMap_append

theorem finishing_cons_of_not_isFinish {x : Step} (h : x.isFinish = false) :
    finishing j (x :: steps) = finishing j steps := by
  cases x with
  | finish k outcome => cases h
  | act action | report label n | keepDraining label n => rfl

theorem finishing_append_of_not_isFinish (h : ∀ x ∈ new, x.isFinish = false) :
    finishing j (new ++ steps) = finishing j steps := by
  induction new with
  | nil => rfl
  | cons x new ih =>
    rw [List.cons_append, finishing_cons_of_not_isFinish (h x List.mem_cons_self),
      ih (fun y hy => h y (List.mem_cons_of_mem _ hy))]

theorem finishing_stepsOf (script : Script) :
    finishing j (Machine.stepsOf script steps) = finishing j steps := by
  refine finishing_append_of_not_isFinish (fun x hx => ?_)
  obtain ⟨action, -, rfl⟩ := List.mem_map.mp hx
  rfl

theorem finishing_cons_finish_self (outcome : Except Failure (Option Bytes)) :
    finishing j (.finish j outcome :: steps) = outcome :: finishing j steps := by
  simp [finishing]

theorem finishing_cons_finish_of_ne (h : k ≠ j) (outcome : Except Failure (Option Bytes)) :
    finishing j (.finish k outcome :: steps) = finishing j steps := by
  simp [finishing, h]

theorem isFinish_of_isPlain {x : Step} (h : x.isPlain = true) : x.isFinish = false := by
  cases x with
  | finish k outcome => cases h
  | act action | report label n | keepDraining label n => rfl

theorem Upcoming.of_perm (hp : steps.Perm others) (h : Upcoming j queue steps) :
    Upcoming j queue others :=
  h.imp id (fun ⟨label, hmem⟩ => ⟨label, hp.mem_iff.mp hmem⟩)

theorem Upcoming.append_left (h : Upcoming j queue others) : Upcoming j queue (new ++ others) :=
  h.imp id (fun ⟨label, hmem⟩ => ⟨label, List.mem_append_right _ hmem⟩)

theorem Upcoming.cons {x : Step} (h : Upcoming j queue steps) : Upcoming j queue (x :: steps) :=
  h.imp id (fun ⟨label, hmem⟩ => ⟨label, List.mem_cons_of_mem _ hmem⟩)

/-- A step that does not run the job may be taken. -/
theorem Upcoming.tail {x : Step} (hx : ∀ label, x ≠ .act (.run j label))
    (h : Upcoming j queue (x :: others)) : Upcoming j queue others := by
  rcases h with hqueue | ⟨label, hmem⟩
  · exact Or.inl hqueue
  · rcases List.mem_cons.mp hmem with heq | hmem
    · exact absurd heq.symm (hx label)
    · exact Or.inr ⟨label, hmem⟩

theorem ne_run_of_isPlain {x : Step} (h : x.isPlain = true) (label : Option String) :
    x ≠ .act (.run j label) := by
  rintro rfl
  cases h

/-- A task that is taken from the queue runs what it would have run. -/
theorem Upcoming.of_pop {x : Step} {script : Script} (hx : ∀ label, x ≠ .act (.run j label))
    (hnew : ∀ action ∈ script, .act action ∈ new)
    (h : Upcoming j (script :: queue) (x :: others)) : Upcoming j queue (new ++ others) := by
  rcases h with ⟨task, htask, hruns⟩ | hmem
  · rcases List.mem_cons.mp htask with rfl | htask
    · obtain ⟨action, haction, hrun⟩ := List.any_eq_true.mp hruns
      cases action with
      | run k label =>
        have hk : k = j := by simpa using hrun
        exact Or.inr ⟨label, List.mem_append_left _ (hk ▸ hnew _ haction)⟩
      | _ => cases hrun
    · exact Or.inl ⟨task, htask, hruns⟩
  · exact (Upcoming.tail hx (Or.inr hmem)).append_left

/-! ## Where a job stands -/

/-- The messages that the requester of a job found. -/
def receivedBy (j : JobId) (received : List (JobId × Message)) : List Message :=
  received.filterMap (fun p => if p.1 = j then some p.2 else none)

theorem receivedBy_append (j : JobId) (a b : List (JobId × Message)) :
    receivedBy j (a ++ b) = receivedBy j a ++ receivedBy j b := List.filterMap_append

@[simp] theorem receivedBy_singleton_self (j : JobId) (data : Message) :
    receivedBy j [(j, data)] = [data] := by
  simp [receivedBy]

theorem receivedBy_singleton_of_ne (h : k ≠ j) (data : Message) :
    receivedBy j [(k, data)] = [] := by
  simp [receivedBy, h]

/-- Where a job stands, by its conversion, its state, its conversions that are going on, how often
it was started and completed, and the messages its requester found. -/
inductive Status (posted upcoming : Prop) : Option Conversion → Option Job →
    List (Except Failure (Option Bytes)) → Nat → Nat → List Message → Prop where
  /-- There is no such job. -/
  | unknown : ¬posted → Status posted upcoming none none [] 0 0 []
  /-- It is yet to be run. -/
  | waiting {c : Conversion} {job : Job} : job.conversion = some c → job.inbox = none →
      (posted → upcoming) → Status posted upcoming (some c) (some job) [] 0 0 []
  /-- Its conversion is going on. -/
  | running {c : Conversion} {job : Job} : job.conversion = none → job.inbox = none →
      Status posted upcoming (some c) (some job) [c.outcome] 1 0 []
  /-- Its conversion has ended. -/
  | done {c : Conversion} {job : Job} {received : List Message} : job.conversion = none →
      (received ++ job.inbox.toList = [messageOf c.outcome] ∨
        job.hasReceiver = false ∧ received ++ job.inbox.toList = []) →
      Status posted upcoming (some c) (some job) [] 1 1 received

namespace Status

variable {posted upcoming posted' upcoming' : Prop} {conversion : Option Conversion}
  {job : Option Job} {outcomes outcomes' : List (Except Failure (Option Bytes))}
  {starts completions : Nat} {received : List Message}

/-- More may be posted of a job that there is, if something left to do will run it. -/
theorem weaken (h : Status posted upcoming conversion job outcomes starts completions received)
    (hposted : posted' → posted ∨ (job.isSome = true ∧ upcoming'))
    (hupcoming : upcoming → upcoming') :
    Status posted' upcoming' conversion job outcomes starts completions received := by
  cases h with
  | unknown hnot =>
    refine .unknown (fun hp => ?_)
    rcases hposted hp with hp | ⟨hjob, -⟩
    · exact hnot hp
    · cases hjob
  | waiting hconversion hinbox hkept =>
    refine .waiting hconversion hinbox (fun hp => ?_)
    rcases hposted hp with hp | ⟨-, hup⟩
    · exact hupcoming (hkept hp)
    · exact hup
  | running hconversion hinbox => exact .running hconversion hinbox
  | done hconversion hmessages => exact .done hconversion hmessages

theorem isSome_eq (h : Status posted upcoming conversion job outcomes starts completions received) :
    conversion.isSome = job.isSome := by
  cases h <;> rfl

theorem of_perm (h : Status posted upcoming conversion job outcomes starts completions received)
    (hp : outcomes.Perm outcomes') :
    Status posted upcoming conversion job outcomes' starts completions received := by
  cases h with
  | unknown hnot =>
    rw [List.nil_perm.mp hp]
    exact .unknown hnot
  | waiting hconversion hinbox hkept =>
    rw [List.nil_perm.mp hp]
    exact .waiting hconversion hinbox hkept
  | running hconversion hinbox =>
    rw [← List.singleton_perm.mp hp]
    exact .running hconversion hinbox
  | done hconversion hmessages =>
    rw [List.nil_perm.mp hp]
    exact .done hconversion hmessages

/-- Nothing left to do need run a job that is not yet to be run. -/
theorem of_not_pending
    (h : Status posted upcoming conversion job outcomes starts completions received)
    (hjob : job.bind Job.conversion = none) :
    Status posted upcoming' conversion job outcomes starts completions received := by
  cases h with
  | unknown hnot => exact .unknown hnot
  | waiting hconversion => exact absurd (hconversion.symm.trans hjob) (by simp)
  | running hconversion hinbox => exact .running hconversion hinbox
  | done hconversion hmessages => exact .done hconversion hmessages

/-- What the machine does not look at may change, and a requester may stop receiving. -/
theorem of_job {f : Job → Job}
    (h : Status posted upcoming conversion job outcomes starts completions received)
    (hconversion : ∀ job, (f job).conversion = job.conversion)
    (hinbox : ∀ job, (f job).inbox = job.inbox)
    (hreceiver : ∀ job, job.hasReceiver = false → (f job).hasReceiver = false) :
    Status posted upcoming conversion (job.map f) outcomes starts completions received := by
  cases h with
  | unknown hnot => exact .unknown hnot
  | waiting hc hi hkept => exact .waiting ((hconversion _).trans hc) ((hinbox _).trans hi) hkept
  | running hc hi => exact .running ((hconversion _).trans hc) ((hinbox _).trans hi)
  | done hc hmessages =>
    refine .done ((hconversion _).trans hc) ?_
    rw [hinbox]
    exact hmessages.imp id (fun hgone => ⟨hreceiver _ hgone.1, hgone.2⟩)

theorem start {job : Job} {c : Conversion}
    (h : Status posted upcoming conversion (some job) outcomes starts completions received)
    (hc : job.conversion = some c) :
    Status posted' upcoming' conversion (some { job with conversion := none })
      (c.outcome :: outcomes) (starts + 1) completions received := by
  cases h with
  | waiting hconversion hinbox =>
    rw [hc] at hconversion
    cases hconversion
    exact .running rfl hinbox
  | running hconversion =>
    rw [hc] at hconversion
    cases hconversion
  | done hconversion =>
    rw [hc] at hconversion
    cases hconversion

theorem finish {outcome : Except Failure (Option Bytes)}
    (h : Status posted upcoming conversion job (outcome :: outcomes) starts completions received) :
    Status posted' upcoming' conversion
      (job.map (fun job => if job.hasReceiver ∧ job.inbox.isNone then
        { job with inbox := some (messageOf outcome) } else job))
      outcomes starts (completions + 1) received := by
  cases h with
  | @running c job hconversion hinbox =>
    by_cases hreceiver : job.hasReceiver = true
    · rw [Option.map_some, if_pos ⟨hreceiver, by rw [hinbox]; rfl⟩]
      exact .done hconversion (Or.inl rfl)
    · rw [Option.map_some, if_neg (fun hboth => hreceiver hboth.1)]
      refine .done hconversion (Or.inr ⟨Bool.eq_false_iff.mpr hreceiver, ?_⟩)
      rw [hinbox]
      rfl

theorem create {job : Job} {c : Conversion}
    (h : Status posted upcoming none none outcomes starts completions received)
    (hconversion : job.conversion = some c) (hinbox : job.inbox = none) :
    Status posted upcoming' (some c) (some job) outcomes starts completions received := by
  cases h with
  | unknown hnot => exact .waiting hconversion hinbox (fun hposted => absurd hposted hnot)

theorem take {job : Job} {data : Message}
    (h : Status posted upcoming conversion (some job) outcomes starts completions received)
    (hdata : job.inbox = some data) :
    Status posted upcoming conversion (some { job with inbox := none }) outcomes starts completions
      (received ++ [data]) := by
  cases h with
  | waiting hconversion hinbox => exact absurd (hinbox.symm.trans hdata) (by simp)
  | running hconversion hinbox => exact absurd (hinbox.symm.trans hdata) (by simp)
  | done hconversion hmessages =>
    refine .done hconversion ?_
    simpa [hdata] using hmessages

theorem completed_or_upcoming
    (h : Status posted upcoming conversion job [] starts completions received) (hposted : posted) :
    0 < completions ∨ upcoming := by
  cases h with
  | unknown hnot => exact absurd hposted hnot
  | waiting _ _ hkept => exact Or.inr (hkept hposted)
  | done => exact Or.inl Nat.one_pos

theorem starts_le (h : Status posted upcoming conversion job outcomes starts completions received) :
    starts ≤ 1 ∧ completions ≤ starts := by
  cases h <;> decide

theorem unanswered (h : Status posted upcoming conversion job outcomes starts 0 received) :
    received ++ (job.bind Job.inbox).toList = [] := by
  cases h with
  | unknown => rfl
  | waiting _ hinbox | running _ hinbox => simp [hinbox]

theorem received_of_unknown
    (h : Status posted upcoming none job outcomes starts completions received) : received = [] := by
  cases h
  rfl

theorem ended {c : Conversion}
    (h : Status posted upcoming (some c) job outcomes starts completions received)
    (hcompletions : 0 < completions) : ∃ job', job = some job' ∧ job'.conversion = none ∧
      (received ++ job'.inbox.toList = [messageOf c.outcome] ∨
        job'.hasReceiver = false ∧ received ++ job'.inbox.toList = []) := by
  cases h with
  | waiting | running => cases hcompletions
  | done hconversion hmessages => exact ⟨_, rfl, hconversion, hmessages⟩

end Status

/-- Where a job stands, going by what has happened and by what is left to do. -/
def Stands (j : JobId) (h : History) (jobs : List Job) (queue : List Script) (steps : List Step) :
    Prop :=
  Status (j ∈ h.posted) (Upcoming j queue steps) h.conversions[j]? jobs[j]? (finishing j steps)
    (h.started.count j) (h.completed.count j) (receivedBy j h.received)

theorem Stands.of_perm {h : History} {jobs : List Job} (hs : Stands j h jobs queue steps)
    (hp : steps.Perm others) : Stands j h jobs queue others :=
  (Status.of_perm hs (hp.filterMap _)).weaken Or.inl (Upcoming.of_perm hp)

theorem Stands.cons {h : History} {jobs : List Job} {x : Step} (hx : x.isFinish = false)
    (hs : Stands j h jobs queue steps) : Stands j h jobs queue (x :: steps) := by
  unfold Stands at hs ⊢
  rw [finishing_cons_of_not_isFinish hx]
  exact hs.weaken Or.inl Upcoming.cons

/-! ## Steps -/

theorem note_of_isPlain {h : History} {m : Machine} {step : Step} (hplain : step.isPlain = true) :
    h.note m step = h := by
  unfold History.note
  split
  · cases hplain
  · cases hplain
  · cases hplain
  · rfl

section

variable {h : History} {jobs : List Job} {script : Script} {label : Option String}

/-- A job that a task runs may count as posted when the task is queued. -/
theorem Stands.post (hs : Stands j h jobs queue (.act (.post script) :: others)) :
    Stands j
      { h with posted := h.posted ++ (List.range jobs.length).filter (runs · script) }
      jobs (queue ++ [script]) others := by
  refine Status.weaken hs ?_ ?_
  · intro hposted
    rcases List.mem_append.mp hposted with hposted | hposted
    · exact Or.inl hposted
    · obtain ⟨hrange, hruns⟩ := List.mem_filter.mp hposted
      have hlt : j < jobs.length := List.mem_range.mp hrange
      refine Or.inr ⟨by simp [hlt], Or.inl ⟨script, ?_, hruns⟩⟩
      exact List.mem_append_right _ (List.mem_singleton_self script)
  · rintro (⟨task, htask, hruns⟩ | hmem)
    · exact Or.inl ⟨task, List.mem_append_left _ htask, hruns⟩
    · exact Upcoming.tail (by simp) (Or.inr hmem)

theorem Stands.again (hs : Stands j h jobs queue (.act (.run k label) :: others))
    (hpending : jobs[k]?.bind Job.conversion = none) :
    Stands j h jobs queue others := by
  by_cases hkj : k = j
  · subst hkj
    exact hs.of_not_pending hpending
  · have hne : ∀ l, Step.act (.run k label) ≠ .act (.run j l) := by simpa using hkj
    exact Status.weaken hs Or.inl (Upcoming.tail hne)

theorem Stands.start (hs : Stands j h jobs queue (.act (.run k label) :: others))
    (hpending : jobs[k]?.bind Job.conversion = some c) :
    Stands j { h with started := h.started ++ [k] }
      (jobs.modify k (fun job => { job with conversion := none })) queue
      (Machine.stepsOf c.script [.finish k c.outcome, .report label 1] ++ others) := by
  -- what the conversion does on the way ends no conversion
  have hfinishing : finishing j (Machine.stepsOf c.script
      [.finish k c.outcome, .report label 1] ++ others)
        = finishing j (.finish k c.outcome :: others) := by
    rw [finishing_append, finishing_stepsOf, ← finishing_append]
    rfl
  unfold Stands at hs ⊢
  rw [hfinishing]
  by_cases hkj : k = j
  · subst hkj
    obtain ⟨job, hjob, hconversion⟩ := Option.bind_eq_some_iff.mp hpending
    rw [hjob] at hs
    rw [finishing_cons_finish_self, List.getElem?_modify_eq, hjob, List.count_append,
      List.count_singleton_self]
    exact hs.start hconversion
  · have hne : ∀ l, Step.act (.run k label) ≠ .act (.run j l) := by simpa using hkj
    rw [finishing_cons_finish_of_ne hkj, List.getElem?_modify_ne _ _ hkj, List.count_append,
      List.count_singleton, if_neg (by simpa using hkj)]
    exact hs.weaken Or.inl (fun hup => (hup.tail hne).append_left)

theorem Stands.finish {outcome : Except Failure (Option Bytes)}
    (hs : Stands j h jobs queue (.finish k outcome :: others)) :
    Stands j { h with completed := h.completed ++ [k] }
      (jobs.modify k (fun job => if job.hasReceiver ∧ job.inbox.isNone then
        { job with inbox := some (messageOf outcome) } else job)) queue others := by
  unfold Stands at hs ⊢
  by_cases hkj : k = j
  · subst hkj
    rw [finishing_cons_finish_self] at hs
    rw [List.getElem?_modify_eq, List.count_append, List.count_singleton_self]
    exact Status.finish hs
  · have hne : ∀ l, Step.finish k outcome ≠ .act (.run j l) := by simp
    rw [finishing_cons_finish_of_ne hkj] at hs
    rw [List.getElem?_modify_ne _ _ hkj, List.count_append, List.count_singleton,
      if_neg (by simpa using hkj)]
    exact Status.weaken hs Or.inl (Upcoming.tail hne)

end

/-- **A step leaves every job with a standing.** -/
theorem Stands.turn {h : History} {m : Machine} {step : Step} {jobs' : List Job}
    {queue' : List Script} (heffect : Effect m step jobs' queue' new)
    (hs : Stands j h m.jobs m.queue (step :: others)) :
    Stands j (h.note m step) jobs' queue' (new ++ others) := by
  cases heffect with
  | plain hplain hnew =>
    unfold Stands at hs ⊢
    rw [finishing_cons_of_not_isFinish (isFinish_of_isPlain hplain)] at hs
    rw [note_of_isPlain hplain, finishing_append_of_not_isFinish hnew]
    exact hs.weaken Or.inl (fun hup => (hup.tail (ne_run_of_isPlain hplain)).append_left)
  | pop hplain hqueue hscript hnew =>
    unfold Stands at hs ⊢
    rw [finishing_cons_of_not_isFinish (isFinish_of_isPlain hplain), hqueue] at hs
    rw [note_of_isPlain hplain, finishing_append_of_not_isFinish hnew]
    exact hs.weaken Or.inl (Upcoming.of_pop (ne_run_of_isPlain hplain) hscript)
  | post => exact hs.post
  | @again k label hpending =>
    have hnote : h.note m (.act (.run k label)) = h := by simp [History.note, hpending]
    rw [hnote]
    exact (hs.again (by simpa [Machine.isPending, Machine.pending?] using hpending)).cons rfl
  | @start k label c hpending =>
    have hnote : h.note m (.act (.run k label)) = { h with started := h.started ++ [k] } := by
      simp [History.note, Machine.isPending, hpending]
    rw [hnote]
    exact hs.start hpending
  | finish => exact hs.finish

/-! ## Runs -/

theorem perm_flatten_set {α : Type} {lists : List (List α)} {i : Nat} {list : List α}
    (h : lists[i]? = some list) : ∃ others, lists.flatten.Perm (list ++ others) ∧
      ∀ list', (lists.set i list').flatten.Perm (list' ++ others) := by
  induction lists generalizing i with
  | nil => cases h
  | cons first lists ih =>
    cases i with
    | zero =>
      cases h
      exact ⟨lists.flatten, .refl _, fun _ => .refl _⟩
    | succ i =>
      obtain ⟨others, hperm, hset⟩ := ih h
      refine ⟨first ++ others, ?_, fun list' => ?_⟩
      · exact (hperm.append_left first).trans (List.perm_append_comm_assoc _ _ _)
      · exact ((hset list').append_left first).trans (List.perm_append_comm_assoc _ _ _)

/-- Either the message is found and taken away, or nothing is. -/
theorem receive_cases (m : Machine) (j : JobId) :
    (∃ job data, m.jobs[j]? = some job ∧ job.inbox = some data ∧ m.receive j =
      (.message data, { m with jobs := m.jobs.modify j (fun job => { job with inbox := none }) })) ∨
    ((m.receive j).2 = m ∧ System.found j (m.receive j).1 = []) := by
  unfold Machine.receive
  split
  · exact Or.inr ⟨rfl, rfl⟩
  · next job hjob =>
    split
    · exact Or.inr ⟨rfl, rfl⟩
    · split
      · next data hdata => exact Or.inl ⟨job, data, hjob, hdata, rfl⟩
      · refine Or.inr ⟨rfl, ?_⟩
        cases m.isHeld j <;> rfl

namespace System

/-- Every job has a standing. -/
def Invariant (s : System) : Prop :=
  ∀ j, Stands j s.history s.machine.jobs s.machine.queue s.steps

variable {s s' : System}

theorem Invariant.initial : Invariant initial :=
  fun _ => .unknown List.not_mem_nil

/-- As many jobs were created as there are. -/
theorem Invariant.length_eq (h : Invariant s) :
    s.history.conversions.length = s.machine.jobs.length := by
  have hlt : ∀ j, j < s.history.conversions.length ↔ j < s.machine.jobs.length := by
    intro j
    have hsome : s.history.conversions[j]?.isSome = true ↔ s.machine.jobs[j]?.isSome = true := by
      rw [(h j).isSome_eq]
    rwa [isSome_getElem?, isSome_getElem?] at hsome
  have hconversions := hlt s.history.conversions.length
  have hjobs := hlt s.machine.jobs.length
  omega

theorem Invariant.turn {i : Nat} {step : Step} {rest : List Step} (h : Invariant s)
    (hi : s.threads[i]? = some (step :: rest)) : Invariant (s.turn i step rest) := by
  intro j
  obtain ⟨new, hcontrol, heffect⟩ :=
    effect_step (m := { s.machine with control := step :: rest }) rfl
  obtain ⟨others, hperm, hset⟩ := perm_flatten_set hi
  have hturn : Stands j (s.turn i step rest).history (s.turn i step rest).machine.jobs
      (s.turn i step rest).machine.queue (new ++ (rest ++ others)) :=
    Stands.turn (m := { s.machine with control := step :: rest }) heffect ((h j).of_perm hperm)
  refine hturn.of_perm ?_
  rw [← List.append_assoc, ← hcontrol]
  exact (hset _).symm

theorem Invariant.act {i : Nat} {control : List Step} (h : Invariant s) (action : Action)
    (hi : s.threads[i]? = some control) :
    Invariant { s with threads := s.threads.set i (.act action :: control) } := by
  intro j
  obtain ⟨others, hperm, hset⟩ := perm_flatten_set hi
  exact (((h j).of_perm hperm).cons rfl).of_perm (hset (.act action :: control)).symm

theorem Invariant.thread (h : Invariant s) : Invariant { s with threads := s.threads ++ [[]] } := by
  intro j
  refine (h j).of_perm ?_
  simp [steps]

theorem Invariant.create (h : Invariant s) (c : Conversion) : Invariant (s.create c) := by
  intro j
  have hs := h j
  unfold Stands at hs ⊢
  simp only [System.create, Machine.newJob]
  -- a job from before, the new one, or none yet
  rcases Nat.lt_trichotomy j s.machine.jobs.length with hlt | heq | hgt
  · rw [List.getElem?_append_left (h.length_eq ▸ hlt), List.getElem?_append_left hlt]
    exact hs
  · subst heq
    rw [List.getElem?_eq_none (Nat.le_of_eq h.length_eq), List.getElem?_eq_none (Nat.le_refl _)] at hs
    rw [← h.length_eq, List.getElem?_concat_length, h.length_eq, List.getElem?_concat_length]
    exact hs.create rfl rfl
  · have hgt' : s.history.conversions.length < j := h.length_eq ▸ hgt
    rw [List.getElem?_eq_none (Nat.le_of_lt hgt'), List.getElem?_eq_none (Nat.le_of_lt hgt)] at hs
    rw [List.getElem?_eq_none (by simpa using Nat.succ_le_of_lt hgt'),
      List.getElem?_eq_none (by simpa using Nat.succ_le_of_lt hgt)]
    exact hs

theorem Invariant.receive (h : Invariant s) (k : JobId) : Invariant (s.receive k) := by
  intro j
  have hs := h j
  unfold Stands at hs ⊢
  rcases receive_cases s.machine k with ⟨job, data, hjob, hdata, hreceive⟩ | ⟨hmachine, hfound⟩
  · simp only [System.receive, hreceive, found]
    by_cases hkj : k = j
    · subst hkj
      rw [hjob] at hs
      rw [List.getElem?_modify_eq, hjob, receivedBy_append, receivedBy_singleton_self]
      exact hs.take hdata
    · rw [List.getElem?_modify_ne _ _ hkj, receivedBy_append, receivedBy_singleton_of_ne hkj,
        List.append_nil]
      exact hs
  · simp only [System.receive, hmachine, hfound, List.append_nil]
    exact hs

theorem Invariant.modify {k : JobId} {f : Job → Job} (h : Invariant s)
    (hconversion : ∀ job, (f job).conversion = job.conversion)
    (hinbox : ∀ job, (f job).inbox = job.inbox)
    (hreceiver : ∀ job, job.hasReceiver = false → (f job).hasReceiver = false) :
    Invariant { s with machine := { s.machine with jobs := s.machine.jobs.modify k f } } := by
  intro j
  have hs := h j
  unfold Stands at hs ⊢
  by_cases hkj : k = j
  · subst hkj
    rw [List.getElem?_modify_eq]
    exact hs.of_job hconversion hinbox hreceiver
  · rw [List.getElem?_modify_ne _ _ hkj]
    exact hs

theorem Invariant.next (h : Invariant s) (hnext : Next s s') : Invariant s' := by
  cases hnext with
  | turn hi => exact h.turn hi
  | act action hi => exact h.act action hi
  | thread => exact h.thread
  | create c => exact h.create c
  | receive j => exact h.receive j
  | release j => exact h.modify (fun _ => rfl) (fun _ => rfl) (fun _ => id)
  | dropReceiver j => exact h.modify (fun _ => rfl) (fun _ => rfl) (fun _ _ => rfl)
  | forget => exact h

theorem Invariant.run (h : Invariant s) (hrun : Run s s') : Invariant s' := by
  induction hrun with
  | refl => exact h
  | tail _ hnext ih => exact ih.next hnext

theorem invariant_of_reachable (h : Reachable s) : Invariant s := Invariant.initial.run h

end System

end Clipboard.Handoff
