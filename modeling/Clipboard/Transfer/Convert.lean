import Clipboard.Handoff
import Clipboard.Transfer.Export

/-!
# Conversion on demand

When a native format is asked for, the flavor that was negotiated for it is exported. On the thread
that owns the data this is done at once (`convert`), and a failure is an error. On any other thread
it is a job for the owner (`convertThrough`): the requester waits for its message, which is the data
or nothing, and only a job that is given up unrun is an error.

A format that no flavor was negotiated for has no data, and nothing is handed over for it.
-/

namespace Clipboard

namespace Handoff

/-- What becomes of a job that is handed over. -/
abbrev Delivery := JobId → Machine → Machine

namespace Delivery

/-- The owner is idle: it runs the next task. -/
def toIdleOwner : Delivery := fun j m => (m.postJob j).runNext.2

/-- The owner is busy in code that serves the current job. -/
def toBusyOwner : Delivery := fun j m => (m.postJob j).service.2

/-- The job is run where it is handed over. -/
def immediate : Delivery := fun j m => (m.run j).2

/-- The job is dropped. -/
def discarded : Delivery := fun _ m => m

end Delivery

/-- The requester of a job waits for its message; meanwhile the owner runs its tasks. -/
def Machine.await (m : Machine) (j : JobId) : Option Message × Machine :=
  let (receipt, m) := match m.receive j with
    | (.waiting, m) => m.drain.2.receive j
    | received => received
  match receipt with
  | .message data => (some data, m)
  | _ => (none, m)

end Handoff

namespace Engine

/-- The bytes of a source in a format, on the thread that owns the data. -/
def convert (e : Engine) (source : Source) (id : FormatId) (ranked : RankedFormats) :
    Transfer (Option Bytes) :=
  match ranked.get? id with
  | none => pure none
  | some f => e.exportFrom source f id

/-- The bytes of a source in a format, from another thread, and the owner afterwards. -/
def convertThrough (e : Engine) (source : Source) (id : FormatId) (ranked : RankedFormats)
    (delivery : Handoff.Delivery) (owner : Handoff.Machine) :
    Transfer (Option Bytes × Handoff.Machine) :=
  match ranked.get? id with
  | none => pure (none, owner)
  | some f => ⟨fun memo =>
    let (outcome, memoAfter) := (e.exportFrom source f id).run memo
    let j := owner.jobs.length
    -- the requester keeps the receiving end only; the job lives in the slot and in its task
    let posted := (owner.newJob { script := [], outcome }).release j
    let (message, owner) := (delivery j posted).await j
    let memo := if owner.isPending j then memo else memoAfter
    match message with
    | some data => (.ok (data, owner), memo)
    | none => (.error (.error .handoffDisconnected), memo)⟩

end Engine

end Clipboard
