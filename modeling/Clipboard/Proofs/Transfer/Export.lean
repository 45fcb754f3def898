import Clipboard.Proofs.Steps
import Clipboard.Transfer.Export

/-!
# The steps of an export

An export asks the source for a value, compares its representation with the one that is expected,
and writes it: `run_exportFrom_of_request` says so from the value on, and `request_of_run_exportFrom`
leads from the bytes back to the value.
-/

namespace Clipboard

namespace Engine

variable {e : Engine} {source : Source} {f : Flavor} {id : FormatId} {memo after : SubtypeMemo}
  {v : TransferValue} {asString : Bool} {bytes : Bytes}

/-- The representation that a value must have, whether or not a string was asked for instead. -/
def expected (f : Flavor) (asString : Bool) : Representation :=
  if asString then .string else f.representation

/-- A value of the flavor's own representation is taken as it is. -/
theorem request_of_representation (hdata : source.data f = .ok (some v))
    (hrep : v.representation = f.representation) : request source f = .ok (some (v, false)) := by
  rw [request, hdata]
  refine if_neg ?_
  rintro ⟨rfl, hnot⟩
  -- plain text is a stream, and so is the value
  have hstream : v.isStream = true := by
    rw [TransferValue.isStream, hrep]
    rfl
  rw [hstream] at hnot
  cases hnot

/-- A flavor other than plain text is asked for only once. -/
theorem data_of_request (hf : f ≠ Flavor.plainText)
    (h : request source f = .ok (some (v, asString))) : source.data f = .ok (some v) := by
  rw [request] at h
  split at h
  · cases h
  · cases h
  · next found hdata =>
    rw [if_neg (fun hboth => hf hboth.1)] at h
    cases h
    exact hdata

/-- A value that is expected is written, and any other is refused. -/
theorem run_exportFrom_of_request (hrequest : request source f = .ok (some (v, asString)))
    (memo : SubtypeMemo) :
    (e.exportFrom source f id).run memo =
      if v.representation = expected f asString then
        (some <$> e.exportValue source f id asString v).run memo
      else (.error (.error (.unsupportedConversion (.mismatch v.representation f))), memo) := by
  rw [exportFrom, hrequest, Transfer.run_bind_of_ok (Transfer.run_ofExcept_ok _ _), expected]
  by_cases hrep : v.representation = if asString then .string else f.representation
  · rw [if_pos hrep]
    dsimp only
    rw [if_pos hrep]
    rfl
  · rw [if_neg hrep]
    dsimp only
    rw [if_neg hrep]
    rfl

/-- A value of the flavor's own representation is written. -/
theorem run_exportFrom_of_representation (hdata : source.data f = .ok (some v))
    (hrep : v.representation = f.representation) (memo : SubtypeMemo) :
    (e.exportFrom source f id).run memo
      = (some <$> e.exportValue source f id false v).run memo := by
  rw [run_exportFrom_of_request (request_of_representation hdata hrep)]
  exact if_pos hrep

/-- What is written of an expected value is exported. -/
theorem run_exportFrom_of_ok (hrequest : request source f = .ok (some (v, asString)))
    (hrep : v.representation = expected f asString)
    (hvalue : (e.exportValue source f id asString v).run memo = (.ok bytes, after)) :
    (e.exportFrom source f id).run memo = (.ok (some bytes), after) := by
  rw [run_exportFrom_of_request hrequest, if_pos hrep]
  exact Transfer.run_bind_of_ok hvalue

/-- Bytes are only made of a value that is expected. -/
theorem request_of_run_exportFrom
    (h : (e.exportFrom source f id).run memo = (.ok (some bytes), after)) :
    ∃ v asString, request source f = .ok (some (v, asString)) ∧
      v.representation = expected f asString ∧
      (e.exportValue source f id asString v).run memo = (.ok bytes, after) := by
  cases hrequest : request source f with
  | error failure =>
    rw [exportFrom, hrequest] at h
    cases h
  | ok answer =>
    cases answer with
    | none =>
      rw [exportFrom, hrequest] at h
      cases h
    | some found =>
      obtain ⟨v, asString⟩ := found
      rw [run_exportFrom_of_request hrequest] at h
      split at h
      · next hrep =>
        obtain ⟨written, _, hvalue, hpure⟩ := Transfer.of_run_bind h
        cases hpure
        exact ⟨v, asString, rfl, hrep, hvalue⟩
      · cases h

end Engine

end Clipboard
