import Clipboard.Proofs.TextClassifier
import Clipboard.Transfer.Export
import Clipboard.Transfer.Import

/-!
# Conversions are settled

A conversion asks about flavors, and nothing else that it does depends on what has been decided about
subtypes. So it is a question like any other: what it decides stays, and the same conversion of the
same data, at any later time, has the outcome that it had (`settling_exportFrom`,
`settling_importBytes`, `settling_importStream`).
-/

namespace Clipboard

namespace Transfer

variable {α β : Type}

/-- The outcome of a conversion, as an answer. -/
def outcome (x : Transfer α) : Memoized (Except Failure α) := ⟨x.run⟩

/-- A conversion that is decided once it has been made. -/
def Settling (x : Transfer α) : Prop := Memoized.Settling x.outcome

namespace Settling

theorem of_ofExcept (x : Except Failure α) : Settling (ofExcept x) := Memoized.Settling.of_pure x

theorem of_pure (a : α) : Settling (pure a : Transfer α) := of_ofExcept (.ok a)

theorem of_lift (x : Except Error α) : Settling (lift x) := of_ofExcept _

theorem of_throw (err : Error) : Settling (throw err : Transfer α) := of_lift (.error err)

theorem of_ask {x : Memoized α} (h : Memoized.Settling x) : Settling (ask x) := by
  refine ⟨h.grows, ?_⟩
  intro memo later hlater
  show (ask x).run later = _
  rw [run_ask, h.again hlater]
  rfl

theorem bind {x : Transfer α} {f : α → Transfer β} (hx : Settling x) (hf : ∀ a, Settling (f a)) :
    Settling (x >>= f) := by
  -- a step that fails is the last one, and what it decided stays
  have hrun : (x >>= f).outcome
      = x.outcome >>= fun result => (ofExcept result >>= f).outcome := by
    refine congrArg Memoized.mk (funext fun memo => ?_)
    rw [run_bind, show x.outcome.run memo = x.run memo from rfl]
    rcases x.run memo with ⟨result, between⟩
    cases result with
    | ok a => rfl
    | error err => rfl
  rw [Settling, hrun]
  refine Memoized.Settling.bind hx (fun result => ?_)
  cases result with
  | ok a => exact hf a
  | error err => exact .of_pure _

theorem of_ite {c : Prop} [Decidable c] {x y : Transfer α} (hx : Settling x) (hy : Settling y) :
    Settling (if c then x else y) := by
  split
  · exact hx
  · exact hy

end Settling

end Transfer

namespace Engine

open Transfer (Settling)

variable (e : Engine) (f : Flavor) (id : FormatId) (locale? : Option Source)

theorem settling_isCharsetText : Settling (e.isCharsetText f id) :=
  (Settling.of_ask (TextClassifier.settling_isCharsetText f)).bind (fun _ => .of_pure _)

theorem settling_flavorCharset : Settling (e.flavorCharset f) :=
  .of_ask (e.classifier.settling_textCharset f)

/-! ## Export -/

theorem settling_reencode (bytes : Bytes) : Settling (e.reencode f id bytes) := by
  refine (e.settling_isCharsetText f id).bind (fun _ => .of_ite ?_ (.of_pure _))
  refine (e.settling_flavorCharset f).bind (fun _ => ?_)
  exact (Settling.of_lift _).bind (fun _ => .of_lift _)

theorem settling_exportObject (source : Source) (v : TransferValue) :
    Settling (e.exportObject source f id v) := by
  refine .of_ite (.of_lift _) (.of_ite (.of_lift _) ?_)
  cases v with
  | stream s => exact (Settling.of_lift _).bind (fun bytes => e.settling_reencode f id bytes)
  | remote _ | string _ | fileList _ | serializable _ => exact .of_lift _
  | _ => exact .of_throw _

theorem settling_exportValue (source : Source) (asString : Bool) (v : TransferValue) :
    Settling (e.exportValue source f id asString v) := by
  refine (e.settling_isCharsetText f id).bind (fun _ => ?_)
  cases v with
  | string _ => exact .of_ite (.of_lift _) (e.settling_exportObject f id source _)
  | reader _ | charBuffer _ | charArray _ | image _ => exact .of_lift _
  | byteBuffer bytes | byteArray bytes => exact e.settling_reencode f id bytes
  | stream _ | fileList _ | serializable _ | remote _ =>
    exact e.settling_exportObject f id source _

/-- **An export is settled** by being made once. -/
theorem settling_exportFrom (source : Source) : Settling (e.exportFrom source f id) := by
  refine (Settling.of_ofExcept _).bind (fun answer => ?_)
  cases answer with
  | none => exact .of_pure _
  | some found =>
    obtain ⟨v, asString⟩ := found
    refine .of_ite ?_ (.of_throw _)
    exact (e.settling_exportValue f id source asString v).bind (fun _ => .of_pure _)

/-! ## Import -/

theorem settling_decodeText (bytes : Bytes) : Settling (e.decodeText bytes id locale?) :=
  (Settling.of_ofExcept _).bind (fun _ => .of_lift _)

theorem settling_flavorBytes (bytes : Bytes) : Settling (e.flavorBytes bytes f id locale?) := by
  refine (e.settling_isCharsetText f id).bind (fun _ => .of_ite ?_ (.of_pure _))
  refine (e.settling_decodeText id locale? bytes).bind (fun _ => ?_)
  refine (e.settling_flavorCharset f).bind (fun _ => ?_)
  exact (Settling.of_lift _).bind (fun _ => .of_pure _)

theorem settling_reencoded (s : ByteStream) (target : Charset) :
    Settling (e.reencoded s id target locale?) :=
  (Settling.of_ofExcept _).bind (fun _ => (Settling.of_lift _).bind (fun _ => .of_pure _))

theorem settling_importByteStream (s : ByteStream) (charsetText : Bool) :
    Settling (e.importByteStream s f id charsetText locale?) := by
  refine .of_ite ?_ (.of_pure _)
  refine (e.settling_flavorCharset f).bind (fun _ => (Settling.of_lift _).bind (fun target => ?_))
  exact (e.settling_reencoded id locale? s target).bind (fun _ => .of_pure _)

theorem settling_importReader (s : ByteStream) (charsetText : Bool) :
    Settling (e.importReader s id charsetText locale?) :=
  .of_ite ((e.settling_reencoded id locale? s .utf8).bind (fun _ => .of_pure _)) (.of_throw _)

theorem settling_importWhole (bytes : Bytes) (charsetText : Bool) :
    Settling (e.importWhole bytes f id charsetText locale?) := by
  have hdecoded (make : List Char → TransferValue) :
      Settling (do return make (← e.decodeText bytes id locale?)) :=
    (e.settling_decodeText id locale? bytes).bind (fun _ => .of_pure _)
  have hbytes (make : Bytes → TransferValue) :
      Settling (do return make (← e.flavorBytes bytes f id locale?)) :=
    (e.settling_flavorBytes f id locale? bytes).bind (fun _ => .of_pure _)
  rw [importWhole]
  cases f.representation with
  | string => exact .of_ite (hdecoded _) (.of_lift _)
  | charBuffer | charArray => exact .of_ite (hdecoded _) (.of_throw _)
  | byteBuffer | byteArray => exact hbytes _
  | remote | fileList | serializable => exact .of_lift _
  | image => exact (Settling.of_lift _).bind (fun _ => .of_lift _)
  | reader => exact e.settling_importReader id locale? _ charsetText
  | stream => exact e.settling_importByteStream f id locale? _ charsetText

/-- **An import of bytes is settled** by being made once. -/
theorem settling_importBytes (bytes : Bytes) : Settling (e.importBytes bytes f id locale?) := by
  refine .of_ite (.of_lift _) (.of_ite ?_ ?_)
  · exact (Settling.of_lift _).bind (fun _ => .of_pure _)
  · refine (e.settling_isCharsetText f id).bind (fun charsetText => ?_)
    exact (e.settling_importWhole f id locale? bytes charsetText).bind (fun _ => .of_pure _)

/-- **An import of a stream is settled** by being made once. -/
theorem settling_importStream (s : ByteStream) : Settling (e.importStream s f id locale?) := by
  refine .of_ite ?_ ((e.settling_isCharsetText f id).bind (fun charsetText => ?_))
  · exact (Settling.of_lift _).bind (fun _ => (Settling.of_lift _).bind (fun _ => .of_pure _))
  · cases f.representation with
    | stream =>
      exact (e.settling_importByteStream f id locale? s charsetText).bind (fun _ => .of_pure _)
    | reader => exact (e.settling_importReader id locale? s charsetText).bind (fun _ => .of_pure _)
    | image =>
      refine (Settling.of_lift _).bind (fun _ => (Settling.of_lift _).bind (fun _ => ?_))
      exact (Settling.of_lift _).bind (fun _ => .of_pure _)
    | charArray | charBuffer | byteBuffer =>
      exact (Settling.of_lift _).bind (fun bytes => e.settling_importBytes f id locale? bytes)
    | string | byteArray | fileList | serializable | remote =>
      refine (Settling.of_lift _).bind (fun bytes => ?_)
      exact (e.settling_importWhole f id locale? bytes charsetText).bind (fun _ => .of_pure _)

end Engine

end Clipboard
