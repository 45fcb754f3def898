import Clipboard.Proofs.Sorting
import Clipboard.Ranking

/-!
# Ranking flavors again

To compare two flavors is to ask about them, and so the first comparison may decide about subtypes.
Whatever is asked in between, the same two flavors compare as they did (`settling_compare`), and a
list that is sorted again is sorted in the same way (`settling_sort`).
-/

namespace Clipboard

open Memoized (Settling)

namespace Ranking

variable (c : TextClassifier) (defaultCharset : String) (a b : Flavor)

theorem settling_areText : Settling (areText a b) :=
  (TextClassifier.settling_isText a).bind
    (fun _ => .of_ite (TextClassifier.settling_isText b) (.of_pure false))

theorem settling_thenAsk (first : Ordering) {second : Memoized Ordering} (h : Settling second) :
    Settling (thenAsk first second) := by
  cases first with
  | eq => exact h
  | lt => exact .of_pure _
  | gt => exact .of_pure _

theorem settling_textCharsetScore : Settling (textCharsetScore c defaultCharset a b) := by
  refine (c.settling_textCharset? a).bind (fun charsetA => ?_)
  refine (c.settling_textCharset? b).bind (fun charsetB => ?_)
  split
  · exact .of_pure _
  · exact .of_pure _

theorem settling_decodedScore : Settling (decodedScore c defaultCharset a b) := by
  refine (SubtypeMemo.settling_supportsCharset _ _).bind (fun _ => ?_)
  exact .of_ite (settling_thenAsk _ (settling_textCharsetScore c defaultCharset a b)) (.of_pure _)

theorem settling_textScore : Settling (textScore c defaultCharset a b) :=
  settling_thenAsk _ ((settling_decodedScore c defaultCharset a b).bind (fun _ => .of_pure _))

end Ranking

namespace FlavorRanker

variable (r : FlavorRanker)

theorem settling_score (a b : Flavor) : Settling (r.score a b) := by
  refine .of_ite (.of_pure _) ?_
  refine (Ranking.settling_areText a b).bind (fun _ => ?_)
  refine .of_ite ?_ ((Settling.of_pure _).bind (fun _ => .of_pure _))
  exact (Ranking.settling_textScore r.classifier r.defaultCharset a b).bind (fun _ => .of_pure _)

theorem settling_compare (a b : Flavor) : Settling (r.compare a b) :=
  (r.settling_score a b).bind (fun _ => .of_pure _)

theorem settling_sort (fs : List Flavor) : Settling (r.sort fs) :=
  settling_insertionSort r.settling_compare fs

theorem settling_bestFrom (f : Flavor) (fs : List Flavor) : Settling (r.bestFrom f fs) := by
  induction fs generalizing f with
  | nil => exact .of_pure f
  | cons g gs ih => exact (r.settling_score f g).bind (fun _ => .of_ite (ih f) (ih g))

theorem settling_best? (fs : List Flavor) : Settling (r.best? fs) := by
  cases fs with
  | nil => exact .of_pure none
  | cons f fs => exact (r.settling_bestFrom f fs).bind (fun _ => .of_pure _)

end FlavorRanker

end Clipboard
