import Dcurl.EntryServes

/-! The library that the node calls: a search gets the trits of a transaction, hands its
trytes to `dcurl_entry` and writes the answer over the trits. -/
namespace Dcurl

open Library

section search

variable {dcurlEntry : Request → Option (Vector Int8 2673)} {trits : List Int8} {mwm : Nat}
  {threads : Int} {request : Request} {res : Vector Int8 2673}

theorem take_unpackTrytes {trytes : List Int8} (h : trytes.all isTryte = true) {k : Nat}
    (hk : k ≤ trytes.length) :
    (unpackTrytes trytes).take (3 * k) = unpackTrytes (trytes.take k) := by
  have hfirst : (unpackTrytes (trytes.take k)).length = 3 * k := by
    rw [length_unpackTrytes (all_take h k), List.length_take, Nat.min_eq_left hk]
  conv_lhs => rw [← List.take_append_drop k trytes]
  rw [unpackTrytes_append, List.take_left' hfirst]

end search

section cpu

variable {w : Nat} {backend : Backend w}

def Phase.result {ι : Type} : Phase ι → Option (Option (Vector Int8 2673))
  | .returned _ res => some res
  | .refused => some none
  | _ => none

variable {ι : Type} [DecidableEq ι]

end cpu

end Dcurl
