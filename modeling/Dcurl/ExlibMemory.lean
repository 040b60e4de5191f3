import Dcurl.Exlib
import Dcurl.TrinaryMemory

/-! What a search of the library that the node calls allocates and frees. -/
namespace Dcurl.Memory

open Library

section search

variable {grants : Nat → Bool} {allowed : Prop} {rest : Multiset Nat}
  {dcurlEntry : Request → Option (Vector Int8 2673)} {trits : List Int8} {mwm : Nat}
  {threads : Int}

def written (trits : List Int8) : Option TrinaryObject → Bool × List Int8
  | none => (false, trits)
  | some retTrits => (true, retTrits.data.take 8019 ++ trits.drop 8019)

end search

end Dcurl.Memory
