import Dcurl.Transaction
import Dcurl.PowC
import Dcurl.PowSse
import Dcurl.PowAvx

/-! The drivers `pow_c`, `pow_sse` and `pow_avx`. They share their text, so one
definition takes the back end as a parameter. -/
namespace Dcurl

open Library

variable {w : Nat}

/-- The fields of `pow_c_context_t` that the driver uses, with whatever an
earlier run left in them. -/
structure PowContext where
  numThreads : Nat
  inputTrytes : Vector Int8 2673
  outputTrytes : Vector Int8 2673
  mwm : Nat
  nonceArray : Vector (Vector Int8 81) numThreads
  stopPow : Bool
  hashCount : UInt64

def scanItem {threads : Nat} (pitem : Fin threads → WorkItem) (index : Int) (i : Fin threads) :
    Int :=
  if (pitem i).n = -1 then i.val else index

/-- `completed_index`, the last index whose work item has `n == -1`. -/
def completedIndex {threads : Nat} (pitem : Fin threads → WorkItem) : Int :=
  (List.finRange threads).foldl (scanItem pitem) (-1)

def totalHashCount {threads : Nat} (pitem : Fin threads → WorkItem) : UInt64 :=
  (List.finRange threads).foldl (fun count i => count +
    UInt64.ofInt (if 0 ≤ (pitem i).ret then (pitem i).ret else -(pitem i).ret + 1)) 0

def readNonce {threads : Nat} (pitem : Fin threads → WorkItem) (index : Int) :
    Option (Vector Int8 81) :=
  if h : 0 ≤ index ∧ index.toNat < threads then some (pitem ⟨index.toNat, h.2⟩).nonce else none

inductive Outcome where
  | returned (result : Bool) (ctx : PowContext)
  /-- `nonce_array` is read outside its bounds, which C leaves undefined. -/
  | outOfBounds (index : Int)

def finish (ctx : PowContext) (tx : TrinaryObject) (stopPow : Bool)
    (pitem : Fin ctx.numThreads → WorkItem) : Outcome :=
  let ctx := { ctx with
    nonceArray := Vector.ofFn fun i => (pitem i).nonce
    stopPow := stopPow
    hashCount := totalHashCount pitem }
  match readNonce pitem (completedIndex pitem) with
  | none => .outOfBounds (completedIndex pitem)
  | some nonce =>
      match initTrits nonce.toList with
      | none => .returned false ctx
      | some nonceTrit =>
          match trytesFromTrits (some nonceTrit) with
          | none => .returned false ctx
          | some nonceTryte =>
              .returned true
                { ctx with outputTrytes := nonceToResult tx nonceTryte ctx.outputTrytes }

namespace Backend

def collect {threads : Nat} (pool : Pool threads (Worker w) Bool) :
    Option (Fin threads → WorkItem) :=
  if h : ∀ t, (pool.threads t).item?.isSome = true then
    some fun t => (pool.threads t).item?.get (h t)
  else none

def threadsAfter (backend : Backend w) (ctx : PowContext) (schedule : List (Fin ctx.numThreads)) :
    Option (Pool ctx.numThreads (Worker w) Bool) :=
  (initTrytes ctx.inputTrytes.toList).bind fun tx =>
    (txToCstate tx).bind fun cState => backend.runPool ctx.mwm cState ctx.nonceArray schedule

/-- The driver, with the interleaving of the worker threads as an argument;
`none` when the schedule does not take every thread to its end. -/
def pow (backend : Backend w) (ctx : PowContext) (schedule : List (Fin ctx.numThreads)) :
    Option Outcome :=
  let start := { ctx with stopPow := false, hashCount := 0 }
  match initTrytes ctx.inputTrytes.toList with
  | none => some (.returned false start)
  | some tx =>
      match txToCstate tx with
      | none => some (.returned false start)
      | some cState =>
          (backend.runPool ctx.mwm cState ctx.nonceArray schedule).bind fun pool =>
            (collect pool).map fun pitem => finish start tx pool.shared pitem

end Backend

section completedIndex

variable {threads : Nat} (pitem : Fin threads → WorkItem)

theorem foldl_completedIndex (indices : List (Fin threads)) (index : Int) :
    (∃ i : Fin threads, (pitem i).n = -1 ∧ indices.foldl (scanItem pitem) index = i.val) ∨
      (∀ i ∈ indices, (pitem i).n ≠ -1) ∧ indices.foldl (scanItem pitem) index = index := by
  induction indices generalizing index with
  | nil => exact Or.inr ⟨by simp, rfl⟩
  | cons i rest ih =>
      rw [List.foldl_cons, scanItem]
      by_cases hi : (pitem i).n = -1
      · rw [if_pos hi]
        cases ih (i.val : Int) with
        | inl hrest => exact Or.inl hrest
        | inr hrest => exact Or.inl ⟨i, hi, hrest.2⟩
      · rw [if_neg hi]
        cases ih index with
        | inl hrest => exact Or.inl hrest
        | inr hrest => exact Or.inr ⟨List.forall_mem_cons.mpr ⟨hi, hrest.1⟩, hrest.2⟩

theorem completedIndex_eq_of_exists (h : ∃ i, (pitem i).n = -1) :
    ∃ i : Fin threads, (pitem i).n = -1 ∧ completedIndex pitem = i.val := by
  cases foldl_completedIndex pitem (List.finRange threads) (-1) with
  | inl hfound => exact hfound
  | inr hnone =>
      have ⟨i, hi⟩ := h
      exact absurd hi (hnone.1 i (List.mem_finRange i))

theorem completedIndex_eq_neg_one (h : ¬∃ i, (pitem i).n = -1) : completedIndex pitem = -1 := by
  cases foldl_completedIndex pitem (List.finRange threads) (-1) with
  | inl hfound =>
      have ⟨i, hi, _⟩ := hfound
      exact absurd ⟨i, hi⟩ h
  | inr hnone => exact hnone.2

theorem readNonce_of_fin (i : Fin threads) :
    readNonce pitem (i.val : Int) = some (pitem i).nonce := by
  have hbound : (0 : Int) ≤ i.val ∧ (i.val : Int).toNat < threads := by
    rw [Int.toNat_natCast]
    exact ⟨Int.natCast_nonneg _, i.isLt⟩
  unfold readNonce
  rw [dif_pos hbound]
  rfl

end completedIndex

theorem finish_of_slot (ctx : PowContext) (tx : TrinaryObject)
    {nonceTrit nonceTryte : TrinaryObject} {pitem : Fin ctx.numThreads → WorkItem}
    {i : Fin ctx.numThreads} (hindex : completedIndex pitem = i.val)
    (hinit : initTrits (pitem i).nonce.toList = some nonceTrit)
    (hpack : trytesFromTrits (some nonceTrit) = some nonceTryte) (stopPow : Bool) :
    ∃ ctx', finish ctx tx stopPow pitem = .returned true ctx' ∧
      ctx'.outputTrytes = nonceToResult tx nonceTryte ctx.outputTrytes := by
  unfold finish
  simp only [hindex, readNonce_of_fin, hinit, hpack]
  exact ⟨_, rfl, rfl⟩

section nonce

theorem all_isTrit_nonceOf (trits : Spec.State) : (nonceOf trits).toList.all isTrit = true := by
  rw [List.all_eq_true]
  intro value hmem
  have ⟨k, hk, hvalue⟩ := List.getElem_of_mem hmem
  rw [← hvalue]
  simp [nonceOf]

def nonceTrytes (trits : Spec.State) : List Int8 := packTrits (nonceOf trits).toList

theorem length_nonceTrytes (trits : Spec.State) : (nonceTrytes trits).length = 27 := by
  rw [nonceTrytes, length_packTrits, Vector.length_toList]

theorem trytesFromTrits_nonceOf (trits : Spec.State) :
    initTrits (nonceOf trits).toList = some ⟨(nonceOf trits).toList, .trits⟩ ∧
      trytesFromTrits (some ⟨(nonceOf trits).toList, .trits⟩) =
        some ⟨nonceTrytes trits, .trytes⟩ :=
  ⟨initTrits_of_valid (all_isTrit_nonceOf trits),
    trytesFromTrits_of_valid (by simp) (all_isTrit_nonceOf trits)⟩

variable {data : List Int8} {mid trits : Spec.State} {m : Nat}

theorem memcpy_answer (hvalid : data.all isTryte = true) (hlength : data.length = 2673)
    (hmid : memcpy (absorbed data) 0 (unpackTrytes (data.drop 2592)) = embed mid)
    (hagree : ∀ p : Fin 729, p.val < 162 ∨ 243 ≤ p.val → trits[p] = mid[p]) :
    memcpy (absorbed data) 0
        (unpackTrytes ((data.drop 2592).take 54 ++ nonceTrytes trits)) = embed trits := by
  have hpack := packTrits_spec (by simp) (all_isTrit_nonceOf trits)
  have hhead : (unpackTrytes ((data.drop 2592).take 54)).length = 162 := by
    rw [length_unpackTrytes (all_take (all_drop hvalid _) _), List.length_take, List.length_drop]
    omega
  have hsplit : unpackTrytes (data.drop 2592) =
      unpackTrytes ((data.drop 2592).take 54) ++ unpackTrytes ((data.drop 2592).drop 54) := by
    rw [← unpackTrytes_append, List.take_append_drop]
  have hlast : (unpackTrytes (data.drop 2592)).length = 243 := by
    rw [length_unpackTrytes (all_drop hvalid _), List.length_drop]
    omega
  rw [unpackTrytes_append, nonceTrytes, hpack.2]
  ext i hi
  have hmid' : (memcpy (absorbed data) 0 (unpackTrytes (data.drop 2592)))[i] =
      mid[i].toInt8 := by
    rw [hmid, getElem_embed]
  rw [getElem_memcpy, if_pos (Nat.zero_le i), Nat.sub_zero] at hmid'
  rw [getElem_embed, getElem_memcpy, if_pos (Nat.zero_le i), Nat.sub_zero]
  by_cases hfirst : i < 162
  · have hsame : trits[i] = mid[i] := hagree ⟨i, hi⟩ (Or.inl hfirst)
    rw [hsplit, List.getElem?_append_left (by omega)] at hmid'
    rw [List.getElem?_append_left (by omega), hsame, ← hmid', List.getElem?_eq_getElem (by omega)]
  · by_cases hnonce : i < 243
    · rw [List.getElem?_append_right (by omega), hhead,
        List.getElem?_eq_getElem (by simp; omega)]
      simp only [nonceOf, Vector.getElem_toList, Vector.getElem_ofFn, Option.getD_some,
        show i - 162 + 162 = i by omega]
    · have hsame : trits[i] = mid[i] := hagree ⟨i, hi⟩ (Or.inr (Nat.le_of_not_lt hnonce))
      rw [List.getElem?_eq_none (by omega)] at hmid'
      rw [List.getElem?_eq_none (by simp [hhead]; omega), hsame]
      exact hmid'

/-- Splicing the found nonce into the transaction gives a hash with the zeros. -/
theorem hashEndsInZeros_answer (hvalid : data.all isTryte = true) (hlength : data.length = 2673)
    (hmid : memcpy (absorbed data) 0 (unpackTrytes (data.drop 2592)) = embed mid)
    (hagree : ∀ p : Fin 729, p.val < 162 ∨ 243 ≤ p.val → trits[p] = mid[p])
    (hweight : Spec.HasWeight m (Spec.curl trits)) :
    HashEndsInZeros m (data.take 2646 ++ nonceTrytes trits) := by
  have hsplit : data.take 2646 = data.take 2592 ++ (data.drop 2592).take 54 := by
    rw [show 2646 = 2592 + 54 from rfl, List.take_add]
  have hpack := packTrits_spec (by simp) (all_isTrit_nonceOf trits)
  have hall : ((data.drop 2592).take 54 ++ nonceTrytes trits).all isTryte = true := by
    rw [List.all_append, all_take (all_drop hvalid _), nonceTrytes, hpack.1]
    rfl
  have hlen : ((data.drop 2592).take 54 ++ nonceTrytes trits).length = 81 := by
    rw [List.length_append, length_nonceTrytes, List.length_take, List.length_drop]
    omega
  refine ⟨⟨(embed (Spec.curl trits)).toList.take 243, .trits⟩, ?_, ?_, ?_⟩
  · rw [hsplit, List.append_assoc, hashTrytes_splice hvalid hlength hall hlen,
      memcpy_answer hvalid hlength hmid hagree, transform_embed]
  · simp
  · intro i hi hi'
    have hzero := hweight ⟨i, by omega⟩ hi hi'
    simp only [Library.getElem_fin] at hzero
    rw [List.getElem?_take_of_lt hi', List.getElem?_eq_getElem (by simp; omega),
      Vector.getElem_toList, getElem_embed, hzero]
    rfl

end nonce

/-- A transaction of valid trytes, with a weight and a thread count that the
callers of the drivers can give. -/
structure PowContext.Valid (ctx : PowContext) : Prop where
  trytes : ctx.inputTrytes.toList.all isTryte = true
  mwm_le : ctx.mwm ≤ 243
  threads_pos : 1 ≤ ctx.numThreads

/-- The state from which all threads start. -/
def PowContext.StartsAt (ctx : PowContext) (mid : Spec.State) : Prop :=
  txToCstate ⟨ctx.inputTrytes.toList, .trytes⟩ = some (embed mid)

/-- The answer keeps all of the transaction but its nonce and hashes as required. -/
def PowContext.Solves (ctx : PowContext) (output : Vector Int8 2673) : Prop :=
  output.toList.take 2646 = ctx.inputTrytes.toList.take 2646 ∧
    HashEndsInZeros ctx.mwm output.toList

namespace PowContext

variable {ctx : PowContext} (hvalid : ctx.Valid)

theorem StartsAt.memcpy_eq {mid : Spec.State} (hvalid : ctx.Valid) (hmid : ctx.StartsAt mid) :
    memcpy (absorbed ctx.inputTrytes.toList) 0 (unpackTrytes (ctx.inputTrytes.toList.drop 2592)) =
      embed mid := by
  unfold StartsAt at hmid
  rw [txToCstate_of_valid hvalid.trytes (Vector.length_toList)] at hmid
  exact Option.some.inj hmid

include hvalid

theorem Valid.exists_startsAt : ∃ mid, ctx.StartsAt mid := by
  have ⟨mid, hmid⟩ := isTritState_cState hvalid.trytes _ (all_drop hvalid.trytes 2592)
  refine ⟨mid, ?_⟩
  unfold StartsAt
  rw [txToCstate_of_valid hvalid.trytes (Vector.length_toList), hmid]

end PowContext

namespace Backend

variable {backend : Backend w} {ctx : PowContext} {mid : Spec.State}

section unfolding

variable (hvalid : ctx.Valid) (hmid : ctx.StartsAt mid)

include hvalid hmid

theorem threadsAfter_eq (schedule : List (Fin ctx.numThreads)) :
    backend.threadsAfter ctx schedule =
      backend.runPool ctx.mwm (embed mid) ctx.nonceArray schedule := by
  unfold threadsAfter
  rw [initTrytes_of_valid hvalid.trytes, Option.bind_some, hmid, Option.bind_some]

theorem pow_eq (schedule : List (Fin ctx.numThreads)) :
    backend.pow ctx schedule =
      (backend.runPool ctx.mwm (embed mid) ctx.nonceArray schedule).bind fun pool =>
        (collect pool).map fun pitem =>
          finish { ctx with stopPow := false, hashCount := 0 }
            ⟨ctx.inputTrytes.toList, .trytes⟩ pool.shared pitem := by
  unfold PowContext.StartsAt at hmid
  unfold pow
  simp only [initTrytes_of_valid hvalid.trytes, hmid]

end unfolding

theorem collect_eq_some {threads : Nat} {pool : Pool threads (Worker w) Bool}
    {pitem : Fin threads → WorkItem} (h : collect pool = some pitem) (t : Fin threads) :
    pool.threads t = .done (pitem t).ret (pitem t).n (pitem t).nonce := by
  unfold collect at h
  split at h
  · rename_i hall
    cases h
    have hsome := hall t
    cases hworker : pool.threads t with
    | done ret n nonce => simp [hworker, Worker.item?]
    | test words i nonce => simp [hworker, Worker.item?] at hsome
    | batch words i nonce => simp [hworker, Worker.item?] at hsome
    | publish ret nonce => simp [hworker, Worker.item?] at hsome
  · cases h

theorem recorded_iff_of_collect {threads : Nat} {pool : Pool threads (Worker w) Bool}
    {pitem : Fin threads → WorkItem} (h : collect pool = some pitem) :
    Recorded pool ↔ ∃ t, (pitem t).n = -1 := by
  constructor
  · intro ⟨t, ret, nonce, hworker⟩
    rw [collect_eq_some h t] at hworker
    simp only [Worker.done.injEq] at hworker
    exact ⟨t, hworker.2.1⟩
  · intro ⟨t, hn⟩
    exact ⟨t, (pitem t).ret, (pitem t).nonce, by rw [collect_eq_some h t, hn]⟩

/-- From any state of a run with a recorded success, the driver comes to its end
after finitely many steps, returns true and delivers a solution. -/
def DeliversFrom (backend : Backend w) (ctx : PowContext)
    (schedule : List (Fin ctx.numThreads)) : Prop :=
  (∃ bound, ∀ rest pool, backend.threadsAfter ctx (schedule ++ rest) = some pool →
      rest.length ≤ bound) ∧
    (∃ rest outcome, backend.pow ctx (schedule ++ rest) = some outcome) ∧
    ∀ rest outcome, backend.pow ctx (schedule ++ rest) = some outcome →
      ∃ ctx', outcome = .returned true ctx' ∧ ctx.Solves ctx'.outputTrytes

section sound

/-- Where some item records success, the driver reads the slot of such a one,
and what it finds there completes the transaction. -/
theorem finish_of_recorded (hfaithful : backend.Faithful) (hvalid : ctx.Valid)
    (hmid : ctx.StartsAt mid) {pool : Pool ctx.numThreads (Worker w) Bool}
    (hpool : Sound backend mid ctx.mwm pool) {pitem : Fin ctx.numThreads → WorkItem}
    (hcollect : collect pool = some pitem) (hrecorded : Recorded pool) :
    ∃ ctx', finish { ctx with stopPow := false, hashCount := 0 }
        ⟨ctx.inputTrytes.toList, .trytes⟩ pool.shared pitem = .returned true ctx' ∧
      ctx.Solves ctx'.outputTrytes := by
  have ⟨t, hn, hindex⟩ := completedIndex_eq_of_exists pitem
    ((recorded_iff_of_collect hcollect).mp hrecorded)
  have hfollows := hpool.follows t
  rw [collect_eq_some hcollect t] at hfollows
  have hret : 0 ≤ (pitem t).ret := by
    have hcase := hfollows.2
    rw [hn] at hcase
    split at hcase
    · assumption
    · omega
  have ⟨trits, hagree, hweight, hnonce⟩ := hfollows.1.exists_state hfaithful hret
  have ⟨hinit, hpack⟩ := trytesFromTrits_nonceOf trits
  have hlength : ctx.inputTrytes.toList.length = 2673 := Vector.length_toList
  rw [← hnonce] at hinit hpack
  have ⟨ctx', hfinish, houtput⟩ := finish_of_slot { ctx with stopPow := false, hashCount := 0 }
    ⟨ctx.inputTrytes.toList, .trytes⟩ hindex hinit hpack pool.shared
  have hanswer : ctx'.outputTrytes.toList =
      ctx.inputTrytes.toList.take 2646 ++ nonceTrytes trits := by
    rw [houtput]
    exact toList_nonceToResult _ hlength (length_nonceTrytes trits)
  refine ⟨ctx', hfinish, ?_, ?_⟩
  · rw [hanswer]
    exact List.take_left' (by rw [List.length_take]; omega)
  · rw [hanswer]
    exact hashEndsInZeros_answer hvalid.trytes hlength (hmid.memcpy_eq hvalid) hagree hweight

theorem finish_of_none_recorded (ctx : PowContext) (tx : TrinaryObject) (stopPow : Bool)
    {pitem : Fin ctx.numThreads → WorkItem} (h : ¬∃ i, (pitem i).n = -1) :
    finish ctx tx stopPow pitem = .outOfBounds (-1) := by
  have hread : readNonce pitem (-1) = none := dif_neg (by omega)
  unfold finish
  simp only [completedIndex_eq_neg_one pitem h, hread]

theorem valid_of_returned {schedule : List (Fin ctx.numThreads)} {ctx' : PowContext}
    (hmwm : ctx.mwm ≤ 243) (hpow : backend.pow ctx schedule = some (.returned true ctx')) :
    ctx.Valid := by
  unfold pow at hpow
  cases htx : initTrytes ctx.inputTrytes.toList with
  | none =>
      rw [htx] at hpow
      cases hpow
  | some tx =>
      rw [htx] at hpow
      cases hstate : txToCstate tx with
      | none =>
          simp only [hstate] at hpow
          cases hpow
      | some cState =>
          simp only [hstate] at hpow
          have ⟨pool, _, hmap⟩ := Option.bind_eq_some_iff.mp hpow
          have ⟨pitem, _, hfinish⟩ := Option.map_eq_some_iff.mp hmap
          refine ⟨(initTrytes_eq_some_iff.mp htx).1, hmwm, ?_⟩
          by_contra hthreads
          have hnone : ¬∃ i, (pitem i).n = -1 := by
            intro ⟨i, _⟩
            have hlt := i.isLt
            omega
          rw [finish_of_none_recorded { ctx with stopPow := false, hashCount := 0 } _ _ hnone]
            at hfinish
          cases hfinish

theorem solves_of_returned (hlawful : backend.Lawful) (hfaithful : backend.Faithful)
    (hmwm : ctx.mwm ≤ 243) {schedule : List (Fin ctx.numThreads)} {ctx' : PowContext}
    (hpow : backend.pow ctx schedule = some (.returned true ctx')) :
    ctx.Solves ctx'.outputTrytes := by
  have hvalid := valid_of_returned hmwm hpow
  have ⟨mid, hmid⟩ := hvalid.exists_startsAt
  rw [pow_eq hvalid hmid] at hpow
  have ⟨pool, hrun, hmap⟩ := Option.bind_eq_some_iff.mp hpow
  have ⟨pitem, hcollect, hfinish⟩ := Option.map_eq_some_iff.mp hmap
  by_cases hrecorded : ∃ i, (pitem i).n = -1
  · have ⟨found, hfound, hsolves⟩ := finish_of_recorded hfaithful hvalid hmid
      (sound_runPool hlawful hrun) hcollect ((recorded_iff_of_collect hcollect).mpr hrecorded)
    rw [hfound] at hfinish
    cases hfinish
    exact hsolves
  · rw [finish_of_none_recorded { ctx with stopPow := false, hashCount := 0 } _ _ hrecorded]
      at hfinish
    cases hfinish

theorem collect_of_finished {threads : Nat} {pool : Pool threads (Worker w) Bool}
    (hfinished : ∀ t, (pool.threads t).item?.isSome = true) :
    ∃ pitem, collect pool = some pitem :=
  ⟨_, dif_pos hfinished⟩

theorem finished_of_collect {threads : Nat} {pool : Pool threads (Worker w) Bool}
    {pitem : Fin threads → WorkItem} (h : collect pool = some pitem) (t : Fin threads) :
    (pool.threads t).item?.isSome = true := by
  rw [collect_eq_some h t]
  rfl

theorem deliversFrom (hlawful : backend.Lawful) (hfaithful : backend.Faithful)
    (hvalid : ctx.Valid) {schedule : List (Fin ctx.numThreads)}
    {pool : Pool ctx.numThreads (Worker w) Bool}
    (hrun : backend.threadsAfter ctx schedule = some pool) (hrecorded : Recorded pool) :
    backend.DeliversFrom ctx schedule := by
  have ⟨mid, hmid⟩ := hvalid.exists_startsAt
  rw [threadsAfter_eq hvalid hmid] at hrun
  have hpool := sound_runPool hlawful hrun
  refine ⟨⟨ctx.numThreads * (2 * batches mid + 2), ?_⟩, ?_, ?_⟩
  · intro rest final hfinal
    rw [threadsAfter_eq hvalid hmid] at hfinal
    have hlength := runPool_length_le hlawful hfinal
    rw [List.length_append] at hlength
    omega
  · have ⟨rest, final, hrest, hfinished⟩ := exists_finished hlawful hpool
    have ⟨pitem, hcollect⟩ := collect_of_finished hfinished
    refine ⟨rest, finish { ctx with stopPow := false, hashCount := 0 }
      ⟨ctx.inputTrytes.toList, .trytes⟩ final.shared pitem, ?_⟩
    rw [pow_eq hvalid hmid, runPool_append hrun, hrest, Option.bind_some, hcollect, Option.map_some]
  · intro rest outcome houtcome
    rw [pow_eq hvalid hmid, runPool_append hrun] at houtcome
    have ⟨final, hrest, hmap⟩ := Option.bind_eq_some_iff.mp houtcome
    have ⟨pitem, hcollect, hfinish⟩ := Option.map_eq_some_iff.mp hmap
    have hsound := sound_runPool hlawful ((runPool_append hrun rest).trans hrest)
    have hshared := shared_run hrest (hpool.stopPow_iff.mpr hrecorded)
    rw [← hfinish]
    exact finish_of_recorded hfaithful hvalid hmid hsound hcollect
      (hsound.stopPow_iff.mp hshared)

end sound

section reads

/-- In every complete run the driver reads the slot of a thread that recorded
success; if there is none, it returns false and leaves the output alone. -/
def ReadsRecorded (backend : Backend w) (ctx : PowContext) : Prop :=
  ∀ schedule pool pitem, backend.threadsAfter ctx schedule = some pool →
    collect pool = some pitem →
      ((∃ i, (pitem i).n = -1) →
        ∃ i : Fin ctx.numThreads, completedIndex pitem = i.val ∧ (pitem i).n = -1) ∧
      ((∀ i, (pitem i).ret < 0) →
        ∃ ctx', backend.pow ctx schedule = some (.returned false ctx') ∧
          ctx'.outputTrytes = ctx.outputTrytes)

/-- In every run the slot read is that of a success exactly when some thread, run on its
own, records one. -/
theorem readsRecorded_iff_alone (hlawful : backend.Lawful) (hvalid : ctx.Valid)
    (hmid : ctx.StartsAt mid) :
    backend.ReadsRecorded ctx ↔
      ∃ t : Fin ctx.numThreads, backend.SucceedsAlone mid ctx.mwm t := by
  constructor
  · intro hreads
    by_contra hnone
    have ⟨schedule, pool, hrun, hfinished⟩ :=
      exists_finished hlawful (show Sound backend mid ctx.mwm
        (backend.queue (embed mid) ctx.nonceArray) from sound_queue _)
    have ⟨pitem, hcollect⟩ := collect_of_finished hfinished
    have hsound := sound_runPool hlawful hrun
    have hunrecorded : ¬∃ i, (pitem i).n = -1 := by
      rw [← recorded_iff_of_collect hcollect, recorded_iff hsound hfinished]
      exact hnone
    have hneg : ∀ i, (pitem i).ret < 0 := by
      intro i
      by_contra hret
      have hfollows := hsound.follows i
      rw [collect_eq_some hcollect i] at hfollows
      have hn := hfollows.2
      rw [if_pos (by omega)] at hn
      exact hunrecorded ⟨i, hn⟩
    have ⟨ctx', hreturned, _⟩ :=
      (hreads schedule pool pitem ((threadsAfter_eq hvalid hmid schedule).trans hrun)
        hcollect).2 hneg
    have hrun' : backend.runPool ctx.mwm (embed mid) ctx.nonceArray schedule = some pool := hrun
    rw [pow_eq hvalid hmid, hrun', Option.bind_some, hcollect, Option.map_some,
      finish_of_none_recorded { ctx with stopPow := false, hashCount := 0 } _ _ hunrecorded]
      at hreturned
    cases hreturned
  · intro halone schedule pool pitem hrun hcollect
    rw [threadsAfter_eq hvalid hmid] at hrun
    have hsound := sound_runPool hlawful hrun
    have hrecorded := (recorded_iff hsound (finished_of_collect hcollect)).mpr halone
    have ⟨t, hn⟩ := (recorded_iff_of_collect hcollect).mp hrecorded
    refine ⟨?_, ?_⟩
    · intro hexists
      have ⟨i, hi, hindex⟩ := completedIndex_eq_of_exists pitem hexists
      exact ⟨i, hindex, hi⟩
    · intro hneg
      have hfollows := hsound.follows t
      rw [collect_eq_some hcollect t] at hfollows
      have hcase := hfollows.2
      have hlt := hneg t
      rw [if_neg (by omega), hn] at hcase
      omega

end reads

end Backend

end Dcurl
