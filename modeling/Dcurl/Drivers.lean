import Dcurl.Pow
import Dcurl.SimdSpace

/-! The drivers of the four CPU builds: `pow_c`, `pow_sse`, and `pow_avx` for AVX2
and for AVX1. -/
namespace Dcurl

open Library Odometer

variable {w : Nat}

namespace PowContext

def uniform (tryte : Int8) (mwm numThreads : Nat) : PowContext where
  numThreads := numThreads
  inputTrytes := Vector.replicate 2673 tryte
  outputTrytes := Vector.replicate 2673 0
  mwm := mwm
  nonceArray := Vector.replicate numThreads (Vector.replicate 81 0)
  stopPow := false
  hashCount := 0

variable {tryte : Int8} {mwm numThreads : Nat}

theorem uniform_valid (htryte : isTryte tryte = true) (hmwm : mwm ≤ 243)
    (hthreads : 1 ≤ numThreads) : (uniform tryte mwm numThreads).Valid where
  trytes := by
    rw [List.all_eq_true]
    intro value hmem
    rw [uniform, Vector.toList_replicate] at hmem
    rw [List.eq_of_mem_replicate hmem, htryte]
  mwm_le := hmwm
  threads_pos := hthreads

theorem startDigits_uniform {trit : Trit} {mid : Spec.State}
    (htryte : isTryte tryte = true) (htrits : tritsOfTryte tryte = List.replicate 3 trit.toInt8)
    (hmwm : mwm ≤ 243) (hthreads : 1 ≤ numThreads)
    (hmid : (uniform tryte mwm numThreads).StartsAt mid) :
    Backend.startDigits mid = List.replicate 50 trit.digit := by
  have hlast := hmid.memcpy_eq (uniform_valid htryte hmwm hthreads)
  simp only [uniform, Vector.toList_replicate, List.drop_replicate,
    unpackTrytes_replicate htrits] at hlast
  have hget : ∀ p (hp : p < 729), p < 243 → mid[p] = trit := by
    intro p hp hlt
    have hp' := congrArg (fun state : CurlState => state[p]) hlast
    simp only [getElem_embed] at hp'
    rw [getElem_memcpy, if_pos (Nat.zero_le p), Nat.sub_zero,
      List.getElem?_eq_getElem (by rw [List.length_replicate]; omega)] at hp'
    simp only [List.getElem_replicate, Option.getD_some] at hp'
    exact Trit.toInt8_injective hp'.symm
  apply List.ext_getElem
  · simp
  · intro k hk _
    have hlt : k < 50 := by simpa using hk
    simp only [Backend.startDigits, Spec.window, List.getElem_ofFn, List.getElem_replicate]
    rw [hget _ _ (by omega)]

end PowContext

/-- As soon as a thread of `pow_c` or `pow_sse` has recorded success, the driver
is bound to return true with a solution, however the threads go on. -/
theorem pow_sound (ctx : PowContext) (hvalid : ctx.Valid) :
    (∀ schedule pool, PowC.backend.threadsAfter ctx schedule = some pool →
      Backend.Recorded pool → PowC.backend.DeliversFrom ctx schedule) ∧
    (∀ schedule pool, PowSse.backend.threadsAfter ctx schedule = some pool →
      Backend.Recorded pool → PowSse.backend.DeliversFrom ctx schedule) := by
  constructor
  · intro schedule pool hrun hrecorded
    exact Backend.deliversFrom PowC.lawful PowC.faithful hvalid hrun hrecorded
  · intro schedule pool hrun hrecorded
    exact Backend.deliversFrom PowSse.lawful PowSse.faithful hvalid hrun hrecorded

section witness

/-- 9s but for the tryte in which the counter starts. -/
def almostNines : Vector Int8 2673 := (Vector.replicate 2673 57).set 2656 88

theorem take_almostNines : almostNines.toList.take 2592 = List.replicate 2592 57 := by
  rw [almostNines, Vector.toList_set, Vector.toList_replicate, List.take_set_of_le (by decide),
    List.take_replicate]
  rfl

theorem drop_almostNines : almostNines.toList.drop 2592 = (List.replicate 81 57).set 64 88 := by
  rw [almostNines, Vector.toList_set, Vector.toList_replicate, List.drop_set, if_neg (by decide),
    List.drop_replicate]

theorem almostNines_valid : almostNines.toList.all isTryte = true := by
  rw [← List.take_append_drop 2592 almostNines.toList, take_almostNines, drop_almostNines,
    List.all_append, List.all_replicate]
  decide

theorem txToCstate_almostNines :
    txToCstate ⟨almostNines.toList, .trytes⟩ = some (embed PowC.almostZero) := by
  have hunpack : unpackTrytes (List.replicate 2592 57) = List.replicate (32 * 243) 0 :=
    unpackTrytes_replicate (by decide) 2592
  have hlast : unpackTrytes ((List.replicate 81 57).set 64 88) =
      (List.replicate 243 0).set 193 (-1) := by
    decide +kernel
  have habsorbed : absorbed almostNines.toList = initCurl := by
    rw [absorbed, take_almostNines, hunpack, absorbTrits_replicate]
  rw [txToCstate_of_valid almostNines_valid Vector.length_toList, habsorbed, drop_almostNines,
    hlast]
  apply congrArg some
  ext i hi
  rw [getElem_memcpy, if_pos (Nat.zero_le i), Nat.sub_zero, getElem_embed, PowC.almostZero,
    Vector.getElem_set, List.getElem?_set, List.getElem?_replicate, List.length_replicate]
  by_cases hcounter : 193 = i
  · subst hcounter
    rfl
  · rw [if_neg hcounter, if_neg hcounter, Vector.getElem_replicate]
    simp only [initCurl, Vector.getElem_replicate]
    split <;> rfl

def PowContext.almostNines (numThreads : Nat) : PowContext :=
  { PowContext.uniform 57 14 numThreads with inputTrytes := Dcurl.almostNines }

theorem PowContext.almostNines_valid {numThreads : Nat} (hthreads : 1 ≤ numThreads) :
    (PowContext.almostNines numThreads).Valid where
  trytes := Dcurl.almostNines_valid
  mwm_le := show 14 ≤ 243 by decide
  threads_pos := hthreads

theorem PowContext.startsAt_almostNines (numThreads : Nat) :
    (PowContext.almostNines numThreads).StartsAt PowC.almostZero :=
  txToCstate_almostNines

theorem succeedsAlone_almostZero {backend : Backend w} (hfaithful : backend.Faithful) {m : Nat}
    (hbatch : 0 ≤ backend.tryBatch (backend.counterAt (embed PowC.almostZero) 0 1) m) :
    backend.SucceedsAlone PowC.almostZero m 0 :=
  (Backend.succeedsAlone_iff hfaithful 0).mpr
    ⟨1, by decide, PowC.one_le_batches_almostZero, hbatch⟩

theorem exists_recorded {backend : Backend w} (hlawful : backend.Lawful)
    (hfaithful : backend.Faithful)
    (hbatch : 0 ≤ backend.tryBatch (backend.counterAt (embed PowC.almostZero) 0 1) 14) :
    ∃ schedule pool,
      backend.threadsAfter (PowContext.almostNines 2) schedule = some pool ∧
        Backend.Recorded pool := by
  obtain ⟨schedule, pool, hrun, hfinished⟩ := Backend.exists_finished hlawful
    (show Backend.Sound backend PowC.almostZero 14
      (backend.queue (embed PowC.almostZero) (PowContext.almostNines 2).nonceArray) from
        Backend.sound_queue _)
  refine ⟨schedule, pool, (Backend.threadsAfter_eq (PowContext.almostNines_valid (by decide))
    (PowContext.startsAt_almostNines 2) schedule).trans hrun, ?_⟩
  rw [Backend.recorded_iff (Backend.sound_runPool hlawful hrun) hfinished]
  exact ⟨⟨0, by decide⟩, succeedsAlone_almostZero hfaithful hbatch⟩

theorem pow_sound_nines :
    (∃ schedule pool, PowC.backend.threadsAfter (PowContext.almostNines 2) schedule = some pool ∧
      Backend.Recorded pool ∧ PowC.backend.DeliversFrom (PowContext.almostNines 2) schedule) ∧
    (∃ schedule pool,
      PowSse.backend.threadsAfter (PowContext.almostNines 2) schedule = some pool ∧
        Backend.Recorded pool ∧
        PowSse.backend.DeliversFrom (PowContext.almostNines 2) schedule) := by
  have hvalid : (PowContext.almostNines 2).Valid := PowContext.almostNines_valid (by decide)
  constructor
  · have ⟨schedule, pool, hrun, hrecorded⟩ :=
      exists_recorded PowC.lawful PowC.faithful (PowC.tryBatch_almostZero 14)
    exact ⟨schedule, pool, hrun, hrecorded, (pow_sound _ hvalid).1 schedule pool hrun hrecorded⟩
  · have ⟨schedule, pool, hrun, hrecorded⟩ :=
      exists_recorded PowSse.lawful PowSse.faithful (PowSse.tryBatch_almostZero 14)
    exact ⟨schedule, pool, hrun, hrecorded, (pow_sound _ hvalid).2 schedule pool hrun hrecorded⟩

end witness

/-- One of the batches that a thread examines before `incr` reports the end has
a lane that passes. -/
def PowContext.HasCandidate (backend : Backend w) (ctx : PowContext) : Prop :=
  ∃ mid, ctx.StartsAt mid ∧ ∃ t < ctx.numThreads, ∃ k, 0 < k ∧ k ≤ Backend.batches mid ∧
    0 ≤ backend.tryBatch (backend.counterAt (embed mid) t k) ctx.mwm

/-- One of the threads, run on its own, returns a value that is not negative. -/
def PowContext.SomeSucceeds (backend : Backend w) (ctx : PowContext) : Prop :=
  ∃ mid, ctx.StartsAt mid ∧ ∃ t < ctx.numThreads, backend.SucceedsAlone mid ctx.mwm t

section reads

variable {backend : Backend w} {ctx : PowContext}

theorem readsRecorded_iff_someSucceeds (hlawful : backend.Lawful) (hvalid : ctx.Valid) :
    backend.ReadsRecorded ctx ↔ ctx.SomeSucceeds backend := by
  constructor
  · intro hreads
    have ⟨mid, hmid⟩ := hvalid.exists_startsAt
    have ⟨t, halone⟩ := (Backend.readsRecorded_iff_alone hlawful hvalid hmid).mp hreads
    exact ⟨mid, hmid, t, t.isLt, halone⟩
  · intro ⟨mid, hmid, t, ht, halone⟩
    exact (Backend.readsRecorded_iff_alone hlawful hvalid hmid).mpr ⟨⟨t, ht⟩, halone⟩

theorem readsRecorded_iff_hasCandidate (hlawful : backend.Lawful)
    (hfaithful : backend.Faithful) (hvalid : ctx.Valid) :
    backend.ReadsRecorded ctx ↔ ctx.HasCandidate backend := by
  rw [readsRecorded_iff_someSucceeds hlawful hvalid]
  unfold PowContext.SomeSucceeds PowContext.HasCandidate
  simp only [Backend.succeedsAlone_iff hfaithful]

/-- A counter that starts at its end gives no thread a batch. -/
theorem not_readsRecorded_of_full {mwm numThreads : Nat} (hmwm : mwm ≤ 243)
    (hthreads : 1 ≤ numThreads) (hlawful : backend.Lawful) (hmissed : backend.missed 0 < 0) :
    ¬backend.ReadsRecorded (PowContext.uniform 77 mwm numThreads) := by
  have hvalid : (PowContext.uniform 77 mwm numThreads).Valid :=
    PowContext.uniform_valid (by decide) hmwm hthreads
  obtain ⟨mid, hmid⟩ := hvalid.exists_startsAt
  have hstart : Backend.startDigits mid = List.replicate 50 (Trit.digit .pos) :=
    PowContext.startDigits_uniform (by decide) (by decide) hmwm hthreads hmid
  have hempty : Backend.batches mid = 0 := by
    have hvisits := visitsLast_tick_iterate_iff (Backend.length_startDigits mid) (Nat.zero_le _)
    rw [Function.iterate_zero_apply, hstart] at hvisits
    rw [Backend.batches, hstart]
    exact (hvisits.mp (by decide)).symm
  rw [Backend.readsRecorded_iff_alone hlawful hvalid hmid]
  rintro ⟨t, halone⟩
  unfold Backend.SucceedsAlone at halone
  rw [hempty] at halone
  cases halone with
  | inl halone =>
      obtain ⟨i, hi, _⟩ := halone
      omega
  | inr halone => omega

end reads

/-- The driver reads the slot of a thread that recorded success exactly when some thread is
bound to. The value that `loop_256` returns wraps, so there a hit may count as a miss, and a
miss as a success that has filled no slot. -/
theorem readsRecorded_iff (ctx : PowContext) (hvalid : ctx.Valid) :
    (PowC.backend.ReadsRecorded ctx ↔ ctx.HasCandidate PowC.backend) ∧
    (PowSse.backend.ReadsRecorded ctx ↔ ctx.HasCandidate PowSse.backend) ∧
    (PowAvx.backend.ReadsRecorded ctx ↔ ctx.SomeSucceeds PowAvx.backend) ∧
    (PowAvx.backendPd.ReadsRecorded ctx ↔ ctx.SomeSucceeds PowAvx.backendPd) :=
  ⟨readsRecorded_iff_hasCandidate PowC.lawful PowC.faithful hvalid,
    readsRecorded_iff_hasCandidate PowSse.lawful PowSse.faithful hvalid,
    readsRecorded_iff_someSucceeds PowAvx.lawful hvalid,
    readsRecorded_iff_someSucceeds PowAvx.lawfulPd hvalid⟩

theorem readsRecorded_iff_uniform :
    (PowC.backend.ReadsRecorded (PowContext.uniform 77 14 4) ↔
      (PowContext.uniform 77 14 4).HasCandidate PowC.backend) :=
  (readsRecorded_iff (PowContext.uniform 77 14 4)
    (PowContext.uniform_valid (by decide) (by decide) (by decide))).1

/-- Four threads, weight 14 and a transaction of 2673 letters M, whose counter
trits are all 1. -/
theorem not_readsRecorded_uniform :
    ¬PowC.backend.ReadsRecorded (PowContext.uniform 77 14 4) ∧
    ¬PowSse.backend.ReadsRecorded (PowContext.uniform 77 14 4) ∧
    ¬PowAvx.backend.ReadsRecorded (PowContext.uniform 77 14 4) ∧
    ¬PowAvx.backendPd.ReadsRecorded (PowContext.uniform 77 14 4) :=
  ⟨not_readsRecorded_of_full (by decide) (by decide) PowC.lawful (by decide),
    not_readsRecorded_of_full (by decide) (by decide) PowSse.lawful (by decide),
    not_readsRecorded_of_full (by decide) (by decide) PowAvx.lawful (by decide),
    not_readsRecorded_of_full (by decide) (by decide) PowAvx.lawfulPd (by decide)⟩

end Dcurl
