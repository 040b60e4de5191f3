import Mathlib.Algebra.BigOperators.Fin
import Mathlib.Algebra.BigOperators.Ring.Finset
import Mathlib.Tactic.Ring
import Dcurl.Drivers

/-! `pow_info.hash_count` of `pow_c` and `pow_sse`, and the batches that their
threads really transform. -/
namespace Dcurl

open Library

variable {w : Nat}

def Worker.transforms : Worker w → Nat
  | .batch _ _ _ => 1
  | _ => 0

def Worker.hits (backend : Backend w) (m : Nat) : Worker w → Nat
  | .batch mid _ _ => if 0 ≤ backend.tryBatch mid m then 1 else 0
  | _ => 0

def hits {threads : Nat} (pitem : Fin threads → WorkItem) : Nat :=
  (Finset.univ.filter fun i => 0 ≤ (pitem i).ret).card

def misses {threads : Nat} (pitem : Fin threads → WorkItem) : Nat :=
  (Finset.univ.filter fun i => ¬0 ≤ (pitem i).ret).card

/-- What the driver adds to `hash_count` for a thread, in exact arithmetic. -/
def decoded (ret : Int) : Int := if 0 ≤ ret then ret else -ret + 1

namespace Backend

def total (backend : Backend w) (ctx : PowContext) (price : Worker w → Nat)
    (schedule : List (Fin ctx.numThreads)) : Nat :=
  match txToCstate ⟨ctx.inputTrytes.toList, .trytes⟩ with
  | none => 0
  | some cState =>
      Pool.cost (fun t => backend.workCb ctx.mwm t) price
        (backend.queue cState ctx.nonceArray) schedule

def evaluations (backend : Backend w) (ctx : PowContext) (schedule : List (Fin ctx.numThreads)) :
    Nat :=
  backend.total ctx Worker.transforms schedule

def hitBatches (backend : Backend w) (ctx : PowContext) (schedule : List (Fin ctx.numThreads)) :
    Nat :=
  backend.total ctx (Worker.hits backend ctx.mwm) schedule

structure Encodes (backend : Backend w) : Prop where
  found_eq : ∀ i : Nat, backend.found i = i * w
  missed_eq : ∀ i : Nat, backend.missed i = -i * w - 1

/-- A thread that returns `ret` has transformed `count` batches: the counter `i` of a
hit does not count the batch of the hit. -/
def Tells (backend : Backend w) (count : Nat) (ret : Int) : Prop :=
  ret = backend.missed count ∨ ∃ i, count = i + 1 ∧ ret = backend.found i

def Counts (backend : Backend w) (count : Nat) : Worker w → Prop
  | .test _ i _ => i = count
  | .batch _ i _ => i = count
  | .publish ret _ => backend.Tells count ret
  | .done ret _ _ => backend.Tells count ret

def HitCounts (count : Nat) : Worker w → Prop
  | .test _ _ _ => count = 0
  | .batch _ _ _ => count = 0
  | .publish ret _ => count = if 0 ≤ ret then 1 else 0
  | .done ret _ _ => count = if 0 ≤ ret then 1 else 0

section steps

variable {backend : Backend w} {m : Nat}

theorem Encodes.faithful (h : backend.Encodes) : backend.Faithful where
  found_nonneg i := by
    rw [h.found_eq, ← Int.natCast_mul]
    exact Int.natCast_nonneg _
  missed_neg i := by
    have hnonneg := Int.natCast_nonneg (i * w)
    rw [h.missed_eq, Int.neg_mul, ← Int.natCast_mul]
    omega

theorem counts_step {t count : Nat} {worker worker' : Worker w} {stopPow stopPow' : Bool}
    (hcounts : backend.Counts count worker)
    (hstep : backend.workCb m t worker stopPow = some (worker', stopPow')) :
    backend.Counts (count + worker.transforms) worker' := by
  cases steps_of_workCb hstep with
  | enter hincr => exact hcounts
  | leave hend => exact Or.inl (congrArg backend.missed hcounts)
  | hit hhit => exact Or.inr ⟨_, congrArg (· + 1) hcounts.symm, rfl⟩
  | miss hmiss => exact congrArg (· + 1) hcounts
  | success hret => exact hcounts
  | failure hret => exact hcounts

theorem hitCounts_step (hfaithful : backend.Faithful) {t count : Nat} {worker worker' : Worker w}
    {stopPow stopPow' : Bool} (hcounts : HitCounts count worker)
    (hstep : backend.workCb m t worker stopPow = some (worker', stopPow')) :
    HitCounts (count + worker.hits backend m) worker' := by
  cases steps_of_workCb hstep with
  | enter hincr => exact hcounts
  | leave hend => exact hcounts.trans (if_neg (Int.not_le.mpr (hfaithful.missed_neg _))).symm
  | hit hhit =>
      show count + (if _ then 1 else 0) = if _ then 1 else 0
      rw [show count = 0 from hcounts, if_pos hhit, if_pos (hfaithful.found_nonneg _)]
  | miss hmiss =>
      show count + (if _ then 1 else 0) = 0
      rw [show count = 0 from hcounts, if_neg (Int.not_le.mpr hmiss)]
  | success hret => exact hcounts
  | failure hret => exact hcounts

theorem exists_accounts {agrees : Nat → Worker w → Prop} {price : Worker w → Nat} {threads : Nat}
    {cState : CurlState} {nonceArray : Vector (Vector Int8 81) threads}
    {schedule : List (Fin threads)} {pool : Pool threads (Worker w) Bool}
    {pitem : Fin threads → WorkItem}
    (hstep : ∀ (t : Fin threads) (count : Nat) (worker : Worker w) (stopPow : Bool)
      (worker' : Worker w) (stopPow' : Bool), agrees count worker →
        backend.workCb m t worker stopPow = some (worker', stopPow') →
          agrees (count + price worker) worker')
    (hstart : ∀ t, agrees 0 ((backend.queue cState nonceArray).threads t))
    (hrun : backend.runPool m cState nonceArray schedule = some pool)
    (hcollect : collect pool = some pitem) :
    ∃ counts : Fin threads → Nat,
      (∀ t, agrees (counts t) (.done (pitem t).ret (pitem t).n (pitem t).nonce)) ∧
        ∑ t, counts t = Pool.cost (fun t => backend.workCb m t) price
          (backend.queue cState nonceArray) schedule := by
  have ⟨counts, hcounts, hsum⟩ := Pool.exists_accounts hstep hstart hrun
  refine ⟨counts, ?_, ?_⟩
  · intro t
    rw [← collect_eq_some hcollect t]
    exact hcounts t
  · rw [hsum, Finset.sum_const_zero, Nat.zero_add]

theorem decoded_of_tells (hencodes : backend.Encodes) {count : Nat} {ret : Int}
    (h : backend.Tells count ret) :
    decoded ret = w * count + if 0 ≤ ret then -(w : Int) else 2 := by
  unfold decoded
  cases h with
  | inl hmissed =>
      rw [hencodes.missed_eq] at hmissed
      have hneg : ¬0 ≤ ret := by
        rw [hmissed, ← hencodes.missed_eq]
        exact Int.not_le.mpr (hencodes.faithful.missed_neg count)
      rw [if_neg hneg, if_neg hneg, hmissed]
      ring
  | inr hfound =>
      obtain ⟨i, hcount, hret⟩ := hfound
      rw [hencodes.found_eq] at hret
      have hnonneg : 0 ≤ ret := by
        rw [hret, ← hencodes.found_eq]
        exact hencodes.faithful.found_nonneg i
      rw [if_pos hnonneg, if_pos hnonneg, hret, hcount, Int.natCast_add]
      ring

end steps

end Backend

section sum

variable {threads : Nat} (pitem : Fin threads → WorkItem)

theorem totalHashCount_eq :
    totalHashCount pitem = UInt64.ofInt (∑ i, decoded (pitem i).ret) := by
  have hfold : ∀ (indices : List (Fin threads)) (count : UInt64),
      indices.foldl (fun count i => count + UInt64.ofInt (decoded (pitem i).ret)) count =
        count + UInt64.ofInt (indices.map fun i => decoded (pitem i).ret).sum := by
    intro indices
    induction indices with
    | nil => exact fun count => (UInt64.add_zero count).symm
    | cons i rest ih =>
        intro count
        rw [List.foldl_cons, ih, List.map_cons, List.sum_cons, UInt64.ofInt_add, UInt64.add_assoc]
  unfold totalHashCount
  rw [Fin.sum_univ_def]
  exact (hfold _ 0).trans (UInt64.zero_add _)

theorem hits_add_misses : hits pitem + misses pitem = threads := by
  unfold hits misses
  rw [Finset.card_filter_add_card_filter_not, Finset.card_univ, Fintype.card_fin]

theorem sum_decoded {backend : Backend w} (hencodes : backend.Encodes)
    {counts : Fin threads → Nat} (hcounts : ∀ t, backend.Tells (counts t) (pitem t).ret) :
    ∑ i, decoded (pitem i).ret =
      w * (∑ t, counts t : Nat) - w * hits pitem + 2 * misses pitem := by
  have hone : ∀ i, decoded (pitem i).ret =
      (w * counts i : Int) + if 0 ≤ (pitem i).ret then -(w : Int) else 2 :=
    fun i => Backend.decoded_of_tells hencodes (hcounts i)
  unfold hits misses
  rw [Finset.sum_congr rfl fun i _ => hone i, Finset.sum_add_distrib, Finset.sum_ite,
    Finset.sum_const, Finset.sum_const, ← Finset.mul_sum, Nat.cast_sum]
  simp only [nsmul_eq_mul]
  ring

theorem ofInt_eq_ofNat_iff (value : Int) (count : Nat) :
    UInt64.ofInt value = UInt64.ofNat count ↔ value % 2 ^ 64 = (count : Int) % 2 ^ 64 := by
  unfold UInt64.ofInt
  rw [← UInt64.toNat_inj, UInt64.toNat_ofNat', UInt64.toNat_ofNat']
  omega

end sum

namespace Backend

variable {backend : Backend w} {ctx : PowContext} {schedule : List (Fin ctx.numThreads)}
  {pool : Pool ctx.numThreads (Worker w) Bool} {pitem : Fin ctx.numThreads → WorkItem}

theorem total_eq {cState : CurlState} {price : Worker w → Nat}
    (hstate : txToCstate ⟨ctx.inputTrytes.toList, .trytes⟩ = some cState) :
    backend.total ctx price schedule = Pool.cost (fun t => backend.workCb ctx.mwm t) price
      (backend.queue cState ctx.nonceArray) schedule := by
  unfold total
  rw [hstate]

theorem exists_runPool (hrun : backend.threadsAfter ctx schedule = some pool) :
    ∃ cState, txToCstate ⟨ctx.inputTrytes.toList, .trytes⟩ = some cState ∧
      backend.runPool ctx.mwm cState ctx.nonceArray schedule = some pool := by
  unfold threadsAfter at hrun
  have ⟨tx, htx, hbind⟩ := Option.bind_eq_some_iff.mp hrun
  have ⟨cState, hstate, hpool⟩ := Option.bind_eq_some_iff.mp hbind
  rw [(initTrytes_eq_some_iff.mp htx).2] at hstate
  exact ⟨cState, hstate, hpool⟩

theorem hashCount_of_returned (hrun : backend.threadsAfter ctx schedule = some pool)
    (hcollect : collect pool = some pitem) {result : Bool} {ctx' : PowContext}
    (hpow : backend.pow ctx schedule = some (.returned result ctx')) :
    ctx'.hashCount = totalHashCount pitem := by
  unfold threadsAfter at hrun
  have ⟨tx, htx, hbind⟩ := Option.bind_eq_some_iff.mp hrun
  have ⟨cState, hstate, hpool⟩ := Option.bind_eq_some_iff.mp hbind
  unfold pow at hpow
  simp only [htx, hstate, hpool, hcollect, Option.bind_some, Option.map_some,
    Option.some.injEq] at hpow
  unfold finish at hpow
  dsimp only at hpow
  split at hpow
  · cases hpow
  · split at hpow
    · cases hpow
      rfl
    · split at hpow <;> cases hpow <;> rfl

theorem hits_eq (hfaithful : backend.Faithful)
    (hrun : backend.threadsAfter ctx schedule = some pool) (hcollect : collect pool = some pitem) :
    hits pitem = backend.hitBatches ctx schedule := by
  have ⟨cState, hstate, hpool⟩ := exists_runPool hrun
  have ⟨counts, hcounts, hsum⟩ := exists_accounts
    (fun _ _ _ _ _ _ hcounts hstep => hitCounts_step hfaithful hcounts hstep) (fun _ => rfl)
    hpool hcollect
  unfold hitBatches hits
  rw [total_eq hstate, ← hsum, Finset.card_filter]
  exact Finset.sum_congr rfl fun t _ => (hcounts t).symm

/-- `hash_count` is the work done exactly when the 2 too many of each miss make up
for the batch that each hit leaves out. -/
theorem totalHashCount_iff (hencodes : backend.Encodes) (hw : w ≤ 128)
    (hthreads : ctx.numThreads < 2 ^ 31)
    (hrun : backend.threadsAfter ctx schedule = some pool) (hcollect : collect pool = some pitem) :
    totalHashCount pitem = UInt64.ofNat (w * backend.evaluations ctx schedule) ↔
      2 * ctx.numThreads = (w + 2) * backend.hitBatches ctx schedule := by
  have ⟨cState, hstate, hpool⟩ := exists_runPool hrun
  have ⟨counts, hcounts, hsum⟩ := exists_accounts
    (fun _ _ _ _ _ _ hcounts hstep => counts_step hcounts hstep) (fun _ => rfl) hpool hcollect
  have hall := hits_add_misses pitem
  have hbound : w * hits pitem ≤ 128 * 2 ^ 31 :=
    Nat.mul_le_mul hw (by omega)
  unfold evaluations
  rw [← hits_eq hencodes.faithful hrun hcollect, totalHashCount_eq,
    sum_decoded pitem hencodes hcounts, hsum, ← total_eq hstate, ofInt_eq_ofNat_iff, Nat.add_mul]
  push_cast
  generalize hwork : (w : Int) * (backend.total ctx Worker.transforms schedule : Nat) = work
  generalize hshort : w * hits pitem = short at hbound ⊢
  rw [← Int.natCast_mul, hshort]
  omega

end Backend

theorem PowC.encodes : PowC.backend.Encodes where
  found_eq _ := rfl
  missed_eq _ := rfl

theorem PowSse.encodes : PowSse.backend.Encodes where
  found_eq _ := rfl
  missed_eq _ := rfl

/-- `pow_info.hash_count` after the run is the number of lanes times the number of
transforms. -/
def Backend.CountsWork (backend : Backend w) (ctx : PowContext)
    (schedule : List (Fin ctx.numThreads)) (pitem : Fin ctx.numThreads → WorkItem) : Prop :=
  totalHashCount pitem = UInt64.ofNat (w * backend.evaluations ctx schedule)

/-- The drivers report the work done exactly in the runs with 33 (for `pow_sse` 65)
threads for each batch that hits. -/
theorem countsWork_iff (ctx : PowContext) (hthreads : ctx.numThreads < 2 ^ 31) :
    (∀ schedule pool pitem, PowC.backend.threadsAfter ctx schedule = some pool →
      Backend.collect pool = some pitem →
        (PowC.backend.CountsWork ctx schedule pitem ↔
          ctx.numThreads = 33 * PowC.backend.hitBatches ctx schedule) ∧
        ∀ result ctx', PowC.backend.pow ctx schedule = some (.returned result ctx') →
          ctx'.hashCount = totalHashCount pitem) ∧
    (∀ schedule pool pitem, PowSse.backend.threadsAfter ctx schedule = some pool →
      Backend.collect pool = some pitem →
        (PowSse.backend.CountsWork ctx schedule pitem ↔
          ctx.numThreads = 65 * PowSse.backend.hitBatches ctx schedule) ∧
        ∀ result ctx', PowSse.backend.pow ctx schedule = some (.returned result ctx') →
          ctx'.hashCount = totalHashCount pitem) := by
  constructor
  · intro schedule pool pitem hrun hcollect
    have hiff := Backend.totalHashCount_iff PowC.encodes (by decide) hthreads hrun hcollect
    refine ⟨hiff.trans ?_, fun _ _ hpow => Backend.hashCount_of_returned hrun hcollect hpow⟩
    omega
  · intro schedule pool pitem hrun hcollect
    have hiff := Backend.totalHashCount_iff PowSse.encodes (by decide) hthreads hrun hcollect
    refine ⟨hiff.trans ?_, fun _ _ hpow => Backend.hashCount_of_returned hrun hcollect hpow⟩
    omega

section witness

theorem exists_run_one {backend : Backend w} (hlawful : backend.Lawful) :
    ∃ schedule pool pitem,
      backend.threadsAfter (PowContext.almostNines 1) schedule = some pool ∧
        Backend.collect pool = some pitem := by
  have hvalid : (PowContext.almostNines 1).Valid :=
    PowContext.almostNines_valid (by decide)
  have ⟨schedule, pool, hrun, hfinished⟩ := Backend.exists_finished hlawful
    (show Backend.Sound backend PowC.almostZero 14
      (backend.queue (embed PowC.almostZero) (PowContext.almostNines 1).nonceArray) from
        Backend.sound_queue _)
  have ⟨pitem, hcollect⟩ := Backend.collect_of_finished hfinished
  exact ⟨schedule, pool, pitem, (Backend.threadsAfter_eq hvalid
    (PowContext.startsAt_almostNines 1) schedule).trans hrun, hcollect⟩

theorem countsWork_iff_one : ∃ schedule pool pitem,
    PowC.backend.threadsAfter (PowContext.almostNines 1) schedule = some pool ∧
      Backend.collect pool = some pitem ∧
        (PowC.backend.CountsWork (PowContext.almostNines 1) schedule pitem ↔
          1 = 33 * PowC.backend.hitBatches (PowContext.almostNines 1) schedule) := by
  have ⟨schedule, pool, pitem, hrun, hcollect⟩ := exists_run_one PowC.lawful
  exact ⟨schedule, pool, pitem, hrun, hcollect,
    ((countsWork_iff (PowContext.almostNines 1) (by decide)).1 schedule pool pitem hrun
      hcollect).1⟩

/-- One thread alone never counts its work. -/
theorem not_countsWork_one : ¬∀ (ctx : PowContext) (schedule : List (Fin ctx.numThreads))
    (pool : Pool ctx.numThreads (Worker 64) Bool) (pitem : Fin ctx.numThreads → WorkItem),
    PowC.backend.threadsAfter ctx schedule = some pool → Backend.collect pool = some pitem →
      PowC.backend.CountsWork ctx schedule pitem := by
  intro hall
  have ⟨schedule, pool, pitem, hrun, hcollect⟩ := exists_run_one PowC.lawful
  have hcounts := hall _ schedule pool pitem hrun hcollect
  have hbalance : 2 * 1 = (64 + 2) * _ := (Backend.totalHashCount_iff PowC.encodes (by decide)
    (show (PowContext.almostNines 1).numThreads < 2 ^ 31 by decide) hrun hcollect).mp hcounts
  omega

end witness

end Dcurl
