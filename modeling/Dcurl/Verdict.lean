import Dcurl.PowAvx
import Dcurl.PowSse
import Dcurl.SimdSpace
import Dcurl.Spec.Preimage

/-! What a worker thread reports. `work_cb` takes the sign of the value that the
loop returns for the verdict; `loop_256` counts its iterations in an `int` and
returns a product with 256, whose sign the product may lose. -/
namespace Dcurl

open Library Odometer

variable {w : Nat}

namespace Backend

section reports

variable (backend : Backend w) (m : Nat) {threads : Nat}

/-- Thread `t` is about to leave the loop in iteration `i`, with the nonce that a
hit writes or with none. -/
inductive Leaves (pool : Pool threads (Worker w) Bool) (t : Fin threads) :
    Option (Vector Int8 81) → Nat → Prop
  | hit {words : Words w} {i : Nat} {nonce : Vector Int8 81} :
      pool.threads t = .batch words i nonce → 0 ≤ backend.tryBatch words m →
        Leaves pool t (some (backend.seri words (backend.tryBatch words m).toNat nonce)) i
  | miss {words : Words w} {i : Nat} {nonce : Vector Int8 81} :
      pool.threads t = .test words i nonce →
        ((backend.incr words).1 = true ∨ pool.shared = true) → Leaves pool t none i

/-- The thread leaves its nonce array filled exactly when the value it returns
is not negative, and whatever the other threads do until its critical section,
it then sets `stop_pow` and its `n` to -1 exactly when the array is filled. -/
def Reports (nonceArray : Vector (Vector Int8 81) threads) (pool : Pool threads (Worker w) Bool)
    (t : Fin threads) (filled : Option (Vector Int8 81)) : Prop :=
  ∃ ret next, backend.poolStep m pool t = some next ∧
    next.threads t = .publish ret (filled.getD nonceArray[t]) ∧
    (0 ≤ ret ↔ filled.isSome = true) ∧
    ∀ schedule later final, Machine.run (backend.poolStep m) next schedule = some later →
      later.threads t = .publish ret (filled.getD nonceArray[t]) →
      backend.poolStep m later t = some final →
        final.shared = (later.shared || filled.isSome) ∧
          ∃ n, final.threads t = .done ret n (filled.getD nonceArray[t]) ∧
            (n = -1 ↔ filled.isSome = true)

def verdict (filled : Option (Vector Int8 81)) (i : Nat) : Int :=
  if filled.isSome then backend.found i else backend.missed i

variable {backend m}

def Untouched (nonce : Vector Int8 81) : Worker w → Prop
  | .test _ _ nonce' => nonce' = nonce
  | .batch _ _ nonce' => nonce' = nonce
  | .publish _ _ => True
  | .done _ _ _ => True

theorem Untouched.step {nonce : Vector Int8 81} {t : Nat} {worker worker' : Worker w}
    {stopPow stopPow' : Bool} (h : Untouched nonce worker)
    (hstep : backend.workCb m t worker stopPow = some (worker', stopPow')) :
    Untouched nonce worker' := by
  cases steps_of_workCb hstep with
  | enter _ => exact h
  | leave _ => trivial
  | hit _ => trivial
  | miss _ => exact h
  | success _ => trivial
  | failure _ => trivial

variable {cState : CurlState} {nonceArray : Vector (Vector Int8 81) threads}
  {schedule : List (Fin threads)} {pool : Pool threads (Worker w) Bool} {t : Fin threads}
  {filled : Option (Vector Int8 81)} {i : Nat}

theorem untouched_runPool (hrun : backend.runPool m cState nonceArray schedule = some pool) :
    ∀ t, Untouched nonceArray[t] (pool.threads t) := by
  have hkeeps : Pool.Keeps (fun t : Fin threads => backend.workCb (w := w) m t)
      (fun t worker _ => Untouched nonceArray[t] worker) := by
    intro t worker stopPow worker' stopPow' h hstep
    exact ⟨h.step hstep, fun _ _ _ hother => hother⟩
  refine Machine.run_invariant (fun pool => ∀ t, Untouched nonceArray[t] (pool.threads t))
    ?_ ?_ hrun
  · intro pool t next hpool hnext
    exact Pool.step_invariant hkeeps hpool hnext
  · intro t
    rfl

theorem Leaves.step (hrun : backend.runPool m cState nonceArray schedule = some pool)
    (hleaves : backend.Leaves m pool t filled i) : ∃ next,
      backend.poolStep m pool t = some next ∧
        next.threads t = .publish (backend.verdict filled i) (filled.getD nonceArray[t]) := by
  have huntouched := untouched_runPool hrun t
  cases hleaves with
  | @hit words i nonce hbatch hhit =>
      refine ⟨_, Pool.step_eq_some_iff.mpr ⟨_, pool.shared, ?_, rfl⟩, Function.update_self ..⟩
      rw [hbatch, workCb, if_pos hhit]
      rfl
  | @miss words i nonce htest hend =>
      refine ⟨_, Pool.step_eq_some_iff.mpr ⟨_, pool.shared, ?_, rfl⟩, Function.update_self ..⟩
      rw [htest] at huntouched ⊢
      simp only [workCb]
      rw [if_neg]
      · rw [huntouched]
        rfl
      · cases hend with
        | inl hexhausted => simp [hexhausted]
        | inr hstop => simp [hstop]

theorem shared_of_publish {pool next : Pool threads (Worker w) Bool} {ret : Int}
    {nonce : Vector Int8 81} (hpublish : pool.threads t = .publish ret nonce)
    (hnext : backend.poolStep m pool t = some next) :
    next.shared = (pool.shared || decide (0 ≤ ret)) ∧
      next.threads t = .done ret (if 0 ≤ ret then -1 else t) nonce := by
  have ⟨worker, stopPow, hstep, heq⟩ := Pool.step_eq_some_iff.mp hnext
  subst heq
  rw [hpublish] at hstep
  simp only [workCb] at hstep
  by_cases hret : 0 ≤ ret
  · rw [if_pos hret, Option.some.injEq, Prod.mk.injEq] at hstep
    simp [← hstep.1, ← hstep.2, hret]
  · rw [if_neg hret, Option.some.injEq, Prod.mk.injEq] at hstep
    simp [← hstep.1, ← hstep.2, hret]

/-- A thread reports what happened exactly when the sign of its verdict does. -/
theorem reports_iff (hrun : backend.runPool m cState nonceArray schedule = some pool)
    (hleaves : backend.Leaves m pool t filled i) :
    backend.Reports m nonceArray pool t filled ↔
      (0 ≤ backend.verdict filled i ↔ filled.isSome = true) := by
  have ⟨next, hnext, hpublish⟩ := hleaves.step hrun
  constructor
  · intro ⟨ret, next', hnext', hpublish', hret, _⟩
    have hsame : next' = next := Option.some.inj (hnext'.symm.trans hnext)
    rw [hsame, hpublish] at hpublish'
    have hverdict : backend.verdict filled i = ret := by
      injection hpublish'
    rw [hverdict]
    exact hret
  · intro hret
    refine ⟨_, next, hnext, hpublish, hret, ?_⟩
    intro schedule later final _ hlater hfinal
    have ⟨hshared, hdone⟩ := shared_of_publish hlater hfinal
    refine ⟨?_, _, hdone, ?_⟩
    · rw [hshared, ← Bool.decide_coe filled.isSome, decide_eq_decide.mpr hret]
    · rw [← hret]
      split <;> omega

theorem Faithful.reports (hfaithful : backend.Faithful)
    (hrun : backend.runPool m cState nonceArray schedule = some pool)
    (hleaves : backend.Leaves m pool t filled i) : backend.Reports m nonceArray pool t filled := by
  rw [reports_iff hrun hleaves]
  have hfound := hfaithful.found_nonneg i
  have hmissed := hfaithful.missed_neg i
  unfold verdict
  cases filled with
  | none => simpa using hmissed
  | some nonce => simpa using hfound

end reports

section stranded

variable {backend : Backend w} (hlawful : backend.Lawful) {m : Nat} {mid : Spec.State}
  {threads : Nat} (nonceArray : Vector (Vector Int8 81) threads) (t : Fin threads)

include hlawful

theorem poolStep_enter {i : Nat} (hi : i < batches mid) {pool : Pool threads (Worker w) Bool}
    (htest : pool.threads t = .test (backend.counterAt (embed mid) t i) i nonceArray[t])
    (hshared : pool.shared = false) :
    backend.poolStep m pool t = some ⟨Function.update pool.threads t
      (.batch (backend.counterAt (embed mid) t (i + 1)) i nonceArray[t]), false⟩ := by
  have hincr := incr_counterAt_of_lt hlawful mid t hi
  have henter : backend.workCb m t (pool.threads t) pool.shared =
      some (.batch (backend.counterAt (embed mid) t (i + 1)) i nonceArray[t], false) := by
    rw [htest, hshared, counterAt_succ]
    simp only [workCb]
    rw [if_pos (by simp [hincr])]
  exact Pool.step_eq_some_iff.mpr ⟨_, _, henter, rfl⟩

theorem exists_run_of_misses {i : Nat} (hi : i ≤ batches mid) (hmisses : backend.Misses mid m t i) :
    ∃ schedule pool, backend.runPool m (embed mid) nonceArray schedule = some pool ∧
      pool.threads t = .test (backend.counterAt (embed mid) t i) i nonceArray[t] ∧
        pool.shared = false := by
  induction i with
  | zero => exact ⟨[], _, rfl, rfl, rfl⟩
  | succ i ih =>
      have ⟨schedule, pool, hrun, htest, hshared⟩ :=
        ih (by omega) fun k hpos hk => hmisses k hpos (by omega)
      have hmiss : backend.workCb m t
          (.batch (backend.counterAt (embed mid) t (i + 1)) i nonceArray[t]) false =
            some (.test (backend.counterAt (embed mid) t (i + 1)) (i + 1) nonceArray[t],
              false) := by
        have hneg := hmisses (i + 1) (by omega) le_rfl
        simp only [workCb]
        rw [if_neg (by omega)]
      let entered : Pool threads (Worker w) Bool := ⟨Function.update pool.threads t
        (.batch (backend.counterAt (embed mid) t (i + 1)) i nonceArray[t]), false⟩
      let left : Pool threads (Worker w) Bool := ⟨Function.update entered.threads t
        (.test (backend.counterAt (embed mid) t (i + 1)) (i + 1) nonceArray[t]), false⟩
      have hfirst : backend.poolStep m pool t = some entered :=
        poolStep_enter hlawful nonceArray t (show i < batches mid by omega) htest hshared
      have hsecond : backend.poolStep m entered t = some left := by
        apply Pool.step_eq_some_iff.mpr
        refine ⟨_, _, ?_, rfl⟩
        simpa [entered] using hmiss
      refine ⟨schedule ++ [t, t], left, ?_, Function.update_self .., rfl⟩
      rw [runPool_append hrun, Machine.run_cons, hfirst, Option.bind_some, Machine.run_cons,
        hsecond]
      rfl

theorem exists_run_leaves (hhopeless : ∀ trits : Spec.State,
    (∀ p : Fin 729, p.val < 162 ∨ 243 ≤ p.val → trits[p] = mid[p]) →
      ¬Spec.HasWeight m (Spec.curl trits)) :
    ∃ schedule pool, backend.runPool m (embed mid) nonceArray schedule = some pool ∧
      backend.Leaves m pool t none (batches mid) := by
  have hmisses : backend.Misses mid m t (batches mid) := by
    intro k _ _
    by_contra hhit
    have ⟨trits, hagree, hweight, _⟩ :=
      exists_state_of_tryBatch hlawful mid t (not_lt.mp hhit) nonceArray[t]
    exact hhopeless trits hagree hweight
  have ⟨schedule, pool, hrun, htest, _⟩ := exists_run_of_misses hlawful nonceArray t le_rfl hmisses
  exact ⟨schedule, pool, hrun, .miss htest (Or.inl (incr_counterAt_batches hlawful mid t))⟩

theorem exists_run_batch (hbatches : 1 ≤ batches mid) :
    ∃ pool, backend.runPool m (embed mid) nonceArray [t] = some pool ∧
      pool.threads t = .batch (backend.counterAt (embed mid) t 1) 0 nonceArray[t] := by
  have hstep := poolStep_enter (m := m) hlawful nonceArray t hbatches
    (show (backend.queue (embed mid) nonceArray).threads t =
      .test (backend.counterAt (embed mid) t 0) 0 nonceArray[t] from rfl) rfl
  exact ⟨_, Option.bind_eq_some_iff.mpr ⟨_, hstep, rfl⟩, Function.update_self ..⟩

end stranded

end Backend

section faithful

variable {threads m : Nat} {cState : CurlState} {nonceArray : Vector (Vector Int8 81) threads}
  {schedule : List (Fin threads)} {t : Fin threads} {filled : Option (Vector Int8 81)} {i : Nat}

theorem PowC.reports {pool : Pool threads (Worker 64) Bool}
    (hrun : PowC.backend.runPool m cState nonceArray schedule = some pool)
    (hleaves : PowC.backend.Leaves m pool t filled i) :
    PowC.backend.Reports m nonceArray pool t filled :=
  PowC.faithful.reports hrun hleaves

theorem PowSse.reports {pool : Pool threads (Worker 128) Bool}
    (hrun : PowSse.backend.runPool m cState nonceArray schedule = some pool)
    (hleaves : PowSse.backend.Leaves m pool t filled i) :
    PowSse.backend.Reports m nonceArray pool t filled :=
  PowSse.faithful.reports hrun hleaves

end faithful

namespace PowAvx

def build : Bool → Backend 256
  | true => backend
  | false => backendPd

theorem lawful_build (avx2 : Bool) : (build avx2).Lawful := by
  cases avx2 with
  | true => exact lawful
  | false => exact lawfulPd

theorem wrap32_nonneg_iff (value : Int) : 0 ≤ wrap32 value ↔ value % 2 ^ 32 < 2 ^ 31 := by
  unfold wrap32 Int.bmod
  dsimp only
  split <;> omega

theorem found_nonneg_iff (i : Nat) : 0 ≤ found i ↔ i % 2 ^ 24 < 2 ^ 23 := by
  unfold found
  rw [wrap32_nonneg_iff]
  omega

theorem missed_nonneg_iff (i : Nat) : 0 ≤ missed i ↔ ¬i % 2 ^ 24 < 2 ^ 23 := by
  unfold missed
  rw [wrap32_nonneg_iff]
  omega

theorem verdict_build_iff (avx2 : Bool) (filled : Option (Vector Int8 81)) (i : Nat) :
    (0 ≤ (build avx2).verdict filled i ↔ filled.isSome = true) ↔ i % 2 ^ 24 < 2 ^ 23 := by
  have hreturns : (build avx2).found = found ∧ (build avx2).missed = missed := by
    cases avx2 <;> simp only [build, backend, backendPd, and_self]
  unfold Backend.verdict
  rw [hreturns.1, hreturns.2]
  cases filled with
  | none => simp [missed_nonneg_iff]
  | some nonce => simp [found_nonneg_iff]

/-- In every run, a thread that leaves after `i` iterations reports what
happened exactly when `i` modulo `2 ^ 24` is below `2 ^ 23`. -/
theorem build_reports_iff (avx2 : Bool) {threads : Nat} (m : Nat) (cState : CurlState)
    (nonceArray : Vector (Vector Int8 81) threads) (schedule : List (Fin threads))
    (pool : Pool threads (Worker 256) Bool) (t : Fin threads)
    (filled : Option (Vector Int8 81)) (i : Nat)
    (hrun : (build avx2).runPool m cState nonceArray schedule = some pool)
    (hleaves : (build avx2).Leaves m pool t filled i) :
    (build avx2).Reports m nonceArray pool t filled ↔ i % 2 ^ 24 < 2 ^ 23 := by
  rw [Backend.reports_iff hrun hleaves, verdict_build_iff]

/-- A thread that hits in its first batch. -/
theorem build_reports_iff_almostZero : ∃ pool nonce,
    (build true).runPool 14 (embed PowC.almostZero) #v[Vector.replicate 81 0] [0] = some pool ∧
      ((build true).Reports 14 #v[Vector.replicate 81 0] pool (0 : Fin 1) (some nonce) ↔
        0 % 2 ^ 24 < 2 ^ 23) := by
  obtain ⟨pool, hrun, hbatch⟩ := Backend.exists_run_batch (lawful_build true)
    #v[Vector.replicate 81 0] 0 PowC.one_le_batches_almostZero
  exact ⟨pool, _, hrun,
    build_reports_iff true 14 _ _ [0] pool 0 _ 0 hrun (.hit hbatch (tryBatch_almostZero 14))⟩

/-- What the driver takes for granted of its threads. -/
def AlwaysReports (avx2 : Bool) : Prop :=
  ∀ (threads m : Nat) (cState : CurlState) (nonceArray : Vector (Vector Int8 81) threads)
    (schedule : List (Fin threads)) (pool : Pool threads (Worker 256) Bool) (t : Fin threads)
    (filled : Option (Vector Int8 81)) (i : Nat), m ≤ 243 → i < 2 ^ 31 →
    (build avx2).runPool m cState nonceArray schedule = some pool →
    (build avx2).Leaves m pool t filled i → (build avx2).Reports m nonceArray pool t filled

def late : Spec.State := Vector.ofFn fun p => if p.val < 208 then .neg else .pos

theorem startDigits_late :
    Backend.startDigits late = List.replicate 15 0 ++ List.replicate 35 2 := by
  unfold Backend.startDigits Spec.window
  simp only [late, Vector.getElem_ofFn]
  decide

theorem headroom_late : headroom 49 (Backend.startDigits late) = 14348906 := by
  rw [startDigits_late]
  decide +kernel

/-- On a transaction that no nonce completes, a thread counts to its end,
14348906 iterations on, and has found nothing. -/
theorem exists_run_late (avx2 : Bool) : ∃ mid schedule pool,
    (build avx2).runPool 243 (embed mid) #v[Vector.replicate 81 0] schedule = some pool ∧
      (build avx2).Leaves 243 pool (0 : Fin 1) none 14348906 := by
  have ⟨mid, hnonce, hhopeless⟩ := Spec.exists_hopeless late
  have hstart : Backend.startDigits mid = Backend.startDigits late := by
    apply Spec.window_congr
    intro p hlow hhigh
    exact hnonce p (by omega) hhigh
  have hbatches : Backend.batches mid = 14348906 := by
    unfold Backend.batches
    rw [hstart, headroom_late]
  have ⟨schedule, pool, hrun, hleaves⟩ := Backend.exists_run_leaves (lawful_build avx2)
    #v[Vector.replicate 81 0] (0 : Fin 1) hhopeless
  exact ⟨mid, schedule, pool, hrun, hbatches ▸ hleaves⟩

/-- It reports success in both builds. -/
theorem not_alwaysReports : ¬AlwaysReports true ∧ ¬AlwaysReports false := by
  have hnot : ∀ avx2, ¬AlwaysReports avx2 := by
    intro avx2 hall
    have ⟨mid, schedule, pool, hrun, hleaves⟩ := exists_run_late avx2
    have hreports := hall 1 243 _ _ schedule pool 0 none 14348906 le_rfl (by decide) hrun hleaves
    rw [Backend.reports_iff hrun hleaves, verdict_build_iff] at hreports
    omega
  exact ⟨hnot true, hnot false⟩

end PowAvx

end Dcurl
