import Dcurl.Library.Machine
import Dcurl.Transform
import Dcurl.Search

/-! The worker threads of the CPU back ends: `loop_cpu`, `loop_128` and
`loop_256` inside `pwork` and `work_cb`. The loops differ in the functions they
call, which a `Backend` collects, and in the value they return. -/
namespace Dcurl

open Library Odometer PingPong

variable {w : Nat}

structure Backend (w : Nat) where
  transform : Buffers (Words w) → Buffers (Words w)
  incr : Words w → Bool × Words w
  check : Words w → Nat → Int
  seri : Words w → Nat → Vector Int8 81 → Vector Int8 81
  /-- `pwork` up to its call of the loop, with the thread index `n`. -/
  prepare : CurlState → Nat → Words w
  /-- The value returned when `check` succeeds in iteration `i`. -/
  found : Nat → Int
  /-- The value returned when the loop ends after `i` iterations. -/
  missed : Nat → Int

inductive Worker (w : Nat) where
  /-- Holding the read lock, about to evaluate the condition of the loop. -/
  | test (mid : Words w) (i : Nat) (nonce : Vector Int8 81)
  /-- In the body of the loop, with the lock released. -/
  | batch (mid : Words w) (i : Nat) (nonce : Vector Int8 81)
  /-- Before the critical section of `work_cb`. -/
  | publish (ret : Int) (nonce : Vector Int8 81)
  | done (ret : Int) (n : Int) (nonce : Vector Int8 81)

structure WorkItem where
  ret : Int
  n : Int
  nonce : Vector Int8 81

def Worker.item? : Worker w → Option WorkItem
  | .done ret n nonce => some ⟨ret, n, nonce⟩
  | _ => none

namespace Backend

/-- One batch: the copy of the counter is transformed and its second half
checked. The second half of the copy is written before it is read. -/
def tryBatch (backend : Backend w) (mid : Words w) (m : Nat) : Int :=
  backend.check (backend.transform ⟨mid, mid⟩).second m

/-- The atomic steps of thread `t`; the shared value is `stop_pow`. -/
def workCb (backend : Backend w) (m : Nat) (t : Nat) :
    Worker w → Bool → Option (Worker w × Bool)
  | .test mid i nonce, stopPow =>
      let (exhausted, mid) := backend.incr mid
      if !exhausted && !stopPow then some (.batch mid i nonce, stopPow)
      else some (.publish (backend.missed i) nonce, stopPow)
  | .batch mid i nonce, stopPow =>
      let n := backend.tryBatch mid m
      if 0 ≤ n then some (.publish (backend.found i) (backend.seri mid n.toNat nonce), stopPow)
      else some (.test mid (i + 1) nonce, stopPow)
  | .publish ret nonce, stopPow =>
      if 0 ≤ ret then some (.done ret (-1) nonce, true)
      else some (.done ret t nonce, stopPow)
  | .done _ _ _, _ => none

/-- The counter of thread `t` after `k` calls of `incr`. -/
def counterAt (backend : Backend w) (cState : CurlState) (t k : Nat) : Words w :=
  (fun mid => (backend.incr mid).2)^[k] (backend.prepare cState t)

/-- What the search relies on. The counter is the window of 50 trits from 193
on, and only the trits from 162 to 192 are prepared per thread. -/
structure Lawful (backend : Backend w) : Prop where
  prepare_spec : ∀ (mid : Spec.State) (t lane : Nat), lane < w →
    (backend.prepare (embed mid) t).HoldsOutside lane 162 193 mid
  incr_spec : ∀ (base : Nat → Spec.State) (digits : List (Digit 2)) (mid : Words w),
    digits.length = 50 → (∀ lane < w, mid.Holds lane (Spec.overlay (base lane) 193 digits)) →
      (backend.incr mid).1 = visitsLast digits ∧
        ∀ lane < w, (backend.incr mid).2.Holds lane (Spec.overlay (base lane) 193 (tick digits))
  tryBatch_spec : ∀ (base : Nat → Spec.State) (mid : Words w) (m : Nat),
    (∀ lane < w, mid.Holds lane (base lane)) → 0 ≤ backend.tryBatch mid m →
      (backend.tryBatch mid m).toNat < w ∧
        Spec.HasWeight m (Spec.curl (base (backend.tryBatch mid m).toNat))
  seri_spec : ∀ (mid : Words w) (lane : Nat) (trits : Spec.State) (nonce : Vector Int8 81),
    lane < w → mid.Holds lane trits → backend.seri mid lane nonce = nonceOf trits

/-- The value returned tells a hit from a miss. -/
structure Faithful (backend : Backend w) : Prop where
  found_nonneg : ∀ i, 0 ≤ backend.found i
  missed_neg : ∀ i, backend.missed i < 0

def startDigits (mid : Spec.State) : List (Digit 2) := Spec.window mid 193 50 incr_inside

@[simp] theorem length_startDigits (mid : Spec.State) : (startDigits mid).length = 50 :=
  Spec.length_window _ _ _ _

def batches (mid : Spec.State) : Nat := headroom 49 (startDigits mid)

section check

variable {gate : Gate w} (hgate : gate.Lawful) (base : Nat → Spec.State) (mid : Words w)
  (hmid : ∀ lane < w, mid.Holds lane (base lane))

include hgate hmid

theorem exists_hash_transformWords : ∃ hash : Nat → Spec.State,
    (∀ lane, hash lane = Spec.curl (base lane)) ∧
      ∀ lane < w, ∀ i : Fin 729, i.val < 243 →
        (transformWords gate ⟨mid, mid⟩).second.trit? lane i = some (hash lane)[i] := by
  refine ⟨fun lane => Spec.curl (base lane), fun _ => rfl, ?_⟩
  intro lane hlane i hi
  have hfirst : (Buffers.mk mid mid).first.Holds lane (base lane) := hmid lane hlane
  exact trit?_transformWords hgate hlane hfirst hi

variable {elements : Nat} (hw : 64 * elements = w) {absent : Int} {hbits : BitVec w}
  {dead : BitVec w → Bool} (m : Nat)

include hw

theorem checkWith_transformWords (habsent : absent < 0)
    (h : 0 ≤ checkWith elements hbits dead absent (transformWords gate ⟨mid, mid⟩).second m) :
    (checkWith elements hbits dead absent (transformWords gate ⟨mid, mid⟩).second m).toNat < w ∧
      Spec.HasWeight m (Spec.curl (base (checkWith elements hbits dead absent
        (transformWords gate ⟨mid, mid⟩).second m).toNat)) := by
  have ⟨hash, hhash, hwords⟩ := exists_hash_transformWords hgate base mid hmid
  rw [← hhash]
  exact checkWith_sound hash hw habsent hwords h

theorem checkWith_transformWords_complete (hhbits : hbits = BitVec.allOnes w)
    (hdead : ∀ probe, dead probe = true → probe = 0#w) {lane : Nat} (hlane : lane < w)
    (hweight : Spec.HasWeight m (Spec.curl (base lane))) :
    0 ≤ checkWith elements hbits dead absent (transformWords gate ⟨mid, mid⟩).second m := by
  have ⟨hash, hhash, hwords⟩ := exists_hash_transformWords hgate base mid hmid
  rw [← hhash] at hweight
  exact checkWith_complete hash hw hhbits hwords (getLsbD_of_dead hdead lane) hlane hweight

end check

section counter

variable {backend : Backend w} (hlawful : backend.Lawful) (mid : Spec.State) (t : Nat)

theorem counterAt_succ (backend : Backend w) (cState : CurlState) (t k : Nat) :
    backend.counterAt cState t (k + 1) = (backend.incr (backend.counterAt cState t k)).2 :=
  Function.iterate_succ_apply' _ _ _

include hlawful

/-- Every lane counts through the same window over trits of its own. -/
theorem exists_counterAt : ∃ base : Nat → Spec.State,
    (∀ lane < w, ∀ p : Fin 729, p.val < 162 ∨ 193 ≤ p.val → (base lane)[p] = mid[p]) ∧
      ∀ k, (∀ lane < w, (backend.counterAt (embed mid) t k).Holds lane
          (Spec.overlay (base lane) 193 (tick^[k] (startDigits mid)))) ∧
        (backend.incr (backend.counterAt (embed mid) t k)).1 =
          visitsLast (tick^[k] (startDigits mid)) := by
  choose! base hholds hagree using fun lane => hlawful.prepare_spec mid t lane
  have hkept : ∀ k, ∀ lane < w, (backend.counterAt (embed mid) t k).Holds lane
      (Spec.overlay (base lane) 193 (tick^[k] (startDigits mid))) := by
    intro k
    induction k with
    | zero =>
        intro lane hlane
        have hwindow : startDigits mid = Spec.window (base lane) 193 50 incr_inside := by
          apply Spec.window_congr
          intro p hp _
          exact (hagree lane hlane p (Or.inr hp)).symm
        rw [Function.iterate_zero_apply, hwindow, Spec.overlay_window]
        exact hholds lane hlane
    | succ k ih =>
        rw [counterAt_succ, Function.iterate_succ_apply']
        exact (hlawful.incr_spec base _ _ (by simp) ih).2
  refine ⟨base, hagree, ?_⟩
  intro k
  exact ⟨hkept k, (hlawful.incr_spec base _ _ (by simp) (hkept k)).1⟩

theorem incr_counterAt (k : Nat) :
    (backend.incr (backend.counterAt (embed mid) t k)).1 =
      visitsLast (tick^[k] (startDigits mid)) := by
  have ⟨_, _, hcounter⟩ := exists_counterAt hlawful mid t
  exact (hcounter k).2

theorem incr_counterAt_of_lt {k : Nat} (hk : k < batches mid) :
    (backend.incr (backend.counterAt (embed mid) t k)).1 = false := by
  rw [incr_counterAt hlawful]
  exact not_visitsLast_of_lt (by simp) hk

theorem incr_counterAt_batches :
    (backend.incr (backend.counterAt (embed mid) t (batches mid))).1 = true := by
  rw [incr_counterAt hlawful]
  exact visitsLast_headroom (by simp)

/-- A lane that a batch selects is a state that differs from the mid state in
the nonce trits at most and hashes as required; its nonce is what `seri` writes. -/
theorem exists_state_of_tryBatch {k m : Nat}
    (h : 0 ≤ backend.tryBatch (backend.counterAt (embed mid) t k) m) (nonce : Vector Int8 81) :
    ∃ trits : Spec.State,
      (∀ p : Fin 729, p.val < 162 ∨ 243 ≤ p.val → trits[p] = mid[p]) ∧
        Spec.HasWeight m (Spec.curl trits) ∧
        backend.seri (backend.counterAt (embed mid) t k)
          (backend.tryBatch (backend.counterAt (embed mid) t k) m).toNat nonce = nonceOf trits := by
  have ⟨base, hagree, hcounter⟩ := exists_counterAt hlawful mid t
  have ⟨hlane, hweight⟩ := hlawful.tryBatch_spec _ _ m (hcounter k).1 h
  refine ⟨_, ?_, hweight, hlawful.seri_spec _ _ _ nonce hlane ((hcounter k).1 _ hlane)⟩
  intro p hp
  rw [Spec.getElem_overlay_of_outside _ (by simp; omega)]
  exact hagree _ hlane p (by omega)

end counter

section thread

variable (backend : Backend w) (mid : Spec.State) (m : Nat)

def Misses (t i : Nat) : Prop :=
  ∀ k, 0 < k → k ≤ i → backend.tryBatch (backend.counterAt (embed mid) t k) m < 0

def Hits (t i : Nat) : Prop :=
  backend.Misses mid m t i ∧
    0 ≤ backend.tryBatch (backend.counterAt (embed mid) t (i + 1)) m

/-- What `pwork` of thread `t` may return; a thread that ends early has seen
`stop_pow`. -/
inductive Returns (t : Nat) (stopPow : Bool) : Int → Vector Int8 81 → Prop
  | hit (i : Nat) (trits : Spec.State) : i < batches mid → backend.Hits mid m t i →
      (∀ p : Fin 729, p.val < 162 ∨ 243 ≤ p.val → trits[p] = mid[p]) →
      Spec.HasWeight m (Spec.curl trits) →
        Returns t stopPow (backend.found i) (nonceOf trits)
  | miss (i : Nat) (nonce : Vector Int8 81) : i ≤ batches mid → backend.Misses mid m t i →
      (i = batches mid ∨ stopPow = true) → Returns t stopPow (backend.missed i) nonce

def Follows (t : Nat) : Worker w → Bool → Prop
  | .test words i _, _ =>
      words = backend.counterAt (embed mid) t i ∧ i ≤ batches mid ∧ backend.Misses mid m t i
  | .batch words i _, _ =>
      words = backend.counterAt (embed mid) t (i + 1) ∧ i < batches mid ∧
        backend.Misses mid m t i
  | .publish ret nonce, stopPow => backend.Returns mid m t stopPow ret nonce
  | .done ret n nonce, stopPow =>
      backend.Returns mid m t stopPow ret nonce ∧ n = if 0 ≤ ret then -1 else (t : Int)

def SucceedsAlone (t : Nat) : Prop :=
  (∃ i < batches mid, backend.Hits mid m t i ∧ 0 ≤ backend.found i) ∨
    backend.Misses mid m t (batches mid) ∧ 0 ≤ backend.missed (batches mid)

variable {backend mid m}

theorem Misses.succ {t i : Nat} (h : backend.Misses mid m t i)
    (hmiss : backend.tryBatch (backend.counterAt (embed mid) t (i + 1)) m < 0) :
    backend.Misses mid m t (i + 1) := by
  intro k hpos hk
  by_cases hlast : k = i + 1
  · exact hlast ▸ hmiss
  · exact h k hpos (by omega)

theorem Hits.eq {t i j : Nat} (hi : backend.Hits mid m t i) (hj : backend.Hits mid m t j) :
    i = j := by
  have hle : ∀ {i j : Nat}, backend.Hits mid m t i → backend.Hits mid m t j → j ≤ i := by
    intro i j hi hj
    by_contra hlt
    have hmiss := hj.1 (i + 1) (by omega) (by omega)
    have hhit := hi.2
    omega
  exact Nat.le_antisymm (hle hj hi) (hle hi hj)

theorem Misses.not_hits {t i j : Nat} (h : backend.Misses mid m t i) (hj : j < i) :
    ¬backend.Hits mid m t j := by
  intro hhits
  have hmiss := h (j + 1) (by omega) (by omega)
  have hhit := hhits.2
  omega

theorem exists_hits {t k : Nat} (hpos : 0 < k)
    (hhit : 0 ≤ backend.tryBatch (backend.counterAt (embed mid) t k) m) :
    ∃ i < k, backend.Hits mid m t i := by
  induction k using Nat.strong_induction_on with
  | _ k ih =>
      by_cases hearlier : ∃ j, 0 < j ∧ j < k ∧
          0 ≤ backend.tryBatch (backend.counterAt (embed mid) t j) m
      · have ⟨j, hj, hlt, hhit'⟩ := hearlier
        have ⟨i, hi, hhits⟩ := ih j hlt hj hhit'
        exact ⟨i, by omega, hhits⟩
      · refine ⟨k - 1, by omega, ?_, ?_⟩
        · intro j hj hle
          by_contra hnot
          exact hearlier ⟨j, hj, by omega, by omega⟩
        · rwa [Nat.sub_add_cancel hpos]

theorem succeedsAlone_iff (hfaithful : backend.Faithful) (t : Nat) :
    backend.SucceedsAlone mid m t ↔ ∃ k, 0 < k ∧ k ≤ batches mid ∧
      0 ≤ backend.tryBatch (backend.counterAt (embed mid) t k) m := by
  constructor
  · intro h
    cases h with
    | inl h =>
        have ⟨i, hi, hhits, _⟩ := h
        exact ⟨i + 1, by omega, by omega, hhits.2⟩
    | inr h =>
        have hneg := hfaithful.missed_neg (batches mid)
        omega
  · intro ⟨k, hpos, hk, hhit⟩
    have ⟨i, hi, hhits⟩ := exists_hits hpos hhit
    exact Or.inl ⟨i, by omega, hhits, hfaithful.found_nonneg i⟩

theorem Returns.of_stop {t : Nat} {stopPow : Bool} {ret : Int} {nonce : Vector Int8 81}
    (h : backend.Returns mid m t stopPow ret nonce) : backend.Returns mid m t true ret nonce := by
  cases h with
  | hit i trits hi hhits hagree hweight => exact .hit i trits hi hhits hagree hweight
  | miss i nonce hi hmisses _ => exact .miss i nonce hi hmisses (Or.inr rfl)

theorem Returns.succeedsAlone {t : Nat} {ret : Int} {nonce : Vector Int8 81}
    (h : backend.Returns mid m t false ret nonce) (hret : 0 ≤ ret) :
    backend.SucceedsAlone mid m t := by
  cases h with
  | hit i trits hi hhits _ _ => exact Or.inl ⟨i, hi, hhits, hret⟩
  | miss i nonce hi hmisses hend =>
      have hend := hend.resolve_right (by decide)
      exact Or.inr ⟨hend ▸ hmisses, hend ▸ hret⟩

theorem SucceedsAlone.returns {t : Nat} {ret : Int} {nonce : Vector Int8 81}
    (halone : backend.SucceedsAlone mid m t) (h : backend.Returns mid m t false ret nonce) :
    0 ≤ ret := by
  cases h with
  | hit i trits hi hhits _ _ =>
      cases halone with
      | inl halone =>
          have ⟨j, _, hhits', hfound⟩ := halone
          exact hhits.eq hhits' ▸ hfound
      | inr halone => exact absurd hhits (halone.1.not_hits hi)
  | miss i nonce hi hmisses hend =>
      have hend := hend.resolve_right (by decide)
      rw [hend] at hmisses ⊢
      cases halone with
      | inl halone =>
          have ⟨j, hj, hhits, _⟩ := halone
          exact absurd hhits (hmisses.not_hits hj)
      | inr halone => exact halone.2

theorem Returns.exists_state (hfaithful : backend.Faithful) {t : Nat} {stopPow : Bool} {ret : Int}
    {nonce : Vector Int8 81} (h : backend.Returns mid m t stopPow ret nonce) (hret : 0 ≤ ret) :
    ∃ trits : Spec.State, (∀ p : Fin 729, p.val < 162 ∨ 243 ≤ p.val → trits[p] = mid[p]) ∧
      Spec.HasWeight m (Spec.curl trits) ∧ nonce = nonceOf trits := by
  cases h with
  | hit i trits hi hhits hagree hweight => exact ⟨trits, hagree, hweight, rfl⟩
  | miss i nonce hi hmisses hend =>
      have hneg := hfaithful.missed_neg i
      omega

end thread

section pool

variable (backend : Backend w) (m : Nat) {threads : Nat}

def queue (cState : CurlState) (nonceArray : Vector (Vector Int8 81) threads) :
    Pool threads (Worker w) Bool where
  threads t := .test (backend.prepare cState t) 0 nonceArray[t]
  shared := false

def poolStep (pool : Pool threads (Worker w) Bool) (t : Fin threads) :
    Option (Pool threads (Worker w) Bool) :=
  pool.step (fun t => backend.workCb m t) t

def runPool (cState : CurlState) (nonceArray : Vector (Vector Int8 81) threads)
    (schedule : List (Fin threads)) : Option (Pool threads (Worker w) Bool) :=
  Machine.run (backend.poolStep m) (backend.queue cState nonceArray) schedule

def Recorded (pool : Pool threads (Worker w) Bool) : Prop :=
  ∃ t ret nonce, pool.threads t = .done ret (-1) nonce

def rank (mid : Spec.State) : Worker w → Nat
  | .test _ i _ => 2 * (batches mid - i) + 2
  | .batch _ i _ => 2 * (batches mid - i) + 1
  | .publish _ _ => 1
  | .done _ _ _ => 0

inductive Steps (backend : Backend w) (m t : Nat) : Worker w → Bool → Worker w → Bool → Prop
  | enter {mid : Words w} {i : Nat} {nonce : Vector Int8 81} {stopPow : Bool}
      (hincr : (backend.incr mid).1 = false) :
      Steps backend m t (.test mid i nonce) stopPow (.batch (backend.incr mid).2 i nonce) stopPow
  | leave {mid : Words w} {i : Nat} {nonce : Vector Int8 81} {stopPow : Bool}
      (hend : (backend.incr mid).1 = true ∨ stopPow = true) :
      Steps backend m t (.test mid i nonce) stopPow (.publish (backend.missed i) nonce) stopPow
  | hit {mid : Words w} {i : Nat} {nonce : Vector Int8 81} {stopPow : Bool}
      (hhit : 0 ≤ backend.tryBatch mid m) :
      Steps backend m t (.batch mid i nonce) stopPow (.publish (backend.found i)
        (backend.seri mid (backend.tryBatch mid m).toNat nonce)) stopPow
  | miss {mid : Words w} {i : Nat} {nonce : Vector Int8 81} {stopPow : Bool}
      (hmiss : backend.tryBatch mid m < 0) :
      Steps backend m t (.batch mid i nonce) stopPow (.test mid (i + 1) nonce) stopPow
  | success {ret : Int} {nonce : Vector Int8 81} {stopPow : Bool} (hret : 0 ≤ ret) :
      Steps backend m t (.publish ret nonce) stopPow (.done ret (-1) nonce) true
  | failure {ret : Int} {nonce : Vector Int8 81} {stopPow : Bool} (hret : ret < 0) :
      Steps backend m t (.publish ret nonce) stopPow (.done ret t nonce) stopPow

variable {backend m}

theorem steps_of_workCb {t : Nat} {worker worker' : Worker w} {stopPow stopPow' : Bool}
    (hstep : backend.workCb m t worker stopPow = some (worker', stopPow')) :
    Steps backend m t worker stopPow worker' stopPow' := by
  cases worker with
  | test mid i nonce =>
      simp only [workCb] at hstep
      split at hstep
      · rename_i hcond
        cases hstep
        simp only [Bool.and_eq_true, Bool.not_eq_true'] at hcond
        exact .enter hcond.1
      · rename_i hcond
        cases hstep
        apply Steps.leave
        cases hincr : (backend.incr mid).1 with
        | true => exact Or.inl rfl
        | false => exact Or.inr (by simpa [hincr] using hcond)
  | batch mid i nonce =>
      simp only [workCb] at hstep
      split at hstep
      · rename_i hhit
        cases hstep
        exact .hit hhit
      · rename_i hmiss
        cases hstep
        exact .miss (by omega)
  | publish ret nonce =>
      simp only [workCb] at hstep
      split at hstep
      · rename_i hret
        cases hstep
        exact .success hret
      · rename_i hret
        cases hstep
        exact .failure (by omega)
  | done ret n nonce => cases hstep

variable (hlawful : backend.Lawful) {mid : Spec.State}

include hlawful

theorem follows_workCb {t : Nat} {worker worker' : Worker w} {stopPow stopPow' : Bool}
    (hfollows : backend.Follows mid m t worker stopPow)
    (hstep : backend.workCb m t worker stopPow = some (worker', stopPow')) :
    backend.Follows mid m t worker' stopPow' ∧
      rank mid worker' < rank mid worker ∧ (stopPow = true → stopPow' = true) := by
  cases steps_of_workCb hstep with
  | @enter words i nonce _ hincr =>
      have ⟨hwords, hi, hmisses⟩ := hfollows
      subst hwords
      have hne : i ≠ batches mid := by
        intro heq
        have hend := incr_counterAt_batches hlawful mid t
        rw [← heq, hincr] at hend
        cases hend
      refine ⟨⟨(counterAt_succ _ _ _ _).symm, by omega, hmisses⟩, ?_, id⟩
      simp only [rank]
      omega
  | @leave words i nonce _ hend =>
      have ⟨hwords, hi, hmisses⟩ := hfollows
      subst hwords
      refine ⟨.miss i nonce hi hmisses ?_, by simp [rank], id⟩
      by_cases hlt : i < batches mid
      · rw [incr_counterAt_of_lt hlawful mid t hlt] at hend
        exact Or.inr (hend.resolve_left (by decide))
      · left
        omega
  | @hit words i nonce _ hhit =>
      have ⟨hwords, hi, hmisses⟩ := hfollows
      subst hwords
      have ⟨trits, hagree, hweight, hnonce⟩ := exists_state_of_tryBatch hlawful mid t hhit nonce
      refine ⟨?_, by simp only [rank]; omega, id⟩
      rw [hnonce]
      exact .hit i trits hi ⟨hmisses, hhit⟩ hagree hweight
  | @miss words i nonce _ hmiss =>
      have ⟨hwords, hi, hmisses⟩ := hfollows
      subst hwords
      refine ⟨⟨rfl, hi, hmisses.succ hmiss⟩, ?_, id⟩
      simp only [rank]
      omega
  | success hret =>
      exact ⟨⟨Returns.of_stop hfollows, by rw [if_pos hret]⟩, Nat.zero_lt_one, fun _ => rfl⟩
  | failure hret =>
      exact ⟨⟨hfollows, by rw [if_neg (by omega)]⟩, Nat.zero_lt_one, id⟩

omit hlawful in
theorem Follows.mono {t : Nat} {worker : Worker w} {stopPow stopPow' : Bool}
    (h : backend.Follows mid m t worker stopPow) (hle : stopPow = true → stopPow' = true) :
    backend.Follows mid m t worker stopPow' := by
  cases stopPow' with
  | true =>
      cases worker with
      | test words i nonce => exact h
      | batch words i nonce => exact h
      | publish ret nonce => exact Returns.of_stop h
      | done ret n nonce => exact ⟨Returns.of_stop h.1, h.2⟩
  | false =>
      have hfalse : stopPow = false := Bool.eq_false_iff.mpr fun htrue => by simpa using hle htrue
      exact hfalse ▸ h

theorem keeps_follows : Pool.Keeps (fun t : Fin threads => backend.workCb (w := w) m t)
    (fun t => backend.Follows mid m t) := by
  intro t worker stopPow worker' stopPow' hfollows hstep
  have ⟨hnext, _, hle⟩ := follows_workCb hlawful hfollows hstep
  exact ⟨hnext, fun _ _ _ hother => hother.mono hle⟩

omit hlawful in
theorem follows_queue (nonceArray : Vector (Vector Int8 81) threads) (t : Fin threads) :
    backend.Follows mid m t ((backend.queue (embed mid) nonceArray).threads t) false := by
  refine ⟨rfl, Nat.zero_le _, ?_⟩
  intro k hpos hk
  omega

omit hlawful in
theorem workCb_stopPow {t : Nat} {worker worker' : Worker w} {stopPow stopPow' : Bool}
    (hstep : backend.workCb m t worker stopPow = some (worker', stopPow')) :
    (stopPow' = stopPow ∧ ∀ ret nonce, worker' ≠ .done ret (-1) nonce) ∨
      ∃ ret nonce, worker = .publish ret nonce ∧ 0 ≤ ret ∧ worker' = .done ret (-1) nonce ∧
        stopPow' = true := by
  cases steps_of_workCb hstep with
  | success hret => exact Or.inr ⟨_, _, rfl, hret, rfl, rfl⟩
  | failure hret =>
      refine Or.inl ⟨rfl, ?_⟩
      intro ret nonce heq
      simp only [Worker.done.injEq] at heq
      omega
  | _ => exact Or.inl ⟨rfl, by simp⟩

structure Sound (backend : Backend w) (mid : Spec.State) (m : Nat)
    (pool : Pool threads (Worker w) Bool) : Prop where
  follows : ∀ t : Fin threads, backend.Follows mid m t (pool.threads t) pool.shared
  stopPow_iff : pool.shared = true ↔ Recorded pool
  alone : pool.shared = true → ∃ t : Fin threads, backend.SucceedsAlone mid m t

omit hlawful in
theorem sound_queue (nonceArray : Vector (Vector Int8 81) threads) :
    Sound backend mid m (backend.queue (embed mid) nonceArray) where
  follows := follows_queue nonceArray
  stopPow_iff := by
    simp [Recorded, queue]
  alone h := by
    simp [queue] at h

theorem sound_step {pool next : Pool threads (Worker w) Bool} {t : Fin threads}
    (hpool : Sound backend mid m pool) (hnext : backend.poolStep m pool t = some next) :
    Sound backend mid m next := by
  have hfollows := Pool.step_invariant (keeps_follows hlawful) hpool.follows hnext
  have ⟨worker, stopPow, hprogram, heq⟩ := Pool.step_eq_some_iff.mp hnext
  subst heq
  have hdone : ∀ ret n nonce, pool.threads t ≠ .done ret n nonce := by
    intro ret n nonce hdone
    simp [hdone, workCb] at hprogram
  cases workCb_stopPow hprogram with
  | inl hquiet =>
      have ⟨hsame, hnot⟩ := hquiet
      subst hsame
      refine ⟨hfollows, hpool.stopPow_iff.trans ?_, hpool.alone⟩
      unfold Recorded
      apply exists_congr
      intro u
      by_cases hu : u = t
      · subst hu
        simp [hdone, hnot]
      · simp [hu]
  | inr hcritical =>
      have ⟨ret, nonce, hpublish, hret, hworker, hstop⟩ := hcritical
      subst hstop
      refine ⟨hfollows, ⟨fun _ => ⟨t, ret, nonce, by simp [hworker]⟩, fun _ => rfl⟩, fun _ => ?_⟩
      have hreturns := hpool.follows t
      rw [hpublish] at hreturns
      cases hshared : pool.shared with
      | true => exact hpool.alone hshared
      | false =>
          rw [hshared] at hreturns
          exact ⟨t, Returns.succeedsAlone hreturns hret⟩

theorem sound_runPool {nonceArray : Vector (Vector Int8 81) threads}
    {schedule : List (Fin threads)} {pool : Pool threads (Worker w) Bool}
    (hrun : backend.runPool m (embed mid) nonceArray schedule = some pool) :
    Sound backend mid m pool :=
  Machine.run_invariant _ (fun _ _ _ hpool hnext => sound_step hlawful hpool hnext)
    (sound_queue nonceArray) hrun

omit hlawful in
theorem runPool_append {cState : CurlState} {nonceArray : Vector (Vector Int8 81) threads}
    {schedule : List (Fin threads)} {pool : Pool threads (Worker w) Bool}
    (hrun : backend.runPool m cState nonceArray schedule = some pool) (rest : List (Fin threads)) :
    backend.runPool m cState nonceArray (schedule ++ rest) =
      Machine.run (backend.poolStep m) pool rest :=
  Machine.run_append_of_eq rest hrun

omit hlawful in
theorem shared_run {pool final : Pool threads (Worker w) Bool} {schedule : List (Fin threads)}
    (hrun : Machine.run (backend.poolStep m) pool schedule = some final)
    (hshared : pool.shared = true) : final.shared = true := by
  refine Machine.run_invariant (fun pool => pool.shared = true) ?_ hshared hrun
  intro pool t next hpool hnext
  have ⟨worker, stopPow, hprogram, heq⟩ := Pool.step_eq_some_iff.mp hnext
  subst heq
  cases workCb_stopPow hprogram with
  | inl hquiet => exact hquiet.1.trans hpool
  | inr hcritical =>
      have ⟨_, _, _, _, _, hstop⟩ := hcritical
      exact hstop

theorem runPool_length_le {nonceArray : Vector (Vector Int8 81) threads}
    {schedule : List (Fin threads)} {pool : Pool threads (Worker w) Bool}
    (hrun : backend.runPool m (embed mid) nonceArray schedule = some pool) :
    schedule.length ≤ threads * (2 * batches mid + 2) := by
  have hlength := Pool.run_length_le (keeps_follows hlawful) (fun _ => rank mid)
    (fun _ _ _ _ _ hfollows hstep => (follows_workCb hlawful hfollows hstep).2.1)
    (follows_queue nonceArray) hrun
  simpa [queue, rank] using hlength

omit hlawful in
theorem isSome_workCb {t : Nat} {worker : Worker w} {stopPow : Bool}
    (hunfinished : ¬worker.item?.isSome) : (backend.workCb m t worker stopPow).isSome = true := by
  cases worker with
  | test words i nonce =>
      simp only [workCb]
      split <;> rfl
  | batch words i nonce =>
      simp only [workCb]
      split <;> rfl
  | publish ret nonce =>
      simp only [workCb]
      split <;> rfl
  | done ret n nonce => exact absurd rfl hunfinished

/-- Any state of a run can be driven to one in which all threads have finished. -/
theorem exists_finished {pool : Pool threads (Worker w) Bool} (hpool : Sound backend mid m pool) :
    ∃ schedule final, Machine.run (backend.poolStep m) pool schedule = some final ∧
      ∀ t, (final.threads t).item?.isSome = true :=
  Pool.exists_finished_run (keeps_follows hlawful) (fun _ => rank mid)
    (fun _ _ _ _ _ hfollows hstep => (follows_workCb hlawful hfollows hstep).2.1)
    (fun _ worker => worker.item?.isSome = true)
    (fun _ _ _ _ hunfinished => isSome_workCb hunfinished) pool hpool.follows

omit hlawful in
/-- When all threads have finished, some thread has recorded success exactly
when some thread would have on its own. -/
theorem recorded_iff {pool : Pool threads (Worker w) Bool} (hpool : Sound backend mid m pool)
    (hfinished : ∀ t, (pool.threads t).item?.isSome = true) :
    Recorded pool ↔ ∃ t : Fin threads, backend.SucceedsAlone mid m t := by
  constructor
  · intro hrecorded
    exact hpool.alone (hpool.stopPow_iff.mpr hrecorded)
  · intro ⟨t, halone⟩
    apply Classical.by_contradiction
    intro hnot
    have hshared : pool.shared = false :=
      Bool.eq_false_iff.mpr fun h => hnot (hpool.stopPow_iff.mp h)
    have hfollows := hpool.follows t
    cases hworker : pool.threads t with
    | test words i nonce => simpa [hworker, Worker.item?] using hfinished t
    | batch words i nonce => simpa [hworker, Worker.item?] using hfinished t
    | publish ret nonce => simpa [hworker, Worker.item?] using hfinished t
    | done ret n nonce =>
        rw [hworker, hshared] at hfollows
        have hn := hfollows.2
        rw [if_pos (halone.returns hfollows.1)] at hn
        exact hnot ⟨t, ret, nonce, hn ▸ hworker⟩

end pool

end Backend

end Dcurl
