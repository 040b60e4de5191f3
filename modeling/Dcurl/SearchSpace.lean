import Dcurl.PowC

/-! What a worker thread of `pow_c` examines: the 64 lane patterns at trits 162
to 165, the thread index at 166 to 192 and the counter from 193 to 242. -/
namespace Dcurl

open Library Odometer

variable {w : Nat}

namespace Backend

/-- `pwork` while `stop_pow` stays 0; `none` when the fuel runs out. -/
def alone (backend : Backend w) (m t : Nat) : Nat → Worker w → Option (Int × Vector Int8 81)
  | _, .publish ret nonce => some (ret, nonce)
  | 0, _ => none
  | fuel + 1, worker =>
      (backend.workCb m t worker false).bind fun next => backend.alone m t fuel next.1

theorem workCb_test_of_exhausted {backend : Backend w} (m t : Nat) {mid : Words w} (i : Nat)
    (nonce : Vector Int8 81) (stopPow : Bool) (hend : (backend.incr mid).1 = true) :
    backend.workCb m t (.test mid i nonce) stopPow =
      some (.publish (backend.missed i) nonce, stopPow) := by
  simp only [workCb]
  rw [if_neg]
  simp [hend]

theorem workCb_running (backend : Backend w) (m t : Nat) {worker : Worker w}
    (hpublish : ∀ ret nonce, worker ≠ .publish ret nonce)
    (hdone : ∀ ret n nonce, worker ≠ .done ret n nonce) :
    ∃ worker', backend.workCb m t worker false = some (worker', false) ∧
      ∀ ret n nonce, worker' ≠ .done ret n nonce := by
  cases worker with
  | test words i nonce =>
      simp only [workCb]
      split
      · exact ⟨_, rfl, by simp⟩
      · exact ⟨_, rfl, by simp⟩
  | batch words i nonce =>
      simp only [workCb]
      split
      · exact ⟨_, rfl, by simp⟩
      · exact ⟨_, rfl, by simp⟩
  | publish ret nonce => exact absurd rfl (hpublish ret nonce)
  | done ret n nonce => exact absurd rfl (hdone ret n nonce)

theorem alone_returns {backend : Backend w} (hlawful : backend.Lawful) {mid : Spec.State}
    {m t : Nat} {worker : Worker w} (hfollows : backend.Follows mid m t worker false)
    (hdone : ∀ ret n nonce, worker ≠ .done ret n nonce) :
    ∃ ret nonce, backend.Returns mid m t false ret nonce ∧
      ∀ fuel, rank mid worker ≤ fuel → backend.alone m t fuel worker = some (ret, nonce) := by
  induction hrank : rank mid worker using Nat.strong_induction_on generalizing worker with
  | _ _ ih =>
      by_cases hpublish : ∃ ret nonce, worker = .publish ret nonce
      · have ⟨ret, nonce, heq⟩ := hpublish
        subst heq
        refine ⟨ret, nonce, hfollows, ?_⟩
        intro fuel _
        cases fuel <;> rfl
      · have hnot : ∀ ret nonce, worker ≠ .publish ret nonce :=
          fun ret nonce heq => hpublish ⟨ret, nonce, heq⟩
        have ⟨worker', hstep, hdone'⟩ :=
          workCb_running backend m t hnot hdone
        have ⟨hnext, hlt, _⟩ := follows_workCb hlawful hfollows hstep
        have ⟨ret, nonce, hreturns, halone⟩ := ih _ (hrank ▸ hlt) hnext hdone' rfl
        refine ⟨ret, nonce, hreturns, ?_⟩
        intro fuel hfuel
        cases fuel with
        | zero => omega
        | succ fuel =>
            have hrest := halone fuel (by omega)
            rw [alone, hstep, Option.bind_some, hrest]
            exact hnot

end Backend

namespace PowC

/-- `pwork` of thread `n` with a fresh nonce array, while `stop_pow` stays 0. -/
def pwork (fuel : Nat) (mid : CurlState) (mwm : Nat) (nonce : Vector Int8 81) (n : Nat) :
    Option (Int × Vector Int8 81) :=
  backend.alone mwm n fuel (.test (prepare mid n) 0 nonce)

section lanes

def pattern (lane : Nat) : List (Digit 2) :=
  [Fin.ofNat 3 (lane + 1), Fin.ofNat 3 (lane / 3 + 1), Fin.ofNat 3 (lane / 9 + 1),
    Fin.ofNat 3 (lane / 27 + 1)]

theorem pattern_bits : ∀ lane < 64,
    (low0.getLsbD lane = (Trit.ofDigit (Fin.ofNat 3 (lane + 1))).lowBit ∧
      high0.getLsbD lane = (Trit.ofDigit (Fin.ofNat 3 (lane + 1))).highBit) ∧
    (low1.getLsbD lane = (Trit.ofDigit (Fin.ofNat 3 (lane / 3 + 1))).lowBit ∧
      high1.getLsbD lane = (Trit.ofDigit (Fin.ofNat 3 (lane / 3 + 1))).highBit) ∧
    (low2.getLsbD lane = (Trit.ofDigit (Fin.ofNat 3 (lane / 9 + 1))).lowBit ∧
      high2.getLsbD lane = (Trit.ofDigit (Fin.ofNat 3 (lane / 9 + 1))).highBit) ∧
    (low3.getLsbD lane = (Trit.ofDigit (Fin.ofNat 3 (lane / 27 + 1))).lowBit ∧
      high3.getLsbD lane = (Trit.ofDigit (Fin.ofNat 3 (lane / 27 + 1))).highBit) := by
  decide

theorem pattern_injective {left right : Nat} (hleft : left < 64) (hright : right < 64)
    (heq : pattern left = pattern right) : left = right := by
  simp only [pattern, List.cons.injEq, and_true, Fin.ofNat, Fin.mk.injEq] at heq
  omega

variable (mid : Spec.State)

def threadDigits : List (Digit 2) := Spec.window mid 166 27 incrN_inside

def candidate (lane : Nat) (thread counter : List (Digit 2)) : Spec.State :=
  Spec.overlay (Spec.overlay (Spec.overlay mid 162 (pattern lane)) 166 thread) 193 counter

def candidateAt (n k lane : Nat) : Spec.State :=
  candidate mid lane (tick^[n] (threadDigits mid)) (tick^[k] (Backend.startDigits mid))

theorem length_threadDigits : (threadDigits mid).length = 27 := Spec.length_window _ _ _ _

variable {mid}

theorem holds_patterns {lane : Nat} (hlane : lane < 64) {words : Words 64}
    (hwords : words.Holds lane mid) :
    ((((words.put 162 low0 high0).put 163 low1 high1).put 164 low2 high2).put 165 low3
      high3).Holds lane (Spec.overlay mid 162 (pattern lane)) := by
  have ⟨h0, h1, h2, h3⟩ := pattern_bits lane hlane
  have hput := (((hwords.put 162 h0.1 h0.2).put 163 h1.1 h1.2).put 164 h2.1 h2.2).put 165 h3.1 h3.2
  unfold pattern
  rw [Spec.overlay_cons _ (by decide), Spec.overlay_cons _ (by decide),
    Spec.overlay_cons _ (by decide), Spec.overlay_cons _ (by decide), Spec.overlay_nil]
  exact hput

theorem holds_incrN {base : Nat → Spec.State} {digits : List (Digit 2)}
    (hdigits : digits.length = 27) {words : Words 64}
    (hwords : ∀ lane < 64, words.Holds lane (Spec.overlay (base lane) 166 digits)) (n : Nat) :
    ∀ lane < 64, (incrN n words).Holds lane (Spec.overlay (base lane) 166 (tick^[n] digits)) := by
  induction n with
  | zero => exact hwords
  | succ n ih =>
      unfold incrN
      rw [Function.iterate_succ_apply', Function.iterate_succ_apply']
      exact (carryLoop_overlay (fun _ _ => rfl) (by rw [length_tick_iterate, hdigits]) (by decide)
        (fun _ _ => rfl) (fun _ _ => ⟨rfl, rfl⟩) ih).2

theorem holds_prepare (n : Nat) : ∀ lane < 64, (prepare (embed mid) n).Holds lane
    (Spec.overlay (Spec.overlay mid 162 (pattern lane)) 166 (tick^[n] (threadDigits mid))) := by
  unfold prepare
  apply holds_incrN (length_threadDigits mid)
  intro lane hlane
  have hwindow : threadDigits mid =
      Spec.window (Spec.overlay mid 162 (pattern lane)) 166 27 incrN_inside := by
    apply Spec.window_congr
    intro p hp _
    rw [Spec.getElem_overlay_of_outside]
    exact Or.inr hp
  rw [hwindow, Spec.overlay_window]
  exact holds_patterns hlane (paraWith_embed hlane mid)

theorem holds_counterAt_of_prepare {w : Nat} {backend : Backend w} (hlawful : backend.Lawful)
    {serial : Nat → Nat} {thread : Nat → List (Digit 2)} {n : Nat}
    (hthread : ∀ lane, (thread lane).length = 27)
    (hprepare : ∀ lane < w, (backend.prepare (embed mid) n).Holds lane
      (Spec.overlay (Spec.overlay mid 162 (pattern (serial lane))) 166 (thread lane))) (k : Nat) :
    ∀ lane < w, (backend.counterAt (embed mid) n k).Holds lane
      (candidate mid (serial lane) (thread lane) (tick^[k] (Backend.startDigits mid))) := by
  induction k with
  | zero =>
      intro lane hlane
      have hwindow : Backend.startDigits mid =
          Spec.window (Spec.overlay (Spec.overlay mid 162 (pattern (serial lane))) 166
            (thread lane)) 193 50 incr_inside := by
        apply Spec.window_congr
        intro p hp _
        rw [Spec.getElem_overlay_of_outside, Spec.getElem_overlay_of_outside]
        · right
          change 162 + 4 ≤ p.val
          omega
        · right
          rw [hthread]
          exact hp
      unfold candidate
      rw [Function.iterate_zero_apply, hwindow, Spec.overlay_window]
      exact hprepare lane hlane
  | succ k ih =>
      rw [Backend.counterAt_succ, Function.iterate_succ_apply']
      exact (hlawful.incr_spec _ _ _ (by simp) ih).2

/-- After `k` increments every lane of thread `n` holds its candidate. -/
theorem holds_counterAt (n k : Nat) : ∀ lane < 64, (backend.counterAt (embed mid) n k).Holds lane
    (candidateAt mid n k lane) := by
  have hlength : (tick^[n] (threadDigits mid)).length = 27 := by
    rw [length_tick_iterate, length_threadDigits]
  exact holds_counterAt_of_prepare lawful (fun _ => hlength) (holds_prepare n) k

end lanes

section disjoint

def testedNonce (mid : Spec.State) (n k lane : Nat) : Vector (Option Trit) 81 :=
  Vector.ofFn fun j => (backend.counterAt (embed mid) n k).trit? lane ⟨162 + j.val, nonce_inside j⟩

/-- Thread `n` gets to its iteration `k`: none of the first `k` calls of `incr`
reports the end. -/
def Executes (mid : Spec.State) (n k : Nat) : Prop :=
  0 < k ∧ ∀ j < k, (backend.incr (backend.counterAt (embed mid) n j)).1 = false

theorem executes_iff (mid : Spec.State) (n k : Nat) :
    Executes mid n k ↔ 0 < k ∧ k ≤ Backend.batches mid := by
  constructor
  · intro ⟨hpos, hgoes⟩
    refine ⟨hpos, ?_⟩
    by_contra hlt
    have hend := hgoes (Backend.batches mid) (by omega)
    rw [Backend.incr_counterAt_batches lawful] at hend
    cases hend
  · intro ⟨hpos, hle⟩
    refine ⟨hpos, ?_⟩
    intro j hj
    exact Backend.incr_counterAt_of_lt lawful mid n (by omega)

theorem getElem_candidate_of_lt (mid : Spec.State) (lane : Nat) (thread counter : List (Digit 2))
    {p : Fin 729} (hp : p.val < 193) :
    (candidate mid lane thread counter)[p] =
      (Spec.overlay (Spec.overlay mid 162 (pattern lane)) 166 thread)[p] :=
  Spec.getElem_overlay_of_outside _ (Or.inl hp)

theorem getElem_candidate_of_lt_thread (mid : Spec.State) (lane : Nat)
    (thread counter : List (Digit 2)) {p : Fin 729} (hp : p.val < 166) :
    (candidate mid lane thread counter)[p] = (Spec.overlay mid 162 (pattern lane))[p] := by
  rw [getElem_candidate_of_lt _ _ _ _ (by omega)]
  exact Spec.getElem_overlay_of_outside _ (Or.inl hp)

theorem candidate_digits_inj {mid : Spec.State} {lane lane' : Nat}
    {thread thread' counter counter' : List (Digit 2)}
    (hthread : thread.length = 27) (hthread' : thread'.length = 27)
    (hcounter : counter.length = 50) (hcounter' : counter'.length = 50)
    (heq : ∀ p : Fin 729, 162 ≤ p.val → p.val < 243 →
      (candidate mid lane thread counter)[p] = (candidate mid lane' thread' counter')[p]) :
    pattern lane = pattern lane' ∧ thread = thread' ∧ counter = counter' := by
  have hpattern : ∀ lane, (pattern lane).length = 4 := fun _ => rfl
  have hlanes : pattern lane = pattern lane' := by
    refine Spec.overlay_inj mid mid 162 ?_ rfl ?_
    · rw [hpattern]
      omega
    · intro p hp hp'
      rw [hpattern] at hp'
      rw [← getElem_candidate_of_lt_thread mid lane thread counter (by omega),
        ← getElem_candidate_of_lt_thread mid lane' thread' counter' (by omega)]
      exact heq p hp (by omega)
  have hthreads : thread = thread' := by
    refine Spec.overlay_inj (Spec.overlay mid 162 (pattern lane))
      (Spec.overlay mid 162 (pattern lane')) 166 (by omega) (by omega) ?_
    intro p hp hp'
    rw [← getElem_candidate_of_lt mid lane thread counter (by omega),
      ← getElem_candidate_of_lt mid lane' thread' counter' (by omega)]
    exact heq p (by omega) (by omega)
  have hcounters : counter = counter' := by
    refine Spec.overlay_inj (Spec.overlay (Spec.overlay mid 162 (pattern lane)) 166 thread)
      (Spec.overlay (Spec.overlay mid 162 (pattern lane')) 166 thread') 193 (by omega)
      (by omega) ?_
    intro p hp hp'
    exact heq p (by omega) (by omega)
  exact ⟨hlanes, hthreads, hcounters⟩

theorem candidate_inj {mid : Spec.State} {lane lane' : Nat}
    {thread thread' counter counter' : List (Digit 2)} (hlane : lane < 64) (hlane' : lane' < 64)
    (hthread : thread.length = 27) (hthread' : thread'.length = 27)
    (hcounter : counter.length = 50) (hcounter' : counter'.length = 50)
    (heq : ∀ p : Fin 729, 162 ≤ p.val → p.val < 243 →
      (candidate mid lane thread counter)[p] = (candidate mid lane' thread' counter')[p]) :
    lane = lane' ∧ thread = thread' ∧ counter = counter' := by
  have ⟨hlanes, hthreads, hcounters⟩ :=
    candidate_digits_inj hthread hthread' hcounter hcounter' heq
  exact ⟨pattern_injective hlane hlane' hlanes, hthreads, hcounters⟩

theorem getElem_candidateAt_of_testedNonce {mid : Spec.State} {n k lane n' k' lane' : Nat}
    (hlane : lane < 64) (hlane' : lane' < 64)
    (heq : testedNonce mid n k lane = testedNonce mid n' k' lane') :
    ∀ p : Fin 729, 162 ≤ p.val → p.val < 243 →
      (candidateAt mid n k lane)[p] = (candidateAt mid n' k' lane')[p] := by
  intro p hp hp'
  have ⟨j, hj⟩ : ∃ j : Fin 81, (⟨162 + j.val, nonce_inside j⟩ : Fin 729) = p :=
    ⟨⟨p.val - 162, by omega⟩, Fin.ext (by dsimp only; omega)⟩
  have hget := congrArg (fun nonce : Vector (Option Trit) 81 => nonce[j]) heq
  simp only [testedNonce, Library.getElem_fin, Vector.getElem_ofFn, hj] at hget
  rw [holds_counterAt n k lane hlane p, holds_counterAt n' k' lane' hlane' p] at hget
  exact Option.some.inj hget

/-- Different iterations of the threads, and different lanes of one iteration,
test different nonces. -/
theorem testedNonce_ne (mid : Spec.State) {n k lane n' k' lane' : Nat}
    (hn : n < 3 ^ 27) (hn' : n' < 3 ^ 27) (hlane : lane < 64) (hlane' : lane' < 64)
    (hk : Executes mid n k) (hk' : Executes mid n' k') (hne : (n, k, lane) ≠ (n', k', lane')) :
    testedNonce mid n k lane ≠ testedNonce mid n' k' lane' := by
  intro heq
  have hsame := getElem_candidateAt_of_testedNonce hlane hlane' heq
  have ⟨hlanes, hthreads, hcounters⟩ := candidate_inj hlane hlane'
    (by rw [length_tick_iterate, length_threadDigits])
    (by rw [length_tick_iterate, length_threadDigits]) (by simp) (by simp) hsame
  have hns : n = n' := by
    apply tick_iterate_injective (threadDigits mid) _ _ hthreads
    · rw [length_threadDigits]
      exact hn
    · rw [length_threadDigits]
      exact hn'
  have hks : k = k' := by
    have hbatches : Backend.batches mid < 3 ^ 49 := headroom_lt 49 (Backend.startDigits mid)
    have hk := (executes_iff mid n k).mp hk
    have hk' := (executes_iff mid n' k').mp hk'
    have hpow : (3 : Nat) ^ 49 ≤ (2 + 1) ^ 50 := Nat.pow_le_pow_right (by decide) (by decide)
    apply tick_iterate_injective (Backend.startDigits mid) _ _ hcounters
    · rw [Backend.length_startDigits]
      omega
    · rw [Backend.length_startDigits]
      omega
  exact hne (by rw [hns, hks, hlanes])

def lowest : Spec.State := Vector.replicate 729 .neg

theorem one_le_batches_lowest : 1 ≤ Backend.batches lowest := by
  have hstart : Backend.startDigits lowest = List.replicate 50 0 := by decide
  by_contra hnot
  have hvisits := visitsLast_headroom (Backend.length_startDigits lowest)
  rw [Backend.batches] at hnot
  rw [show headroom 49 (Backend.startDigits lowest) = 0 by omega, hstart] at hvisits
  revert hvisits
  decide

theorem executes_lowest (n : Nat) : Executes lowest n 1 := by
  rw [executes_iff]
  exact ⟨by decide, one_le_batches_lowest⟩

theorem testedNonce_ne_lowest : testedNonce lowest 0 1 0 ≠ testedNonce lowest 1 1 0 :=
  testedNonce_ne lowest (by decide) (by decide) (by decide) (by decide) (executes_lowest 0)
    (executes_lowest 1) (by decide)

end disjoint

section complete

/-- The hash of a candidate ends in `m` zeros, for the lane and the counter
digits given; the other nonce trits are those of thread `n`. -/
def Passes (mid : Spec.State) (n m lane : Nat) (counter : List (Digit 2)) : Prop :=
  Spec.HasWeight m (Spec.curl (candidate mid lane (tick^[n] (threadDigits mid)) counter))

def NonePasses (mid : Spec.State) (n m : Nat) : Prop :=
  ∀ lane < 64, ∀ counter : List (Digit 2), counter.length = 50 → ¬Passes mid n m lane counter

/-- Some candidate passes whose counter is above the starting one and has the
same last trit. -/
def SomeAheadPasses (mid : Spec.State) (n m : Nat) : Prop :=
  ∃ lane < 64, ∃ counter : List (Digit 2), counter.length = 50 ∧ Passes mid n m lane counter ∧
    value (Backend.startDigits mid) < value counter ∧
    value counter / 3 ^ 49 = value (Backend.startDigits mid) / 3 ^ 49

variable (mid : Spec.State) (n m : Nat)

theorem tryBatch_counterAt_iff (k : Nat) :
    0 ≤ backend.tryBatch (backend.counterAt (embed mid) n k) m ↔
      ∃ lane < 64, Passes mid n m lane (tick^[k] (Backend.startDigits mid)) := by
  constructor
  · intro h
    have ⟨hlane, hweight⟩ := lawful.tryBatch_spec _ _ m (holds_counterAt n k) h
    exact ⟨_, hlane, hweight⟩
  · intro ⟨lane, hlane, hpasses⟩
    have hdead : ∀ probe : BitVec 64, (probe == 0) = true → probe = 0#64 := fun _ => beq_iff_eq.mp
    exact Backend.checkWith_transformWords_complete gate64_lawful _ _ (holds_counterAt n k) rfl m
      rfl hdead hlane hpasses

theorem succeedsAlone_iff_someAheadPasses :
    backend.SucceedsAlone mid m n ↔ SomeAheadPasses mid n m := by
  have hlength := Backend.length_startDigits mid
  rw [Backend.succeedsAlone_iff faithful]
  constructor
  · intro ⟨k, hpos, hk, hhit⟩
    have ⟨lane, hlane, hpasses⟩ := (tryBatch_counterAt_iff mid n m k).mp hhit
    have ⟨hlt, hlast⟩ := (exists_tick_iterate_iff hlength (tick^[k] (Backend.startDigits mid))
      (by simp)).mp ⟨k, hpos, hk, rfl⟩
    exact ⟨lane, hlane, _, by simp, hpasses, hlt, hlast⟩
  · intro ⟨lane, hlane, counter, hcounter, hpasses, hlt, hlast⟩
    have ⟨k, hpos, hk, heq⟩ :=
      (exists_tick_iterate_iff hlength counter hcounter).mpr ⟨hlt, hlast⟩
    exact ⟨k, hpos, hk, (tryBatch_counterAt_iff mid n m k).mpr ⟨lane, hlane, heq ▸ hpasses⟩⟩

/-- `pwork` comes to its end and returns a negative value exactly when no
candidate ahead of its start passes. -/
theorem pwork_returns (nonce : Vector Int8 81) : ∃ ret nonce',
    (∀ fuel, 2 * Backend.batches mid + 2 ≤ fuel →
      pwork fuel (embed mid) m nonce n = some (ret, nonce')) ∧
    (ret < 0 ↔ ¬SomeAheadPasses mid n m) := by
  have hfollows : backend.Follows mid m n (.test (prepare (embed mid) n) 0 nonce) false := by
    refine ⟨rfl, Nat.zero_le _, ?_⟩
    intro k hpos hk
    omega
  have ⟨ret, nonce', hreturns, halone⟩ :=
    Backend.alone_returns lawful hfollows (fun _ _ _ => by simp)
  refine ⟨ret, nonce', ?_, ?_⟩
  · intro fuel hfuel
    apply halone
    rw [Backend.rank, Nat.sub_zero]
    exact hfuel
  · rw [← succeedsAlone_iff_someAheadPasses]
    constructor
    · intro hneg hsucceeds
      have hret := hsucceeds.returns hreturns
      omega
    · intro hfails
      by_contra hret
      exact hfails (hreturns.succeedsAlone (by omega))

/-- `incr` reports the end only after every counter value has been examined. -/
def ExaminesAll (mid : Spec.State) (n : Nat) : Prop :=
  ∀ k, (backend.incr (backend.counterAt (embed mid) n k)).1 = true →
    ∀ counter : List (Digit 2), counter.length = 50 →
      ∃ j, 0 < j ∧ j ≤ k ∧ tick^[j] (Backend.startDigits mid) = counter

theorem not_examinesAll : ¬ExaminesAll mid n := by
  intro hall
  have ⟨j, hpos, hj, heq⟩ := hall (Backend.batches mid)
    (Backend.incr_counterAt_batches lawful mid n) (Backend.startDigits mid)
    (Backend.length_startDigits mid)
  have hbatches : Backend.batches mid < 3 ^ 49 := headroom_lt 49 (Backend.startDigits mid)
  have hpow : (3 : Nat) ^ 49 ≤ (2 + 1) ^ 50 := Nat.pow_le_pow_right (by decide) (by decide)
  have hzero : j = 0 := by
    apply tick_iterate_injective (Backend.startDigits mid) _ _ heq
    · rw [Backend.length_startDigits]
      omega
    · rw [Backend.length_startDigits]
      omega
  omega

/-- The search of a thread is complete for the candidates ahead of its start
that share the last counter trit, and for no others. -/
theorem pwork_complete_iff (nonce : Vector Int8 81) : ∃ ret nonce',
    (∀ fuel, 2 * Backend.batches mid + 2 ≤ fuel →
      pwork fuel (embed mid) m nonce n = some (ret, nonce')) ∧
    ((ret < 0 → NonePasses mid n m) ↔ SomeAheadPasses mid n m ∨ NonePasses mid n m) ∧
    ¬ExaminesAll mid n := by
  have ⟨ret, nonce', hpwork, hret⟩ := pwork_returns mid n m nonce
  refine ⟨ret, nonce', hpwork, ?_, not_examinesAll mid n⟩
  rw [hret]
  exact or_iff_not_imp_left.symm

def almostZero : Spec.State := (Vector.replicate 729 .zero).set 193 .neg

theorem tick_startDigits_almostZero :
    tick (Backend.startDigits almostZero) = List.replicate 50 (Trit.digit .zero) := by
  decide +kernel

/-- One increment leads to the state of trits 0, whose hash has every weight. -/
theorem candidate_almostZero : candidate almostZero 0 (List.replicate 27 (Trit.digit .zero))
    (tick (Backend.startDigits almostZero)) = Vector.replicate 729 .zero := by
  have hpattern : pattern 0 = List.replicate 4 (Trit.digit .zero) := by decide
  have hrest : ∀ p : Fin 729, p.val ≠ 193 → almostZero[p] = .zero := by
    intro p hne
    simp [almostZero, hne.symm]
  have hzero : ∀ p : Fin 729, (candidate almostZero 0 (List.replicate 27 (Trit.digit .zero))
      (List.replicate 50 (Trit.digit .zero)))[p] = .zero := by
    intro p
    rw [candidate, hpattern, Spec.getElem_overlay_replicate, Spec.getElem_overlay_replicate,
      Spec.getElem_overlay_replicate]
    split
    · rfl
    · rw [hrest p (by omega), ite_self, ite_self]
  rw [tick_startDigits_almostZero]
  ext i hi
  rw [Vector.getElem_replicate]
  exact hzero ⟨i, hi⟩

theorem one_le_batches_almostZero : 1 ≤ Backend.batches almostZero := by
  have hvisits := visitsLast_headroom (Backend.length_startDigits almostZero)
  by_contra hnot
  rw [Backend.batches] at hnot
  rw [show headroom 49 (Backend.startDigits almostZero) = 0 by omega] at hvisits
  revert hvisits
  decide +kernel

theorem tryBatch_almostZero (m : Nat) :
    0 ≤ backend.tryBatch (backend.counterAt (embed almostZero) 0 1) m := by
  have hthread : threadDigits almostZero = List.replicate 27 (Trit.digit .zero) := by
    decide +kernel
  refine (tryBatch_counterAt_iff almostZero 0 m 1).mpr ⟨0, by decide, ?_⟩
  unfold Passes
  rw [Function.iterate_zero_apply, Function.iterate_one, hthread, candidate_almostZero]
  exact Spec.hasWeight_curl_zero m

def highest : Spec.State := Vector.replicate 729 .pos

/-- With weight 0 every candidate passes, but a thread that starts from trits 1
returns -1 at once. -/
theorem pwork_incomplete_highest :
    pwork 1 (embed highest) 0 (Vector.replicate 81 0) 0 = some (-1, Vector.replicate 81 0) ∧
      ¬NonePasses highest 0 0 ∧ ¬ExaminesAll highest 0 := by
  have hstart : Backend.startDigits highest = List.replicate 50 2 := by decide
  have hend : (backend.incr (prepare (embed highest) 0)).1 = true := by
    have hcounter := Backend.incr_counterAt lawful highest 0 0
    rw [Function.iterate_zero_apply, hstart] at hcounter
    exact hcounter.trans (by decide)
  refine ⟨?_, ?_, not_examinesAll highest 0⟩
  · have hstep := Backend.workCb_test_of_exhausted 0 0 0 (Vector.replicate 81 0) false hend
    rw [pwork, Backend.alone, hstep, Option.bind_some]
    · rfl
    · simp
  · intro hnone
    refine hnone 0 (by decide) (List.replicate 50 0) (by simp) ?_
    intro i hi hi'
    omega

end complete

end PowC

end Dcurl
