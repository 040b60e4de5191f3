import Dcurl.Library.Columns
import Dcurl.SearchSpace
import Dcurl.PowSse
import Dcurl.PowAvx

/-! What the worker threads of `pow_sse` and of the AVX2 build of `pow_avx`
examine. Their `incr_n` starts at trits in which the lanes differ, and the lanes
of element 0 carry for all of them. -/
namespace Dcurl

open Library Odometer

variable {w : Nat}

namespace Backend

def laneNonce (backend : Backend w) (mid : Spec.State) (n k lane : Nat) :
    Vector (Option Trit) 81 :=
  Vector.ofFn fun j => (backend.counterAt (embed mid) n k).trit? lane ⟨162 + j.val, nonce_inside j⟩

def Executes (backend : Backend w) (mid : Spec.State) (n k : Nat) : Prop :=
  0 < k ∧ ∀ j < k, (backend.incr (backend.counterAt (embed mid) n j)).1 = false

theorem le_batches_of_executes {backend : Backend w} (hlawful : backend.Lawful)
    {mid : Spec.State} {n k : Nat} (h : backend.Executes mid n k) : k ≤ batches mid := by
  by_contra hlt
  have hend := h.2 (batches mid) (by omega)
  rw [incr_counterAt_batches hlawful] at hend
  cases hend

end Backend

section carry

def leads : List Nat := List.range 64

theorem element_zero_ne_iff (word : BitVec w) :
    (element word 0 != 0) = true ↔ ∃ lane ∈ leads, word.getLsbD lane = true := by
  rw [bne_iff_ne]
  constructor
  · intro hne
    by_contra hnone
    apply hne
    apply BitVec.eq_of_getLsbD_eq
    intro lane hlane
    rw [getLsbD_element, BitVec.ofNat_eq_ofNat, BitVec.getLsbD_zero, Nat.mul_zero, Nat.zero_add,
      decide_eq_true hlane, Bool.true_and]
    apply Bool.eq_false_iff.mpr
    intro hbit
    exact hnone ⟨lane, List.mem_range.mpr hlane, hbit⟩
  · intro ⟨lane, hlane, hbit⟩ hzero
    have hget : (element word 0).getLsbD lane = true := by
      rw [getLsbD_element, decide_eq_true (List.mem_range.mp hlane), Bool.true_and, Nat.mul_zero,
        Nat.zero_add, hbit]
    rw [hzero] at hget
    simp at hget

variable {carryOf : BitVec w → BitVec w → BitVec w}

theorem carry_eq_full (hcarryOf : ∀ low high, carryOf low high = high &&& ~~~low) (hw : 64 ≤ w)
    {mid : Words w} {i : Fin 729} {column : Columns.Column 2}
    (hcolumn : ∀ lane < w, mid.trit? lane i = some (Trit.ofDigit (column lane))) :
    (element (carryOf mid.low[i] mid.high[i]) 0 != 0) = Columns.full leads column := by
  rw [Bool.eq_iff_iff, element_zero_ne_iff, Columns.full, List.any_eq_true]
  apply exists_congr
  intro lane
  apply and_congr_right
  intro hlane
  have hlt : lane < w := (List.mem_range.mp hlane).trans_le hw
  obtain ⟨hlow, hhigh⟩ := Words.trit?_eq_some_iff.mp (hcolumn lane hlt)
  rw [hcarryOf, BitVec.getLsbD_and, BitVec.getLsbD_not, hlow, hhigh, decide_eq_true hlt]
  generalize column lane = digit
  revert digit
  decide

theorem carryLoop_columns (hcarryOf : ∀ low high, carryOf low high = high &&& ~~~low)
    (hw : 64 ≤ w) {columns : List (Columns.Column 2)} {start len : Nat}
    (hcolumns : columns.length = len) (hlen : start + len ≤ 729) {carry : BitVec w}
    (hcarry : (element carry 0 != 0) = true) {mid : Words w} {base : Nat → Spec.State}
    (hmid : ∀ lane < w, mid.Holds lane
      (Spec.overlay (base lane) start (Columns.digitsOf columns lane))) :
    ∀ lane < w, (carryLoop (fun _ carry => element carry 0 != 0) carryOf
      (positions start len hlen) carry mid).2.Holds lane
        (Spec.overlay (base lane) start (Columns.digitsOf (Columns.tick leads columns) lane)) := by
  subst hcolumns
  induction columns generalizing start carry mid base with
  | nil => exact hmid
  | cons column rest ih =>
      have hstart : start < 729 := by
        rw [List.length_cons] at hlen
        omega
      simp only [Columns.digitsOf_cons] at hmid
      have hcolumn : ∀ lane < w,
          mid.trit? lane ⟨start, hstart⟩ = some (Trit.ofDigit (column lane)) := by
        intro lane hlane
        rw [hmid lane hlane, Spec.getElem_overlay_head]
      have hadvance : ∀ lane < w, (mid.advance ⟨start, hstart⟩).Holds lane
          (Spec.overlay (base lane) start ((column lane + 1) :: Columns.digitsOf rest lane)) := by
        intro lane hlane
        have hstep := (hmid lane hlane).advance ⟨start, hstart⟩
        rw [Spec.getElem_overlay_head, Trit.next_ofDigit] at hstep
        rw [← Spec.set_overlay_cons _ hstart (column lane)]
        exact hstep
      simp only [List.length_cons, positions, carryLoop, hcarry, if_true, Columns.tick,
        Columns.digitsOf_cons]
      have hfull := carry_eq_full hcarryOf hw hcolumn
      cases hlead : Columns.full leads column with
      | true =>
          -- A leading lane wraps, so every lane goes on to the next trit.
          have hcarried : ∀ lane < w, (mid.advance ⟨start, hstart⟩).Holds lane
              (Spec.overlay ((base lane).set start (Trit.ofDigit (column lane + 1))) (start + 1)
                (Columns.digitsOf rest lane)) := by
            intro lane hlane
            rw [← Spec.overlay_cons _ hstart]
            exact hadvance lane hlane
          have hrest := ih (hfull.trans hlead) hcarried (by rw [List.length_cons] at hlen; omega)
          intro lane hlane
          rw [if_pos rfl, Spec.overlay_cons _ hstart]
          exact hrest lane hlane
      | false =>
          have hstop : (carryLoop (fun _ carry => element carry 0 != 0) carryOf
              (positions (start + 1) rest.length (by rw [List.length_cons] at hlen; omega))
              (carryOf mid.low[(⟨start, hstart⟩ : Fin 729)] mid.high[(⟨start, hstart⟩ : Fin 729)])
              (mid.advance ⟨start, hstart⟩)).2 = mid.advance ⟨start, hstart⟩ := by
            cases rest with
            | nil => rfl
            | cons next rest =>
                simp only [List.length_cons, positions, carryLoop, hfull, hlead,
                  Bool.false_eq_true, if_false]
          intro lane hlane
          rw [hstop, if_neg Bool.false_ne_true]
          exact hadvance lane hlane

theorem carryLoop_columns_iterate (hcarryOf : ∀ low high, carryOf low high = high &&& ~~~low)
    (hw : 64 ≤ w) {columns : List (Columns.Column 2)} (hcolumns : columns.length = 27)
    {carry : BitVec w} (hcarry : (element carry 0 != 0) = true) {words : Words w}
    {base : Nat → Spec.State}
    (hwords : ∀ lane < w, words.Holds lane
      (Spec.overlay (base lane) 166 (Columns.digitsOf columns lane))) (n : Nat) :
    ∀ lane < w, ((fun words => (carryLoop (fun _ carry => element carry 0 != 0) carryOf
      (positions 166 27 incrN_inside) carry words).2)^[n] words).Holds lane
        (Spec.overlay (base lane) 166
          (Columns.digitsOf ((Columns.tick leads)^[n] columns) lane)) := by
  induction n with
  | zero => exact hwords
  | succ n ih =>
      rw [Function.iterate_succ_apply', Function.iterate_succ_apply']
      apply carryLoop_columns hcarryOf hw _ (by decide) hcarry ih
      rw [Columns.length_tick_iterate, hcolumns]

end carry

section spread

def serialDigit (q serial : Nat) : Digit 2 := Fin.ofNat 3 (serial / 3 ^ q + 1)

def Encodes (low high : BitVec w) (digit : Nat → Digit 2) : Prop :=
  ∀ lane < w, low.getLsbD lane = (Trit.ofDigit (digit lane)).lowBit ∧
    high.getLsbD lane = (Trit.ofDigit (digit lane)).highBit

instance (low high : BitVec w) (digit : Nat → Digit 2) : Decidable (Encodes low high digit) :=
  inferInstanceAs (Decidable (∀ lane < w, _))

/-- What `pwork` puts into the lanes: a lane has the pattern of its serial number at
trits 162 to 165, and its digits at 166 to 192 are in `columns`. -/
structure Spread (backend : Backend w) (serial : Nat → Nat)
    (columns : Spec.State → List (Columns.Column 2)) : Prop where
  length_columns : ∀ mid, (columns mid).length = 27
  prepare_holds : ∀ (mid : Spec.State) (n lane : Nat), lane < w →
    (backend.prepare (embed mid) n).Holds lane
      (Spec.overlay (Spec.overlay mid 162 (PowC.pattern (serial lane))) 166
        (Columns.digitsOf ((Columns.tick leads)^[n] (columns mid)) lane))

theorem Spread.holds_counterAt {backend : Backend w} {serial : Nat → Nat}
    {columns : Spec.State → List (Columns.Column 2)} (hspread : Spread backend serial columns)
    (hlawful : backend.Lawful) (mid : Spec.State) (n k : Nat) :
    ∀ lane < w, (backend.counterAt (embed mid) n k).Holds lane
      (PowC.candidate mid (serial lane)
        (Columns.digitsOf ((Columns.tick leads)^[n] (columns mid)) lane)
        (tick^[k] (Backend.startDigits mid))) := by
  refine PowC.holds_counterAt_of_prepare hlawful (fun lane => ?_)
    (fun lane hlane => hspread.prepare_holds mid n lane hlane) k
  rw [Columns.length_digitsOf, Columns.length_tick_iterate, hspread.length_columns]

theorem hasWeight_almostZero {serial lane : Nat} {columns : List (Columns.Column 2)}
    (hserial : serial = 0)
    (hcolumns : Columns.digitsOf columns lane = List.replicate 27 (Trit.digit .zero)) (m : Nat) :
    Spec.HasWeight m (Spec.curl (PowC.candidate PowC.almostZero serial
      (Columns.digitsOf ((Columns.tick leads)^[0] columns) lane)
      (tick^[1] (Backend.startDigits PowC.almostZero)))) := by
  rw [Function.iterate_zero_apply, Function.iterate_one, hserial, hcolumns,
    PowC.candidate_almostZero]
  exact Spec.hasWeight_curl_zero m

theorem pattern_eq (serial : Nat) : PowC.pattern serial =
    [serialDigit 0 serial, serialDigit 1 serial, serialDigit 2 serial, serialDigit 3 serial] := by
  simp [PowC.pattern, serialDigit]

theorem pattern_eq_iff (left right : Nat) :
    PowC.pattern left = PowC.pattern right ↔ left % 81 = right % 81 := by
  simp only [PowC.pattern, List.cons.injEq, and_true, Fin.ofNat, Fin.mk.injEq]
  omega

/-- Two lanes test the same nonce exactly when patterns, thread digits and counters
are the same. -/
theorem Spread.laneNonce_eq_iff {backend : Backend w} {serial : Nat → Nat}
    {columns : Spec.State → List (Columns.Column 2)} (hspread : Spread backend serial columns)
    (hlawful : backend.Lawful) (mid : Spec.State) {n k lane n' k' lane' : Nat} (hlane : lane < w)
    (hlane' : lane' < w) :
    backend.laneNonce mid n k lane = backend.laneNonce mid n' k' lane' ↔
      serial lane % 81 = serial lane' % 81 ∧
        Columns.digitsOf ((Columns.tick leads)^[n] (columns mid)) lane =
          Columns.digitsOf ((Columns.tick leads)^[n'] (columns mid)) lane' ∧
        tick^[k] (Backend.startDigits mid) = tick^[k'] (Backend.startDigits mid) := by
  have hlength : ∀ n lane,
      (Columns.digitsOf ((Columns.tick leads)^[n] (columns mid)) lane).length = 27 := by
    intro n lane
    rw [Columns.length_digitsOf, Columns.length_tick_iterate, hspread.length_columns]
  have hread : ∀ {n k lane} (_ : lane < w) (p : Fin 729),
      (backend.counterAt (embed mid) n k).trit? lane p =
        some (PowC.candidate mid (serial lane)
          (Columns.digitsOf ((Columns.tick leads)^[n] (columns mid)) lane)
          (tick^[k] (Backend.startDigits mid)))[p] := fun {n k lane} hlane p =>
    hspread.holds_counterAt hlawful mid n k lane hlane p
  rw [← pattern_eq_iff]
  constructor
  · intro heq
    apply PowC.candidate_digits_inj (hlength _ _) (hlength _ _) (by simp) (by simp)
    intro p hp hp'
    have ⟨j, hj⟩ : ∃ j : Fin 81, (⟨162 + j.val, nonce_inside j⟩ : Fin 729) = p :=
      ⟨⟨p.val - 162, by omega⟩, Fin.ext (by dsimp only; omega)⟩
    have hget := congrArg (fun nonce : Vector (Option Trit) 81 => nonce[j]) heq
    simp only [Backend.laneNonce, Library.getElem_fin, Vector.getElem_ofFn, hj] at hget
    rw [hread hlane p, hread hlane' p] at hget
    exact Option.some.inj hget
  · intro ⟨hpattern, hthread, hcounter⟩
    ext j hj
    simp only [Backend.laneNonce, Vector.getElem_ofFn]
    rw [hread hlane, hread hlane', hthread, hcounter]
    unfold PowC.candidate
    rw [hpattern]

variable {serial : Nat → Nat}

def serialColumn (serial : Nat → Nat) (q : Nat) : Columns.Column 2 :=
  fun lane => serialDigit q (serial lane)

theorem shift_serialColumn_eq_iff (q n lane n' lane' : Nat) :
    Columns.shift (serialColumn serial q) n lane = Columns.shift (serialColumn serial q) n' lane' ↔
      (serial lane / 3 ^ q + n) % 3 = (serial lane' / 3 ^ q + n') % 3 := by
  simp only [Columns.shift, serialColumn, serialDigit, Fin.ext_iff, Fin.val_add, Fin.ofNat]
  generalize serial lane / 3 ^ q = left
  generalize serial lane' / 3 ^ q = right
  omega

theorem digitsOf_iterate_shared (digits : List (Digit 2)) (n lane : Nat) :
    Columns.digitsOf ((Columns.tick leads)^[n] (Columns.shared digits)) lane =
      tick^[n] digits := by
  rw [Columns.tick_iterate_shared leads (by decide), Columns.digitsOf_shared]

theorem tick_iterate_eq_iff (digits : List (Digit 2)) {m n : Nat} (hm : m < 3 ^ digits.length)
    (hn : n < 3 ^ digits.length) : tick^[m] digits = tick^[n] digits ↔ m = n :=
  ⟨tick_iterate_injective digits hm hn, fun heq => by rw [heq]⟩

/-- Two of three increments are passed on, so that two numbers of increments can pass
on equally many. -/
theorem upper_eq_iff (n n' : Nat) : n - n / 3 = n' - n' / 3 ↔
    n = n' ∨ n % 3 = 2 ∧ n' = n + 1 ∨ n' % 3 = 2 ∧ n = n' + 1 := by
  omega

theorem tick_startDigits_eq_iff {backend : Backend w} (hlawful : backend.Lawful)
    {mid : Spec.State} {n k n' k' : Nat} (hk : backend.Executes mid n k)
    (hk' : backend.Executes mid n' k') :
    tick^[k] (Backend.startDigits mid) = tick^[k'] (Backend.startDigits mid) ↔ k = k' := by
  have hbatches : Backend.batches mid < 3 ^ 49 := headroom_lt 49 (Backend.startDigits mid)
  have hle := Backend.le_batches_of_executes hlawful hk
  have hle' := Backend.le_batches_of_executes hlawful hk'
  have hpow : (3 : Nat) ^ 49 ≤ 3 ^ 50 := Nat.pow_le_pow_right (by decide) (by decide)
  apply tick_iterate_eq_iff
  · rw [Backend.length_startDigits]
    omega
  · rw [Backend.length_startDigits]
    omega

end spread

namespace PowSse

/-- The element that comes first in `_mm_set_epi64x` has the first patterns. -/
def serial (lane : Nat) : Nat := 64 * (1 - lane / 64) + lane % 64

def columns (mid : Spec.State) : List (Columns.Column 2) :=
  serialColumn serial 4 :: Columns.shared (Spec.window mid 167 26 (by decide))

theorem constants : Encodes low0 high0 (serialColumn serial 0) ∧
    Encodes low1 high1 (serialColumn serial 1) ∧ Encodes low2 high2 (serialColumn serial 2) ∧
      Encodes low3 high3 (serialColumn serial 3) ∧
        Encodes low4 high4 (serialColumn serial 4) := by
  decide +kernel

/-- Trit 166 carries in two of three increments, since no leading lane starts at -1. -/
theorem carries_eq (n : Nat) : Columns.carries leads (serialColumn serial 4) n = n - n / 3 := by
  have hthree : Columns.carries leads (serialColumn serial 4) 3 = 2 := by decide +kernel
  have hrest : ∀ r < 3, Columns.carries leads (serialColumn serial 4) r = r := by decide +kernel
  rw [Columns.carries_eq, hthree, hrest _ (Nat.mod_lt _ (by decide))]
  omega

theorem spreads : Spread backend serial columns where
  length_columns _ := rfl
  prepare_holds mid n := by
    apply carryLoop_columns_iterate (fun _ _ => rfl) (by decide) rfl rfl
    intro lane hlane
    have hpara : (para128 (embed mid)).Holds lane mid := by
      unfold para128
      rw [hbits_eq, lbits_eq]
      exact paraWith_embed hlane mid
    have ⟨h0, h1, h2, h3, h4⟩ := constants
    have hput := ((((hpara.put 162 (h0 lane hlane).1 (h0 lane hlane).2).put 163
      (h1 lane hlane).1 (h1 lane hlane).2).put 164 (h2 lane hlane).1 (h2 lane hlane).2).put 165
        (h3 lane hlane).1 (h3 lane hlane).2).put 166 (h4 lane hlane).1 (h4 lane hlane).2
    have hwindow : Spec.window mid 167 26 (by decide) =
        Spec.window (Spec.overlay mid 162 (PowC.pattern (serial lane))) 167 26 (by decide) := by
      apply Spec.window_congr
      intro p hp _
      rw [Spec.getElem_overlay_of_outside]
      right
      change 162 + 4 ≤ p.val
      omega
    have hdigits : Columns.digitsOf (columns mid) lane =
        serialDigit 4 (serial lane) :: Spec.window mid 167 26 (by decide) := by
      rw [columns, Columns.digitsOf_cons, Columns.digitsOf_shared, serialColumn]
    rw [hdigits, hwindow, Spec.overlay_cons_window, pattern_eq, Spec.overlay_cons _ (by decide),
      Spec.overlay_cons _ (by decide), Spec.overlay_cons _ (by decide),
      Spec.overlay_cons _ (by decide), Spec.overlay_nil]
    exact hput

theorem tryBatch_almostZero (m : Nat) :
    0 ≤ backend.tryBatch (backend.counterAt (embed PowC.almostZero) 0 1) m := by
  have hcolumns : Columns.digitsOf (columns PowC.almostZero) 64 =
      List.replicate 27 (Trit.digit .zero) := by
    decide +kernel
  refine Backend.checkWith_transformWords_complete gate128_lawful _ _
    (spreads.holds_counterAt lawful PowC.almostZero 0 1) rfl m rfl ?_ (by decide : 64 < 128)
    (hasWeight_almostZero rfl hcolumns m)
  intro probe hdead
  rw [Bool.and_eq_true, beq_iff_eq, beq_iff_eq] at hdead
  refine eq_zero_of_elements (le_refl (64 * 2)) fun j hj => ?_
  interval_cases j
  · exact hdead.1
  · exact hdead.2

/-- Thread `n + 1` gets no carry from thread `n`, so that its lanes that started at 0
at trit 166 meet the lanes of thread `n` that started at 1. -/
def Overlaps (n lane n' lane' : Nat) : Prop :=
  n % 3 = 2 ∧ n' = n + 1 ∧ serial lane = serial lane' + 81

theorem laneNonce_eq_iff (mid : Spec.State) {n k lane n' k' lane' : Nat} (hn : n < 3 ^ 20)
    (hn' : n' < 3 ^ 20) (hlane : lane < 128) (hlane' : lane' < 128)
    (hk : backend.Executes mid n k) (hk' : backend.Executes mid n' k') :
    backend.laneNonce mid n k lane = backend.laneNonce mid n' k' lane' ↔
      k = k' ∧ (n = n' ∧ lane = lane' ∨ Overlaps n lane n' lane' ∨ Overlaps n' lane' n lane) := by
  have hlength : (Spec.window mid 167 26 (by decide)).length = 26 := Spec.length_window _ _ _ _
  have hpow : (3 : Nat) ^ 20 ≤ 3 ^ 26 := Nat.pow_le_pow_right (by decide) (by decide)
  have hserial : serial lane = serial lane' ↔ lane = lane' := by
    unfold serial
    omega
  have hlt : serial lane < 128 := by
    unfold serial
    omega
  have hlt' : serial lane' < 128 := by
    unfold serial
    omega
  rw [spreads.laneNonce_eq_iff lawful mid hlane hlane', tick_startDigits_eq_iff lawful hk hk',
    columns, Columns.tick_iterate_cons, Columns.tick_iterate_cons, Columns.digitsOf_cons,
    Columns.digitsOf_cons, digitsOf_iterate_shared, digitsOf_iterate_shared, List.cons.injEq,
    shift_serialColumn_eq_iff, carries_eq, carries_eq,
    tick_iterate_eq_iff _ (by rw [hlength]; omega) (by rw [hlength]; omega), upper_eq_iff,
    ← hserial, show (3 : Nat) ^ 4 = 81 from rfl]
  unfold Overlaps
  omega

end PowSse

namespace PowAvx

/-- The elements of `_mm256_set_epi64x` in the order of its arguments. -/
def serial (lane : Nat) : Nat := 64 * (3 - lane / 64) + lane % 64

def columns (mid : Spec.State) : List (Columns.Column 2) :=
  serialColumn serial 4 :: serialColumn serial 5 ::
    Columns.shared (Spec.window mid 168 25 (by decide))

theorem constants : Encodes low0 high0 (serialColumn serial 0) ∧
    Encodes low1 high1 (serialColumn serial 1) ∧ Encodes low2 high2 (serialColumn serial 2) ∧
      Encodes low3 high3 (serialColumn serial 3) ∧
        Encodes low4 high4 (serialColumn serial 4) ∧
          Encodes low5 high5 (serialColumn serial 5) := by
  decide +kernel

/-- The increments that trit 166 passes on, since no leading lane starts at 1. -/
def lower (n : Nat) : Nat := n - (n + 2) / 3

theorem carries_eq (n : Nat) : Columns.carries leads (serialColumn serial 4) n = lower n := by
  have hthree : Columns.carries leads (serialColumn serial 4) 3 = 2 := by decide +kernel
  have hrest : ∀ r < 3, Columns.carries leads (serialColumn serial 4) r = r - (r + 2) / 3 := by
    decide +kernel
  rw [Columns.carries_eq, hthree, hrest _ (Nat.mod_lt _ (by decide))]
  unfold lower
  omega

theorem carries_eq_next (n : Nat) :
    Columns.carries leads (serialColumn serial 5) n = n - n / 3 := by
  have hthree : Columns.carries leads (serialColumn serial 5) 3 = 2 := by decide +kernel
  have hrest : ∀ r < 3, Columns.carries leads (serialColumn serial 5) r = r := by decide +kernel
  rw [Columns.carries_eq, hthree, hrest _ (Nat.mod_lt _ (by decide))]
  omega

theorem spreads : Spread backend serial columns where
  length_columns _ := rfl
  prepare_holds mid n := by
    apply carryLoop_columns_iterate carryOf_eq (by decide) rfl rfl
    intro lane hlane
    have hpara : (para256 (embed mid)).Holds lane mid := by
      unfold para256
      rw [hbits_eq, lbits_eq]
      exact paraWith_embed hlane mid
    have ⟨h0, h1, h2, h3, h4, h5⟩ := constants
    have hput := (((((hpara.put 162 (h0 lane hlane).1 (h0 lane hlane).2).put 163
      (h1 lane hlane).1 (h1 lane hlane).2).put 164 (h2 lane hlane).1 (h2 lane hlane).2).put 165
        (h3 lane hlane).1 (h3 lane hlane).2).put 166 (h4 lane hlane).1 (h4 lane hlane).2).put 167
          (h5 lane hlane).1 (h5 lane hlane).2
    have hwindow : Spec.window mid 168 25 (by decide) =
        Spec.window ((Spec.overlay mid 162 (PowC.pattern (serial lane))).set 166
          (Trit.ofDigit (serialDigit 4 (serial lane)))) 168 25 (by decide) := by
      apply Spec.window_congr
      intro p hp _
      rw [Library.getElem_fin, Library.getElem_fin, Vector.getElem_set_ne _ _ (by omega)]
      symm
      apply Spec.getElem_overlay_of_outside
      right
      change 162 + 4 ≤ p.val
      omega
    have hdigits : Columns.digitsOf (columns mid) lane =
        serialDigit 4 (serial lane) :: serialDigit 5 (serial lane) ::
          Spec.window mid 168 25 (by decide) := by
      rw [columns, Columns.digitsOf_cons, Columns.digitsOf_cons, Columns.digitsOf_shared,
        serialColumn, serialColumn]
    rw [hdigits, hwindow, Spec.overlay_cons _ (by decide), Spec.overlay_cons_window, pattern_eq,
      Spec.overlay_cons _ (by decide), Spec.overlay_cons _ (by decide),
      Spec.overlay_cons _ (by decide), Spec.overlay_cons _ (by decide), Spec.overlay_nil]
    exact hput

theorem tryBatch_almostZero (m : Nat) :
    0 ≤ backend.tryBatch (backend.counterAt (embed PowC.almostZero) 0 1) m := by
  have hcolumns : Columns.digitsOf (columns PowC.almostZero) 192 =
      List.replicate 27 (Trit.digit .zero) := by
    decide +kernel
  refine Backend.checkWith_transformWords_complete gate256_lawful _ _
    (spreads.holds_counterAt lawful PowC.almostZero 0 1) rfl m rfl ?_ (by decide : 192 < 256)
    (hasWeight_almostZero rfl hcolumns m)
  intro probe hdead
  simp only [Bool.and_eq_true, beq_iff_eq] at hdead
  refine eq_zero_of_elements (le_refl (64 * 4)) fun j hj => ?_
  interval_cases j
  · exact hdead.1.1.1
  · exact hdead.1.1.2
  · exact hdead.1.2
  · exact hdead.2

section overlap

/-- Thread `n'` comes next after thread `n` as far as trit 168 is concerned: trit 167
passes nothing on between them. -/
def Late (n n' : Nat) : Prop :=
  n % 9 = 3 ∧ n' = n + 2 ∨ n % 9 = 4 ∧ n' = n + 1 ∨ n % 9 = 8 ∧ (n' = n + 1 ∨ n' = n + 2)

/-- Lanes of two threads that hold the same trits. Within the first 243 patterns
trit 166 has all three values, and its increments only exchange the lanes. -/
def Overlaps (n lane n' lane' : Nat) : Prop :=
  n % 3 = 0 ∧ n' = n + 1 ∧ serial lane < 243 ∧ serial lane' < 243 ∧
      (serial lane' + 81) % 243 = serial lane ∨
    Late n n' ∧ 243 ≤ serial lane ∧ serial lane' + 81 * (n' - n) = serial lane

theorem lower_eq_iff (n n' : Nat) : lower n = lower n' ↔
    n = n' ∨ n % 3 = 0 ∧ n' = n + 1 ∨ n' % 3 = 0 ∧ n = n' + 1 := by
  unfold lower
  omega

theorem late_iff (n n' : Nat) :
    lower n % 3 = 2 ∧ lower n' = lower n + 1 ↔ Late n n' := by
  have ⟨q, r, hr, hn⟩ : ∃ q r, r < 9 ∧ n = 9 * q + r :=
    ⟨n / 9, n % 9, Nat.mod_lt _ (by decide), (Nat.div_add_mod n 9).symm⟩
  unfold Late lower
  constructor
  · intro ⟨hlast, hnext⟩
    have hnear : n' = n + 1 ∨ n' = n + 2 := by omega
    subst hn
    cases hnear with
    | inl heq =>
        subst heq
        interval_cases r <;> omega
    | inr heq =>
        subst heq
        interval_cases r <;> omega
  · omega

def SameDigits (s n s' n' : Nat) : Prop :=
  s % 81 = s' % 81 ∧ (s / 81 + n) % 3 = (s' / 81 + n') % 3 ∧
    (s / 243 + lower n) % 3 = (s' / 243 + lower n') % 3

variable {s s' n n' : Nat}

theorem SameDigits.symm (h : SameDigits s n s' n') : SameDigits s' n' s n :=
  ⟨h.1.symm, h.2.1.symm, h.2.2.symm⟩

theorem sameDigits_self_iff (hs : s < 256) (hs' : s' < 256) : SameDigits s n s' n ↔ s = s' := by
  unfold SameDigits
  generalize lower n = f
  omega

theorem sameDigits_next_iff (hs : s < 256) (hs' : s' < 256) (h : n % 3 = 0 ∧ n' = n + 1) :
    SameDigits s n s' n' ↔ s < 243 ∧ s' < 243 ∧ (s' + 81) % 243 = s := by
  unfold SameDigits lower
  rw [h.2]
  omega

theorem sameDigits_late_iff (hs : s < 256) (hs' : s' < 256) (h : Late n n') :
    SameDigits s n s' n' ↔ 243 ≤ s ∧ s' + 81 * (n' - n) = s := by
  have hlower := (late_iff n n').mpr h
  have hnear : n' = n + 1 ∨ n' = n + 2 := by
    unfold Late at h
    omega
  have hbound : s / 243 < 2 ∧ s' / 243 < 2 := by omega
  have htop : (s / 243 + lower n) % 3 = (s' / 243 + lower n') % 3 ↔
      s / 243 = 1 ∧ s' / 243 = 0 := by
    rw [hlower.2]
    generalize lower n = f at *
    generalize s / 243 = top at *
    generalize s' / 243 = top' at *
    omega
  unfold SameDigits
  rw [htop]
  clear htop hlower
  cases hnear with
  | inl heq =>
      rw [heq]
      omega
  | inr heq =>
      rw [heq]
      omega

theorem overlap_iff {lane lane' : Nat} (hlane : lane < 256) (hlane' : lane' < 256) :
    SameDigits (serial lane) n (serial lane') n' ∧ lower n - lower n / 3 = lower n' - lower n' / 3 ↔
      n = n' ∧ lane = lane' ∨ Overlaps n lane n' lane' ∨ Overlaps n' lane' n lane := by
  have hserial : serial lane = serial lane' ↔ lane = lane' := by
    unfold serial
    omega
  have hs : serial lane < 256 := by
    unfold serial
    omega
  have hs' : serial lane' < 256 := by
    unfold serial
    omega
  rw [upper_eq_iff, lower_eq_iff, late_iff, late_iff]
  unfold Overlaps
  constructor
  · intro ⟨hsame, hcase⟩
    rcases hcase with (heq | hnext | hnext) | hlate | hlate
    · subst heq
      exact Or.inl ⟨rfl, hserial.mp ((sameDigits_self_iff hs hs').mp hsame)⟩
    · exact Or.inr (Or.inl (Or.inl ⟨hnext.1, hnext.2, (sameDigits_next_iff hs hs' hnext).mp hsame⟩))
    · exact Or.inr (Or.inr (Or.inl ⟨hnext.1, hnext.2,
        (sameDigits_next_iff hs' hs hnext).mp hsame.symm⟩))
    · exact Or.inr (Or.inl (Or.inr ⟨hlate, (sameDigits_late_iff hs hs' hlate).mp hsame⟩))
    · exact Or.inr (Or.inr (Or.inr ⟨hlate, (sameDigits_late_iff hs' hs hlate).mp hsame.symm⟩))
  · intro hcase
    rcases hcase with ⟨heq, hlanes⟩ | (h | h) | h | h
    · subst heq hlanes
      exact ⟨(sameDigits_self_iff hs hs').mpr rfl, Or.inl (Or.inl rfl)⟩
    · have hnext : n % 3 = 0 ∧ n' = n + 1 := ⟨h.1, h.2.1⟩
      exact ⟨(sameDigits_next_iff hs hs' hnext).mpr h.2.2, Or.inl (Or.inr (Or.inl hnext))⟩
    · exact ⟨(sameDigits_late_iff hs hs' h.1).mpr h.2, Or.inr (Or.inl h.1)⟩
    · have hnext : n' % 3 = 0 ∧ n = n' + 1 := ⟨h.1, h.2.1⟩
      exact ⟨((sameDigits_next_iff hs' hs hnext).mpr h.2.2).symm, Or.inl (Or.inr (Or.inr hnext))⟩
    · exact ⟨((sameDigits_late_iff hs' hs h.1).mpr h.2).symm, Or.inr (Or.inr h.1)⟩

end overlap

theorem laneNonce_eq_iff (mid : Spec.State) {n k lane n' k' lane' : Nat} (hn : n < 3 ^ 20)
    (hn' : n' < 3 ^ 20) (hlane : lane < 256) (hlane' : lane' < 256)
    (hk : backend.Executes mid n k) (hk' : backend.Executes mid n' k') :
    backend.laneNonce mid n k lane = backend.laneNonce mid n' k' lane' ↔
      k = k' ∧ (n = n' ∧ lane = lane' ∨ Overlaps n lane n' lane' ∨ Overlaps n' lane' n lane) := by
  have hlength : (Spec.window mid 168 25 (by decide)).length = 25 := Spec.length_window _ _ _ _
  have hpow : (3 : Nat) ^ 20 ≤ 3 ^ 25 := Nat.pow_le_pow_right (by decide) (by decide)
  have hbound : ∀ n, lower n ≤ n := fun n => Nat.sub_le _ _
  have hle := hbound n
  have hle' := hbound n'
  rw [spreads.laneNonce_eq_iff lawful mid hlane hlane', tick_startDigits_eq_iff lawful hk hk',
    columns, Columns.tick_iterate_cons, Columns.tick_iterate_cons, Columns.tick_iterate_cons,
    Columns.tick_iterate_cons, Columns.digitsOf_cons, Columns.digitsOf_cons,
    Columns.digitsOf_cons, Columns.digitsOf_cons, digitsOf_iterate_shared,
    digitsOf_iterate_shared, List.cons.injEq, List.cons.injEq, shift_serialColumn_eq_iff,
    shift_serialColumn_eq_iff, carries_eq, carries_eq, carries_eq_next, carries_eq_next,
    tick_iterate_eq_iff _ (by rw [hlength]; omega) (by rw [hlength]; omega),
    ← overlap_iff hlane hlane']
  unfold SameDigits
  rw [show (3 : Nat) ^ 4 = 81 from rfl, show (3 : Nat) ^ 5 = 243 from rfl]
  tauto

end PowAvx

section duplicates

/-- No two lanes that the threads of a back end get to test the same nonce trits. -/
def NeverDuplicates (backend : Backend w) : Prop :=
  ∀ (mid : Spec.State) (n k lane n' k' lane' : Nat), n < 3 ^ 20 → n' < 3 ^ 20 → lane < w →
    lane' < w → backend.Executes mid n k → backend.Executes mid n' k' →
      (n, k, lane) ≠ (n', k', lane') →
        backend.laneNonce mid n k lane ≠ backend.laneNonce mid n' k' lane'

/-- Two lanes of the threads of one run, with their iterations. -/
structure LanePair (backend : Backend w) (mid : Spec.State) where
  n : Nat
  k : Nat
  lane : Nat
  n' : Nat
  k' : Nat
  lane' : Nat
  thread_lt : n < 3 ^ 20
  thread_lt' : n' < 3 ^ 20
  lane_lt : lane < w
  lane_lt' : lane' < w
  executes : backend.Executes mid n k
  executes' : backend.Executes mid n' k'

def LanePair.Differ {backend : Backend w} {mid : Spec.State} (pair : LanePair backend mid) : Prop :=
  (pair.n, pair.k, pair.lane) ≠ (pair.n', pair.k', pair.lane') →
    backend.laneNonce mid pair.n pair.k pair.lane ≠
      backend.laneNonce mid pair.n' pair.k' pair.lane'

theorem LanePair.differ_iff {backend : Backend w} {mid : Spec.State} (pair : LanePair backend mid)
    {overlaps : Nat → Nat → Nat → Nat → Prop}
    (hoverlaps : ∀ n lane n' lane', overlaps n lane n' lane' → n < n')
    (heq : backend.laneNonce mid pair.n pair.k pair.lane =
        backend.laneNonce mid pair.n' pair.k' pair.lane' ↔
      pair.k = pair.k' ∧ (pair.n = pair.n' ∧ pair.lane = pair.lane' ∨
        overlaps pair.n pair.lane pair.n' pair.lane' ∨
          overlaps pair.n' pair.lane' pair.n pair.lane)) :
    pair.Differ ↔ ¬(pair.k = pair.k' ∧ (overlaps pair.n pair.lane pair.n' pair.lane' ∨
      overlaps pair.n' pair.lane' pair.n pair.lane)) := by
  unfold LanePair.Differ
  rw [Ne, Ne, heq, Prod.mk.injEq, Prod.mk.injEq]
  have hlt := hoverlaps pair.n pair.lane pair.n' pair.lane'
  have hlt' := hoverlaps pair.n' pair.lane' pair.n pair.lane
  constructor
  · intro hdiffer ⟨hk, hcase⟩
    refine hdiffer ?_ ⟨hk, Or.inr hcase⟩
    intro ⟨hn, _, _⟩
    cases hcase with
    | inl h => exact absurd (hlt h) (by omega)
    | inr h => exact absurd (hlt' h) (by omega)
  · intro hnone hne ⟨hk, hcase⟩
    cases hcase with
    | inl hsame => exact hne ⟨hsame.1, hk, hsame.2⟩
    | inr hcase => exact hnone ⟨hk, hcase⟩

/-- The lanes that test one nonce twice, for both back ends. -/
theorem lanePair_differ_iff (mid : Spec.State) :
    (∀ pair : LanePair PowSse.backend mid, pair.Differ ↔
      ¬(pair.k = pair.k' ∧ (PowSse.Overlaps pair.n pair.lane pair.n' pair.lane' ∨
        PowSse.Overlaps pair.n' pair.lane' pair.n pair.lane))) ∧
    ∀ pair : LanePair PowAvx.backend mid, pair.Differ ↔
      ¬(pair.k = pair.k' ∧ (PowAvx.Overlaps pair.n pair.lane pair.n' pair.lane' ∨
        PowAvx.Overlaps pair.n' pair.lane' pair.n pair.lane)) := by
  constructor
  · intro pair
    refine pair.differ_iff ?_ (PowSse.laneNonce_eq_iff mid pair.thread_lt pair.thread_lt'
      pair.lane_lt pair.lane_lt' pair.executes pair.executes')
    intro n lane n' lane' h
    unfold PowSse.Overlaps at h
    omega
  · intro pair
    refine pair.differ_iff ?_ (PowAvx.laneNonce_eq_iff mid pair.thread_lt pair.thread_lt'
      pair.lane_lt pair.lane_lt' pair.executes pair.executes')
    intro n lane n' lane' h
    unfold PowAvx.Overlaps PowAvx.Late at h
    omega

theorem executes_one_lowest {backend : Backend w} (hlawful : backend.Lawful) (n : Nat) :
    backend.Executes PowC.lowest n 1 := by
  refine ⟨by decide, ?_⟩
  intro j hj
  have hbatches := PowC.one_le_batches_lowest
  exact Backend.incr_counterAt_of_lt hlawful PowC.lowest n (by omega)

/-- Threads 2 and 3 of `pow_sse` share a nonce, and so do threads 0 and 1 of
`pow_avx`. -/
theorem not_neverDuplicates :
    ¬NeverDuplicates PowSse.backend ∧ ¬NeverDuplicates PowAvx.backend := by
  constructor
  · intro h
    have hexecutes := executes_one_lowest PowSse.lawful
    apply h PowC.lowest 2 1 17 3 1 64 (by decide) (by decide) (by decide) (by decide)
      (hexecutes 2) (hexecutes 3) (by decide)
    exact (PowSse.laneNonce_eq_iff PowC.lowest (by decide) (by decide) (by decide) (by decide)
      (hexecutes 2) (hexecutes 3)).mpr ⟨rfl, Or.inr (Or.inl ⟨rfl, rfl, rfl⟩)⟩
  · intro h
    have hexecutes := executes_one_lowest PowAvx.lawful
    apply h PowC.lowest 0 1 145 1 1 192 (by decide) (by decide) (by decide) (by decide)
      (hexecutes 0) (hexecutes 1) (by decide)
    exact (PowAvx.laneNonce_eq_iff PowC.lowest (by decide) (by decide) (by decide) (by decide)
      (hexecutes 0) (hexecutes 1)).mpr ⟨rfl, Or.inr (Or.inl (Or.inl
        ⟨rfl, rfl, by decide, by decide, rfl⟩))⟩

end duplicates

end Dcurl
