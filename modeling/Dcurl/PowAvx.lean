import Dcurl.Worker

/-! `pow_avx.c`: the search on 256-bit words of four elements, in the build for
AVX2 and in the build that keeps the words in vectors of doubles. The two differ
in `incr_256`, `incr_n_256`, `seri_256` and `check_256`. -/
namespace Dcurl.PowAvx

open Library Odometer PingPong

/-- `_mm256_set_epi64x`, whose last argument is element 0. -/
def set4 (e3 e2 e1 e0 : BitVec 64) : BitVec 256 := e3 ++ e2 ++ e1 ++ e0

def hbits : BitVec 256 :=
  set4 0xFFFFFFFFFFFFFFFF 0xFFFFFFFFFFFFFFFF 0xFFFFFFFFFFFFFFFF 0xFFFFFFFFFFFFFFFF
def lbits : BitVec 256 :=
  set4 0x0000000000000000 0x0000000000000000 0x0000000000000000 0x0000000000000000

/-- `_mm256_set_epi64x(LOW00, LOW01, LOW02, LOW03)`, and so on. -/
def low0 : BitVec 256 :=
  set4 0xDB6DB6DB6DB6DB6D 0x6DB6DB6DB6DB6DB6 0xB6DB6DB6DB6DB6DB 0xDB6DB6DB6DB6DB6D
def high0 : BitVec 256 :=
  set4 0xB6DB6DB6DB6DB6DB 0xDB6DB6DB6DB6DB6D 0x6DB6DB6DB6DB6DB6 0xB6DB6DB6DB6DB6DB
def low1 : BitVec 256 :=
  set4 0xF1F8FC7E3F1F8FC7 0xF8FC7E3F1F8FC7E3 0xFC7E3F1F8FC7E3F1 0x7E3F1F8FC7E3F1F8
def high1 : BitVec 256 :=
  set4 0x8FC7E3F1F8FC7E3F 0xC7E3F1F8FC7E3F1F 0xE3F1F8FC7E3F1F8F 0xF1F8FC7E3F1F8FC7
def low2 : BitVec 256 :=
  set4 0x7FFFE00FFFFC01FF 0xC01FFFF803FFFF00 0xFFF007FFFE00FFFF 0x0FFFFC01FFFF803F
def high2 : BitVec 256 :=
  set4 0xFFC01FFFF803FFFF 0x3FFFF007FFFE00FF 0xE00FFFFC01FFFF80 0xFFF803FFFF007FFF
def low3 : BitVec 256 :=
  set4 0xFFC0000007FFFFFF 0x00000FFFFFFFFFFF 0x1FFFFFFFFFFFFF80 0xFFFFFFFFFF000000
def high3 : BitVec 256 :=
  set4 0x003FFFFFFFFFFFFF 0xFFFFFFFFFFFE0000 0xFFFFFFFC0000007F 0xFFF8000000FFFFFF
def low4 : BitVec 256 :=
  set4 0xFFFFFFFFFFFFFFFF 0x000000000001FFFF 0xFFFFFFFC00000000 0xFFFFFFFFFFFFFFFF
def high4 : BitVec 256 :=
  set4 0xFFFFFFFFFFFFFFFF 0xFFFFFFFFFFFFFFFF 0x00000003FFFFFFFF 0xFFF8000000000000
def low5 : BitVec 256 :=
  set4 0xFFFFFFFFFFFFFFFF 0xFFFFFFFFFFFFFFFF 0xFFFFFFFFFFFFFFFF 0x0007FFFFFFFFFFFF
def high5 : BitVec 256 :=
  set4 0xFFFFFFFFFFFFFFFF 0xFFFFFFFFFFFFFFFF 0xFFFFFFFFFFFFFFFF 0xFFFFFFFFFFFFFFFF

def para256 (mid : CurlState) : Words 256 := paraWith lbits hbits mid

def spread (mid : CurlState) : Words 256 :=
  let words := para256 mid
  let words := words.put 162 low0 high0
  let words := words.put 163 low1 high1
  let words := words.put 164 low2 high2
  let words := words.put 165 low3 high3
  let words := words.put 166 low4 high4
  words.put 167 low5 high5

/-- A value of type `int`; arithmetic on it is taken to wrap. -/
def wrap32 (value : Int) : Int := value.bmod (2 ^ 32)

def found (i : Nat) : Int := wrap32 (i * 256)

def missed (i : Nat) : Int := wrap32 (-i * 256 - 1)

section avx2

def carryOf (low high : BitVec 256) : BitVec 256 :=
  let nlow := andnot256 low hbits
  nlow &&& high

def goOn (i : Fin 729) (carry : BitVec 256) : Bool := i.val == 193 || element carry 0 != 0

def incr256 (mid : Words 256) : Bool × Words 256 :=
  carryLoop goOn carryOf (positions 193 50 incr_inside) low0 mid

def incrN256 (n : Nat) (words : Words 256) : Words 256 :=
  (fun words => (carryLoop (fun _ carry => element carry 0 != 0) carryOf
    (positions 166 27 incrN_inside) hbits words).2)^[n] words

def seri256 (words : Words 256) (n : Nat) (r : Vector Int8 81) : Vector Int8 81 :=
  let index := n >>> 6
  let n := n % 64
  seriWith (fun word => (element word index >>> n).getLsbD 0) words r

def check256 (words : Words 256) (m : Nat) : Int :=
  checkWith 4 hbits (fun probe => element probe 0 == 0 && element probe 1 == 0 &&
    element probe 2 == 0 && element probe 3 == 0) (-2) words m

def backend : Backend 256 where
  transform := transform256
  incr := incr256
  check := check256
  seri := seri256
  prepare mid n := incrN256 n (spread mid)
  found := found
  missed := missed

end avx2

section avx1

/-- Comparing a double with 0.0: true of positive and negative zero. -/
def isZeroDouble (bits : BitVec 64) : Bool := bits == 0 || bits == 0x8000000000000000

def carryOfPd (low high : BitVec 256) : BitVec 256 := andnot256 low high

def goOnPd (i : Fin 729) (carry : BitVec 256) : Bool :=
  i.val == 193 || !isZeroDouble (element carry 0)

def incr256Pd (mid : Words 256) : Bool × Words 256 :=
  carryLoop goOnPd carryOfPd (positions 193 50 incr_inside) lbits mid

def incrN256Pd (n : Nat) (words : Words 256) : Words 256 :=
  (fun words => (carryLoop (fun _ carry => !isZeroDouble (element carry 0)) carryOfPd
    (positions 166 27 incrN_inside) hbits words).2)^[n] words

def seri256Pd (words : Words 256) (n : Nat) (r : Vector Int8 81) : Vector Int8 81 :=
  let index := if n > 63 ∧ n < 128 then 1 else if n ≥ 128 ∧ n < 192 then 2
    else if n ≥ 192 ∧ n < 256 then 3 else 0
  let n := if n > 63 ∧ n < 128 then n - 64 else if n ≥ 128 ∧ n < 192 then n - 128
    else if n ≥ 192 ∧ n < 256 then n - 192 else n
  seriWith (fun word => (element word index >>> n).getLsbD 0) words r

def check256Pd (words : Words 256) (m : Nat) : Int :=
  checkWith 4 hbits (fun probe => isZeroDouble (element probe 0) &&
    isZeroDouble (element probe 1) && isZeroDouble (element probe 2) &&
    isZeroDouble (element probe 3)) (-2) words m

def backendPd : Backend 256 where
  transform := transform256
  incr := incr256Pd
  check := check256Pd
  seri := seri256Pd
  prepare mid n := incrN256Pd n (spread mid)
  found := found
  missed := missed

end avx1

section specs

theorem hbits_eq : hbits = BitVec.allOnes 256 := rfl

theorem lbits_eq : lbits = 0#256 := rfl

theorem carryOf_eq (low high : BitVec 256) : carryOf low high = high &&& ~~~low := by
  unfold carryOf andnot256
  rw [hbits_eq, BitVec.and_allOnes, BitVec.and_comm]

theorem carryOfPd_eq (low high : BitVec 256) : carryOfPd low high = high &&& ~~~low :=
  BitVec.and_comm _ _

theorem incr_spec (base : Nat → Spec.State) (digits : List (Digit 2)) (mid : Words 256)
    (hdigits : digits.length = 50)
    (hmid : ∀ lane < 256, mid.Holds lane (Spec.overlay (base lane) 193 digits)) :
    (incr256 mid).1 = visitsLast digits ∧
      ∀ lane < 256, (incr256 mid).2.Holds lane (Spec.overlay (base lane) 193 (tick digits)) := by
  exact carryLoop_overlay_of_test carryOf_eq rfl rfl hdigits (by decide) hmid

/-- A carry that is set in all lanes is no zero as a double. -/
theorem incrPd_spec (base : Nat → Spec.State) (digits : List (Digit 2)) (mid : Words 256)
    (hdigits : digits.length = 50)
    (hmid : ∀ lane < 256, mid.Holds lane (Spec.overlay (base lane) 193 digits)) :
    (incr256Pd mid).1 = visitsLast digits ∧
      ∀ lane < 256, (incr256Pd mid).2.Holds lane (Spec.overlay (base lane) 193 (tick digits)) := by
  exact carryLoop_overlay_of_test carryOfPd_eq rfl rfl hdigits (by decide) hmid

theorem spread_spec (mid : Spec.State) {lane : Nat} (hlane : lane < 256) :
    (spread (embed mid)).HoldsOutside lane 162 193 mid := by
  have hpara : (para256 (embed mid)).HoldsOutside lane 162 193 mid := by
    unfold para256
    rw [hbits_eq, lbits_eq]
    exact (paraWith_embed hlane mid).outside 162 193
  have hput0 := hpara.put hlane (i := 162) (by decide) (by decide)
    (show low0 ||| high0 = BitVec.allOnes 256 by decide)
  have hput1 := hput0.put hlane (i := 163) (by decide) (by decide)
    (show low1 ||| high1 = BitVec.allOnes 256 by decide)
  have hput2 := hput1.put hlane (i := 164) (by decide) (by decide)
    (show low2 ||| high2 = BitVec.allOnes 256 by decide)
  have hput3 := hput2.put hlane (i := 165) (by decide) (by decide)
    (show low3 ||| high3 = BitVec.allOnes 256 by decide)
  have hput4 := hput3.put hlane (i := 166) (by decide) (by decide)
    (show low4 ||| high4 = BitVec.allOnes 256 by decide)
  exact hput4.put hlane (by decide) (by decide)
    (show low5 ||| high5 = BitVec.allOnes 256 by decide)

theorem seri_spec {words : Words 256} {lane : Nat} {trits : Spec.State}
    (hwords : words.Holds lane trits) (r : Vector Int8 81) :
    seri256 words lane r = nonceOf trits := by
  have hlane : lane = 64 * (lane >>> 6) + lane % 64 := by
    rw [Nat.shiftRight_eq_div_pow, Nat.div_add_mod]
  exact seriWith_of_holds hwords
    (fun word => getLsbD_element_shift word (Nat.mod_lt _ (by decide)) hlane) r

theorem seriPd_spec {words : Words 256} {lane : Nat} (hlane : lane < 256) {trits : Spec.State}
    (hwords : words.Holds lane trits) (r : Vector Int8 81) :
    seri256Pd words lane r = nonceOf trits := by
  unfold seri256Pd
  apply seriWith_of_holds hwords
  intro word
  apply getLsbD_element_shift
  · split
    · omega
    · split
      · omega
      · split <;> omega
  · split
    · omega
    · split
      · omega
      · split <;> omega

theorem lawful : backend.Lawful where
  prepare_spec mid n _ hlane :=
    holdsOutside_carryLoop_iterate _ _ _ (by decide) (by decide) _ n (spread_spec mid hlane)
  incr_spec := incr_spec
  tryBatch_spec base mid m hmid :=
    Backend.checkWith_transformWords gate256_lawful base mid hmid rfl m (by decide)
  seri_spec _ _ _ nonce _ hmid := seri_spec hmid nonce

theorem lawfulPd : backendPd.Lawful where
  prepare_spec mid n _ hlane :=
    holdsOutside_carryLoop_iterate _ _ _ (by decide) (by decide) _ n (spread_spec mid hlane)
  incr_spec := incrPd_spec
  tryBatch_spec base mid m hmid :=
    Backend.checkWith_transformWords gate256_lawful base mid hmid rfl m (by decide)
  seri_spec _ _ _ nonce hlane hmid := seriPd_spec hlane hmid nonce

end specs

end Dcurl.PowAvx
