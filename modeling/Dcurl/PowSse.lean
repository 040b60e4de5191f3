import Dcurl.Worker

/-! `pow_sse.c`: the search on 128-bit words of two elements. -/
namespace Dcurl.PowSse

open Library Odometer PingPong

/-- `_mm_set_epi64x`, whose last argument is element 0. -/
def set2 (e1 e0 : BitVec 64) : BitVec 128 := e1 ++ e0

def hbits : BitVec 128 := set2 0xFFFFFFFFFFFFFFFF 0xFFFFFFFFFFFFFFFF
def lbits : BitVec 128 := set2 0x0000000000000000 0x0000000000000000

/-- `_mm_set_epi64x(LOW00, LOW01)`, and so on. -/
def low0 : BitVec 128 := set2 0xDB6DB6DB6DB6DB6D 0x6DB6DB6DB6DB6DB6
def high0 : BitVec 128 := set2 0xB6DB6DB6DB6DB6DB 0xDB6DB6DB6DB6DB6D
def low1 : BitVec 128 := set2 0xF1F8FC7E3F1F8FC7 0xF8FC7E3F1F8FC7E3
def high1 : BitVec 128 := set2 0x8FC7E3F1F8FC7E3F 0xC7E3F1F8FC7E3F1F
def low2 : BitVec 128 := set2 0x7FFFE00FFFFC01FF 0xC01FFFF803FFFF00
def high2 : BitVec 128 := set2 0xFFC01FFFF803FFFF 0x3FFFF007FFFE00FF
def low3 : BitVec 128 := set2 0xFFC0000007FFFFFF 0x00000FFFFFFFFFFF
def high3 : BitVec 128 := set2 0x003FFFFFFFFFFFFF 0xFFFFFFFFFFFE0000
def low4 : BitVec 128 := set2 0xFFFFFFFFFFFFFFFF 0x000000000001FFFF
def high4 : BitVec 128 := set2 0xFFFFFFFFFFFFFFFF 0xFFFFFFFFFFFFFFFF

def carryOf (low high : BitVec 128) : BitVec 128 := high &&& ~~~low

def goOn (i : Fin 729) (carry : BitVec 128) : Bool := i.val == 193 || element carry 0 != 0

def incr128 (mid : Words 128) : Bool × Words 128 :=
  carryLoop goOn carryOf (positions 193 50 incr_inside) low0 mid

def seri128 (words : Words 128) (n : Nat) (r : Vector Int8 81) : Vector Int8 81 :=
  let index := if n > 63 then 1 else 0
  let n := if n > 63 then n - 64 else n
  seriWith (fun word => (element word index >>> n).getLsbD 0) words r

def check128 (words : Words 128) (m : Nat) : Int :=
  checkWith 2 hbits (fun probe => element probe 0 == 0 && element probe 1 == 0) (-2) words m

def para128 (mid : CurlState) : Words 128 := paraWith lbits hbits mid

def incrN128 (n : Nat) (words : Words 128) : Words 128 :=
  (fun words => (carryLoop (fun _ carry => element carry 0 != 0) carryOf
    (positions 166 27 incrN_inside) hbits words).2)^[n] words

def prepare (mid : CurlState) (n : Nat) : Words 128 :=
  let words := para128 mid
  let words := words.put 162 low0 high0
  let words := words.put 163 low1 high1
  let words := words.put 164 low2 high2
  let words := words.put 165 low3 high3
  let words := words.put 166 low4 high4
  incrN128 n words

/-- The 64-bit counter of `loop_128` is taken not to overflow. -/
def backend : Backend 128 where
  transform := transform128
  incr := incr128
  check := check128
  seri := seri128
  prepare := prepare
  found i := i * 128
  missed i := -i * 128 - 1

theorem hbits_eq : hbits = BitVec.allOnes 128 := rfl

theorem lbits_eq : lbits = 0#128 := rfl

theorem incr_spec (base : Nat → Spec.State) (digits : List (Digit 2)) (mid : Words 128)
    (hdigits : digits.length = 50)
    (hmid : ∀ lane < 128, mid.Holds lane (Spec.overlay (base lane) 193 digits)) :
    (incr128 mid).1 = visitsLast digits ∧
      ∀ lane < 128, (incr128 mid).2.Holds lane (Spec.overlay (base lane) 193 (tick digits)) := by
  -- The lanes agree, so element 0 speaks for the other one.
  exact carryLoop_overlay_of_test (fun _ _ => rfl) rfl rfl hdigits (by decide) hmid

theorem prepare_spec (mid : Spec.State) (n lane : Nat) (hlane : lane < 128) :
    (prepare (embed mid) n).HoldsOutside lane 162 193 mid := by
  apply holdsOutside_carryLoop_iterate _ _ _ (by decide) (by decide)
  have hpara : (para128 (embed mid)).HoldsOutside lane 162 193 mid := by
    unfold para128
    rw [hbits_eq, lbits_eq]
    exact (paraWith_embed hlane mid).outside 162 193
  have hput0 := hpara.put hlane (i := 162) (by decide) (by decide)
    (show low0 ||| high0 = BitVec.allOnes 128 by decide)
  have hput1 := hput0.put hlane (i := 163) (by decide) (by decide)
    (show low1 ||| high1 = BitVec.allOnes 128 by decide)
  have hput2 := hput1.put hlane (i := 164) (by decide) (by decide)
    (show low2 ||| high2 = BitVec.allOnes 128 by decide)
  have hput3 := hput2.put hlane (i := 165) (by decide) (by decide)
    (show low3 ||| high3 = BitVec.allOnes 128 by decide)
  exact hput3.put hlane (by decide) (by decide)
    (show low4 ||| high4 = BitVec.allOnes 128 by decide)

theorem seri_spec {words : Words 128} {lane : Nat} (hlane : lane < 128) {trits : Spec.State}
    (hwords : words.Holds lane trits) (r : Vector Int8 81) :
    seri128 words lane r = nonceOf trits := by
  unfold seri128
  apply seriWith_of_holds hwords
  intro word
  apply getLsbD_element_shift
  · split <;> omega
  · split <;> omega

theorem lawful : backend.Lawful where
  prepare_spec := prepare_spec
  incr_spec := incr_spec
  tryBatch_spec base mid m hmid :=
    Backend.checkWith_transformWords gate128_lawful base mid hmid rfl m (by decide)
  seri_spec _ _ _ nonce hlane hmid := seri_spec hlane hmid nonce

theorem faithful : backend.Faithful where
  found_nonneg i := by
    change (0 : Int) ≤ i * 128
    omega
  missed_neg i := by
    change (-i * 128 - 1 : Int) < 0
    omega

end Dcurl.PowSse
