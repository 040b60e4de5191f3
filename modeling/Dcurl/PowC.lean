import Dcurl.Worker

/-! `pow_c.c`: the search on 64-bit words. -/
namespace Dcurl.PowC

open Library Odometer PingPong

def hbits : BitVec 64 := 0xFFFFFFFFFFFFFFFF
def lbits : BitVec 64 := 0x0000000000000000

def low0 : BitVec 64 := 0xDB6DB6DB6DB6DB6D
def high0 : BitVec 64 := 0xB6DB6DB6DB6DB6DB
def low1 : BitVec 64 := 0xF1F8FC7E3F1F8FC7
def high1 : BitVec 64 := 0x8FC7E3F1F8FC7E3F
def low2 : BitVec 64 := 0x7FFFE00FFFFC01FF
def high2 : BitVec 64 := 0xFFC01FFFF803FFFF
def low3 : BitVec 64 := 0xFFC0000007FFFFFF
def high3 : BitVec 64 := 0x003FFFFFFFFFFFFF

def goOn (_ : Fin 729) (carry : BitVec 64) : Bool := carry != 0

def carryOf (low high : BitVec 64) : BitVec 64 := high &&& ~~~low

/-- `INCR_START` is 193. The flag is the returned `i == HASH_TRITS_LENGTH`. -/
def incr (mid : Words 64) : Bool × Words 64 :=
  carryLoop goOn carryOf (positions 193 50 incr_inside) 1 mid

def seri (words : Words 64) (n : Nat) (r : Vector Int8 81) : Vector Int8 81 :=
  seriWith (fun word => (word >>> n).getLsbD 0) words r

def check (words : Words 64) (m : Nat) : Int :=
  checkWith 1 hbits (fun probe => probe == 0) (-1) words m

def para (mid : CurlState) : Words 64 := paraWith lbits hbits mid

def incrN (n : Nat) (words : Words 64) : Words 64 :=
  (fun words => (carryLoop goOn carryOf (positions 166 27 incrN_inside) 1 words).2)^[n] words

def prepare (mid : CurlState) (n : Nat) : Words 64 :=
  let words := para mid
  let words := words.put 162 low0 high0
  let words := words.put 163 low1 high1
  let words := words.put 164 low2 high2
  let words := words.put 165 low3 high3
  incrN n words

/-- The 64-bit counter of `loop_cpu` is taken not to overflow. -/
def backend : Backend 64 where
  transform := transform64
  incr := incr
  check := check
  seri := seri
  prepare := prepare
  found i := i * 64
  missed i := -i * 64 - 1

theorem incr_spec (base : Nat → Spec.State) (digits : List (Digit 2)) (mid : Words 64)
    (hdigits : digits.length = 50)
    (hmid : ∀ lane < 64, mid.Holds lane (Spec.overlay (base lane) 193 digits)) :
    (incr mid).1 = visitsLast digits ∧
      ∀ lane < 64, (incr mid).2.Holds lane (Spec.overlay (base lane) 193 (tick digits)) := by
  apply carryLoop_overlay (fun _ _ => rfl) hdigits _ _ _ hmid
  · intro _ _
    rfl
  · intro _ _
    exact ⟨rfl, rfl⟩

theorem prepare_spec (mid : Spec.State) (n lane : Nat) (hlane : lane < 64) :
    (prepare (embed mid) n).HoldsOutside lane 162 193 mid := by
  apply holdsOutside_carryLoop_iterate _ _ _ (by decide) (by decide)
  have hpara : (para (embed mid)).HoldsOutside lane 162 193 mid :=
    (paraWith_embed hlane mid).outside 162 193
  have hput0 := hpara.put hlane (i := 162) (by decide) (by decide)
    (show low0 ||| high0 = BitVec.allOnes 64 by decide)
  have hput1 := hput0.put hlane (i := 163) (by decide) (by decide)
    (show low1 ||| high1 = BitVec.allOnes 64 by decide)
  have hput2 := hput1.put hlane (i := 164) (by decide) (by decide)
    (show low2 ||| high2 = BitVec.allOnes 64 by decide)
  exact hput2.put hlane (by decide) (by decide)
    (show low3 ||| high3 = BitVec.allOnes 64 by decide)

theorem seri_spec {words : Words 64} {lane : Nat} {trits : Spec.State}
    (hwords : words.Holds lane trits) (r : Vector Int8 81) :
    seri words lane r = nonceOf trits := by
  apply seriWith_of_holds hwords
  intro word
  rw [BitVec.getLsbD_ushiftRight, Nat.add_zero]

theorem lawful : backend.Lawful where
  prepare_spec := prepare_spec
  incr_spec := incr_spec
  tryBatch_spec base mid m hmid :=
    Backend.checkWith_transformWords gate64_lawful base mid hmid rfl m (by decide)
  seri_spec mid lane trits nonce _ hmid :=
    seri_spec hmid nonce

theorem faithful : backend.Faithful where
  found_nonneg i := by
    change (0 : Int) ≤ i * 64
    omega
  missed_neg i := by
    change (-i * 64 - 1 : Int) < 0
    omega

end Dcurl.PowC
