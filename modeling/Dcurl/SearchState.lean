import Dcurl.PowC
import Dcurl.PowSse
import Dcurl.PowAvx

/-! The bit pair `(0,0)`, which no trit has, never occurs in a search: `check`
would take it for a zero, and `seri` would leave a byte as it was. -/
namespace Dcurl

open Library Odometer PingPong

variable {w : Nat}

namespace Backend

/-- What thread `t` can rely on after `k` increments. The second buffer of the copy
is whatever the stack holds. -/
structure EncodesTrits (backend : Backend w) (mid : Spec.State) (t k : Nat) : Prop where
  valid : (backend.counterAt (embed mid) t k).Valid
  kept : ∀ lane < w, ∀ p : Fin 729, p.val < 162 ∨ 243 ≤ p.val →
    (backend.counterAt (embed mid) t k).trit? lane p = some mid[p]
  transform : ∀ stale : Words w,
    (backend.transform ⟨backend.counterAt (embed mid) t k, stale⟩).first.Valid ∧
      (backend.transform ⟨backend.counterAt (embed mid) t k, stale⟩).second.Valid
  check : ∀ (stale : Words w) (m : Nat),
    0 ≤ backend.check (backend.transform ⟨backend.counterAt (embed mid) t k, stale⟩).second m →
      ∃ lane : Nat, lane < w ∧ backend.check
          (backend.transform ⟨backend.counterAt (embed mid) t k, stale⟩).second m = lane ∧
        ∀ i : Fin 729, 243 - m ≤ i.val → i.val < 243 →
          (backend.transform ⟨backend.counterAt (embed mid) t k, stale⟩).second.trit? lane i =
            some .zero
  seri : ∀ lane < w, ∀ (r : Vector Int8 81) (i : Nat) (hi : i < 81), ∃ trit : Trit,
    (backend.counterAt (embed mid) t k).trit? lane ⟨i + 162, by omega⟩ = some trit ∧
      (backend.seri (backend.counterAt (embed mid) t k) lane r)[i] = trit.toInt8

theorem Lawful.encodesTrits {backend : Backend w} (hlawful : backend.Lawful) {gate : Gate w}
    (hgate : gate.Lawful) (htransform : backend.transform = transformWords gate)
    (hcheck : ∀ (hash : Nat → Spec.State) (words : Words w) (m : Nat),
      (∀ lane < w, ∀ i : Fin 729, i.val < 243 → words.trit? lane i = some (hash lane)[i]) →
        0 ≤ backend.check words m →
          (backend.check words m).toNat < w ∧
            Spec.HasWeight m (hash (backend.check words m).toNat))
    (mid : Spec.State) (t k : Nat) : backend.EncodesTrits mid t k := by
  have ⟨base, hagree, hcounter⟩ := exists_counterAt hlawful mid t
  have hholds := (hcounter k).1
  have hvalid := Words.valid_of_holds fun lane hlane => ⟨_, hholds lane hlane⟩
  constructor
  · exact hvalid
  · intro lane hlane p hp
    rw [hholds lane hlane p, Spec.getElem_overlay_of_outside _ (by simp; omega)]
    exact congrArg some (hagree lane hlane p (by omega))
  · intro stale
    rw [htransform]
    exact valid_transformWords hgate hvalid
  · intro stale m hhit
    rw [htransform] at hhit ⊢
    have hwords : ∀ lane < w, ∀ i : Fin 729, i.val < 243 →
        (transformWords gate ⟨backend.counterAt (embed mid) t k, stale⟩).second.trit? lane i =
          some (Spec.curl (Spec.overlay (base lane) 193 (tick^[k] (startDigits mid))))[i] := by
      intro lane hlane i hi
      have hfirst : (Buffers.mk (backend.counterAt (embed mid) t k) stale).first.Holds lane
          (Spec.overlay (base lane) 193 (tick^[k] (startDigits mid))) := hholds lane hlane
      exact trit?_transformWords hgate hlane hfirst hi
    have ⟨hlane, hweight⟩ := hcheck _ _ m hwords hhit
    refine ⟨_, hlane, (Int.toNat_of_nonneg hhit).symm, ?_⟩
    intro i hge hlt
    rw [hwords _ hlane i hlt, hweight i hge hlt]
  · intro lane hlane r i hi
    refine ⟨_, hholds lane hlane ⟨i + 162, by omega⟩, ?_⟩
    rw [hlawful.seri_spec _ _ _ r hlane (hholds lane hlane)]
    simp [nonceOf]

end Backend

/-- Every thread of `pow_c`, of `pow_sse` and of the AVX2 build of `pow_avx` searches
states of trits that differ from the mid state in the nonce only, and what it
selects and writes are trits. -/
theorem search_encodesTrits (mid : Spec.State) (t k : Nat) :
    PowC.backend.EncodesTrits mid t k ∧ PowSse.backend.EncodesTrits mid t k ∧
      PowAvx.backend.EncodesTrits mid t k := by
  refine ⟨?_, ?_, ?_⟩
  · exact PowC.lawful.encodesTrits gate64_lawful rfl
      (fun hash _ _ hwords => checkWith_sound hash rfl (by decide) hwords) mid t k
  · exact PowSse.lawful.encodesTrits gate128_lawful rfl
      (fun hash _ _ hwords => checkWith_sound hash rfl (by decide) hwords) mid t k
  · exact PowAvx.lawful.encodesTrits gate256_lawful rfl
      (fun hash _ _ hwords => checkWith_sound hash rfl (by decide) hwords) mid t k

end Dcurl
