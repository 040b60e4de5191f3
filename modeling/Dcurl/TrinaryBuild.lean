import Dcurl.Curl
import Dcurl.TrinaryConvert

/-! The conversions of `trinary.c` and the hash over them in each of its builds: the
macros choose between the scalar loops and `trinary_sse42.h`. The builds differ on
what is no tryte, and on nothing else. -/
namespace Dcurl

/-- Without either macro, with `__ARM_NEON`, and with `__SSE4_2__`. -/
inductive TrinaryBuild where
  | scalar
  | neon
  | sse42

namespace TrinaryBuild

variable (build : TrinaryBuild)

def validateTrits (trits : TrinaryObject) : Bool :=
  match build with
  | .scalar => Dcurl.validateTrits trits
  | .neon | .sse42 => trits.type = .trits && validateTritsSse42 trits

def validateTrytes (trytes : TrinaryObject) : Bool :=
  match build with
  | .scalar | .neon => Dcurl.validateTrytes trytes
  | .sse42 => trytes.type = .trytes && validateTrytesSse42 trytes

def initTrits (src : List Int8) : Option TrinaryObject :=
  let trits : TrinaryObject := ⟨src, .trits⟩
  if build.validateTrits trits then some trits else none

def initTrytes (src : List Int8) : Option TrinaryObject :=
  let trytes : TrinaryObject := ⟨src, .trytes⟩
  if build.validateTrytes trytes then some trytes else none

def trytesFromTrits : Option TrinaryObject → Option TrinaryObject
  | none => none
  | some trits =>
      if trits.data.length % 3 ≠ 0 || !build.validateTrits trits then none
      else match build with
        | .scalar | .neon => build.initTrytes (packTrits trits.data)
        | .sse42 => trytesFromTritsSse42 trits

def tritsFromTrytes : Option TrinaryObject → Option TrinaryObject
  | none => none
  | some trytes =>
      if !build.validateTrytes trytes then none
      else match build with
        | .scalar | .neon => build.initTrits (unpackTrytes trytes.data)
        | .sse42 => tritsFromTrytesSse42 trytes

def absorb (c : CurlState) (inn : TrinaryObject) : CurlState :=
  match build.tritsFromTrytes (some inn) with
  | none => c
  | some trits => absorbTrits c trits.data

def squeeze (c : CurlState) : Option TrinaryObject × CurlState :=
  let trits := build.initTrits (c.toList.take 243)
  (build.trytesFromTrits trits, transform c)

def hashTrytes (t : TrinaryObject) : Option TrinaryObject :=
  if t.type ≠ .trytes then none
  else (build.squeeze (build.absorb initCurl t)).1

section valid

variable {trytes trits : List Int8}

theorem validateTrits_of_valid (h : trits.all isTrit = true) :
    build.validateTrits ⟨trits, .trits⟩ = true := by
  cases build <;> simp [validateTrits, Dcurl.validateTrits, validateTritsSse42_of_valid, h]

theorem validateTrytes_of_valid (h : trytes.all isTryte = true) :
    build.validateTrytes ⟨trytes, .trytes⟩ = true := by
  cases build <;>
    simp [validateTrytes, Dcurl.validateTrytes, validateTrytesSse42_eq, all_inspectedBytes, h]

theorem initTrits_of_valid (h : trits.all isTrit = true) :
    build.initTrits trits = some ⟨trits, .trits⟩ := if_pos (build.validateTrits_of_valid h)

theorem initTrytes_of_valid (h : trytes.all isTryte = true) :
    build.initTrytes trytes = some ⟨trytes, .trytes⟩ := if_pos (build.validateTrytes_of_valid h)

theorem tritsFromTrytes_of_valid (h : trytes.all isTryte = true) :
    build.tritsFromTrytes (some ⟨trytes, .trytes⟩) = some ⟨unpackTrytes trytes, .trits⟩ := by
  have htrits := build.initTrits_of_valid (all_isTrit_unpackTrytes h)
  unfold tritsFromTrytes
  simp only [build.validateTrytes_of_valid h]
  cases build with
  | scalar => exact htrits
  | neon => exact htrits
  | sse42 => exact tritsFromTrytesSse42_of_valid h

theorem trytesFromTrits_of_valid (hlength : trits.length % 3 = 0) (h : trits.all isTrit = true) :
    build.trytesFromTrits (some ⟨trits, .trits⟩) = some ⟨packTrits trits, .trytes⟩ := by
  have htrytes := build.initTrytes_of_valid (packTrits_spec hlength h).1
  unfold trytesFromTrits
  simp only [build.validateTrits_of_valid h, hlength]
  cases build with
  | scalar => exact htrytes
  | neon => exact htrytes
  | sse42 => exact trytesFromTritsSse42_of_valid hlength h

theorem squeeze_of_isTritState {c : CurlState} (h : IsTritState c) :
    build.squeeze c = Dcurl.squeeze c := by
  have hvalid := h.all_isTrit_take 243
  have hlength : (c.toList.take 243).length % 3 = 0 := by simp
  unfold squeeze Dcurl.squeeze
  simp only [build.initTrits_of_valid hvalid, Dcurl.initTrits_of_valid hvalid,
    build.trytesFromTrits_of_valid hlength hvalid, Dcurl.trytesFromTrits_of_valid hlength hvalid]

theorem hashTrytes_of_valid (h : trytes.all isTryte = true) :
    build.hashTrytes ⟨trytes, .trytes⟩ = Dcurl.hashTrytes ⟨trytes, .trytes⟩ := by
  have habsorb : build.absorb initCurl ⟨trytes, .trytes⟩ =
      absorbTrits initCurl (unpackTrytes trytes) := by
    unfold absorb
    rw [build.tritsFromTrytes_of_valid h]
  have hstate : IsTritState (absorbTrits initCurl (unpackTrytes trytes)) :=
    isTritState_absorbTrits isTritState_initCurl (all_isTrit_unpackTrytes h)
  unfold hashTrytes Dcurl.hashTrytes
  rw [habsorb, absorb_of_valid _ h, build.squeeze_of_isTritState hstate]

end valid

end TrinaryBuild

end Dcurl
