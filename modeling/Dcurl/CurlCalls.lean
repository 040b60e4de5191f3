import Dcurl.Curl

/-! Sequences of calls on the `curl_t` that `init_curl` returns, with every state
that `_transform` is given on the way. -/
namespace Dcurl

open Library PingPong

def tableIndex (a b : Int8) : Int := a.toInt + b.toInt * 4 + 5

def sourceAt (state : CurlState) (r : Nat) : CurlState :=
  let cursor := (pass fun source _ => transformRound source)^[r]
    (start ⟨state, Vector.replicate 729 0⟩)
  cursor.buffers.read cursor.source

abbrev ValidTrytes := { trytes : List Int8 // trytes.all isTryte = true }

def ValidTrytes.object (trytes : ValidTrytes) : TrinaryObject := ⟨trytes.val, .trytes⟩

inductive CurlCall where
  | absorb (inn : ValidTrytes)
  | transform
  | squeeze

def absorbPermutes (state : CurlState) (rest : List Int8) : List CurlState :=
  if rest.length = 0 then []
  else
    let lenn := if rest.length < 243 then rest.length else 243
    let filled := memcpy state 0 (rest.take lenn)
    filled :: absorbPermutes (transform filled) (rest.drop lenn)
termination_by rest.length
decreasing_by
  rw [List.length_drop]
  split <;> omega

namespace CurlCall

def run (c : CurlState) : CurlCall → CurlState
  | .absorb inn => Dcurl.absorb c inn.object
  | .transform => Dcurl.transform c
  | .squeeze => (Dcurl.squeeze c).2

/-- The states that the call gives to `_transform`. -/
def permutes (c : CurlState) : CurlCall → List CurlState
  | .absorb inn =>
      match tritsFromTrytes (some inn.object) with
      | none => []
      | some trits => absorbPermutes c trits.data
  | .transform => [c]
  | .squeeze => [c]

def runAll (calls : List CurlCall) : CurlState := calls.foldl run initCurl

end CurlCall

section transform

theorem sourceAt_eq (state : CurlState) (r : Nat) :
    sourceAt state r = transformRound^[r] state := by
  have hread := read_iterate transformRound ⟨state, Vector.replicate 729 0⟩ r
  have hsource := (iterate_pointers transformRound ⟨state, Vector.replicate 729 0⟩ r).1
  unfold sourceAt
  dsimp only
  rw [hsource]
  exact hread

theorem tableIndex_toInt8 (a b : Trit) :
    0 ≤ tableIndex a.toInt8 b.toInt8 ∧ tableIndex a.toInt8 b.toInt8 ≤ 10 ∧
      tableIndex a.toInt8 b.toInt8 ≠ 3 ∧ tableIndex a.toInt8 b.toInt8 ≠ 7 := by
  cases a <;> cases b <;> decide

/-- `_transform` looks up entries of the table that stand for trits, and copies the
buffer of its last round back. -/
structure TransformsInDomain (state : CurlState) : Prop where
  index : ∀ r < 81, ∀ i : Fin 729,
    let a := (sourceAt state r)[index i.castSucc]
    let b := (sourceAt state r)[index i.succ]
    0 ≤ tableIndex a b ∧ tableIndex a b ≤ 10 ∧ tableIndex a b ≠ 3 ∧ tableIndex a b ≠ 7
  copied : transform state = transformRound (sourceAt state 80)

theorem transformsInDomain {state : CurlState} (h : IsTritState state) :
    TransformsInDomain state := by
  obtain ⟨trits, rfl⟩ := h
  constructor
  · intro r _ i
    rw [sourceAt_eq, transformRound_iterate_embed]
    simp only [Library.getElem_fin, getElem_embed]
    exact tableIndex_toInt8 _ _
  · rw [transform_eq, sourceAt_eq, Function.iterate_succ_apply']

end transform

section calls

theorem isTritState_absorbPermutes {state : CurlState} {trits : List Int8}
    (hstate : IsTritState state) (htrits : trits.all isTrit = true) :
    ∀ filled ∈ absorbPermutes state trits, IsTritState filled := by
  induction state, trits using absorbPermutes.induct with
  | case1 state trits hempty =>
      rw [absorbPermutes, if_pos hempty]
      exact fun _ hmem => absurd hmem List.not_mem_nil
  | case2 state trits hnonempty lenn filled ih =>
      rw [List.all_eq_true] at htrits
      have hfilled : IsTritState filled := by
        apply isTritState_memcpy 0 hstate
        rw [List.all_eq_true]
        exact fun value hmem => htrits value (List.mem_of_mem_take hmem)
      have hrest := ih (isTritState_transform hfilled) (by
        rw [List.all_eq_true]
        exact fun value hmem => htrits value (List.mem_of_mem_drop hmem))
      rw [absorbPermutes, if_neg hnonempty]
      exact List.forall_mem_cons.mpr ⟨hfilled, hrest⟩

theorem isTritState_run {c : CurlState} (h : IsTritState c) (call : CurlCall) :
    IsTritState (call.run c) := by
  cases call with
  | absorb inn =>
      change IsTritState (absorb c ⟨inn.val, .trytes⟩)
      rw [absorb_of_valid c inn.property]
      exact isTritState_absorbTrits h (all_isTrit_unpackTrytes inn.property)
  | transform => exact isTritState_transform h
  | squeeze => exact isTritState_transform h

theorem isTritState_permutes {c : CurlState} (h : IsTritState c) (call : CurlCall) :
    ∀ state ∈ call.permutes c, IsTritState state := by
  cases call with
  | absorb inn =>
      change ∀ state ∈ (match tritsFromTrytes (some ⟨inn.val, .trytes⟩) with
        | none => []
        | some trits => absorbPermutes c trits.data), IsTritState state
      rw [tritsFromTrytes_of_valid inn.property]
      exact isTritState_absorbPermutes h (all_isTrit_unpackTrytes inn.property)
  | transform => exact List.forall_mem_singleton.mpr h
  | squeeze => exact List.forall_mem_singleton.mpr h

theorem isTritState_runAll (calls : List CurlCall) : IsTritState (CurlCall.runAll calls) := by
  unfold CurlCall.runAll
  induction calls using List.reverseRecOn with
  | nil => exact isTritState_initCurl
  | append_singleton calls call ih =>
      rw [List.foldl_append, List.foldl_cons, List.foldl_nil]
      exact isTritState_run ih call

theorem squeeze_of_isTritState {c : CurlState} (h : IsTritState c) :
    ∃ trytes : ValidTrytes, (squeeze c).1 = some trytes.object ∧ trytes.val.length = 81 := by
  have hvalid := h.all_isTrit_take 243
  have hlength : (c.toList.take 243).length = 243 := by simp
  refine ⟨⟨packTrits (c.toList.take 243), (packTrits_spec (by omega) hvalid).1⟩, ?_, ?_⟩
  · unfold squeeze
    rw [initTrits_of_valid hvalid]
    exact trytesFromTrits_of_valid (by omega) hvalid
  · rw [length_packTrits, hlength]

/-- Whatever is called on it, a `curl_t` holds trits, its rounds stay in the table,
and what is squeezed out of it are 81 trytes. -/
theorem curl_inDomain (calls : List CurlCall) (call : CurlCall) :
    (∀ i : Fin 729, (CurlCall.runAll calls)[i] = -1 ∨ (CurlCall.runAll calls)[i] = 0 ∨
      (CurlCall.runAll calls)[i] = 1) ∧
    (∀ state ∈ call.permutes (CurlCall.runAll calls), TransformsInDomain state) ∧
    ∃ data, (squeeze (CurlCall.runAll calls)).1 = some ⟨data, .trytes⟩ ∧ data.length = 81 ∧
      ∀ value ∈ data, value ∈ tryteAlphabet := by
  have hstate := isTritState_runAll calls
  refine ⟨?_, ?_, ?_⟩
  · intro i
    exact (isTrit_iff_eq _).mp (isTritState_iff.mp hstate i)
  · intro state hmem
    exact transformsInDomain (isTritState_permutes hstate call state hmem)
  · have ⟨trytes, hsqueeze, hlength⟩ := squeeze_of_isTritState hstate
    exact ⟨trytes.val, hsqueeze, hlength, all_isTryte_iff.mp trytes.property⟩

end calls

end Dcurl
