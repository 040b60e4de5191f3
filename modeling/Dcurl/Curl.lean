import Dcurl.Library.PingPong
import Dcurl.Spec.Curl
import Dcurl.Trinary

/-! `curl.c`, and `hash_trytes` of `trinary.c`. A `curl_t` holds nothing but its
state, so the operations work on the state. -/
namespace Dcurl

open Library

abbrev CurlState := Vector Int8 729

def truthTable : List Int8 := [1, 0, -1, 2, 1, -1, 0, 2, -1, 1, 0]

/-- `truth_table[from[aa] + (from[bb] * 4) + 5]`, in `int` arithmetic. -/
def truthTableAt (a b : Int8) : Int8 :=
  truthTable.getD (a.toInt + b.toInt * 4 + 5).toNat 0

def transformRound (source : CurlState) : CurlState :=
  Vector.ofFn fun i =>
    truthTableAt source[index i.castSucc] source[index i.succ]

def transform (state : CurlState) : CurlState :=
  let copy : CurlState := Vector.replicate 729 0
  let last := (PingPong.pass fun source _ => transformRound source)^[81]
    (PingPong.start ⟨state, copy⟩)
  -- The source copies `copy` back, whichever buffer the last round wrote.
  last.buffers.second

/-- `memcpy(dst + offset, src, …)`. -/
def memcpy {n : Nat} (dst : Vector Int8 n) (offset : Nat) (src : List Int8) : Vector Int8 n :=
  Vector.ofFn fun i => if offset ≤ i.val then src[i.val - offset]?.getD dst[i] else dst[i]

def absorbTrits (state : CurlState) (rest : List Int8) : CurlState :=
  if rest.length = 0 then state
  else
    let lenn := if rest.length < 243 then rest.length else 243
    absorbTrits (transform (memcpy state 0 (rest.take lenn))) (rest.drop lenn)
termination_by rest.length
decreasing_by
  rw [List.length_drop]
  split <;> omega

def absorb (c : CurlState) (inn : TrinaryObject) : CurlState :=
  match tritsFromTrytes (some inn) with
  | none => c
  | some trits => absorbTrits c trits.data

def squeeze (c : CurlState) : Option TrinaryObject × CurlState :=
  let trits := initTrits (c.toList.take 243)
  (trytesFromTrits trits, transform c)

def initCurl : CurlState := Vector.replicate 729 0

def hashTrytes (t : TrinaryObject) : Option TrinaryObject :=
  if t.type ≠ .trytes then none
  else (squeeze (absorb initCurl t)).1

section transform

theorem transform_eq (state : CurlState) : transform state = transformRound^[81] state :=
  PingPong.read_iterate transformRound ⟨state, Vector.replicate 729 0⟩ 81

theorem truthTableAt_toInt8 (a b : Trit) :
    truthTableAt a.toInt8 b.toInt8 = (Spec.sbox a b).toInt8 := by
  cases a <;> cases b <;> decide

theorem transformRound_embed (state : Spec.State) :
    transformRound (embed state) = embed (Spec.curlRound state) := by
  ext i hi
  simp [transformRound, Spec.curlRound, truthTableAt_toInt8]

theorem transformRound_iterate_embed (n : Nat) (state : Spec.State) :
    transformRound^[n] (embed state) = embed (Spec.curlRound^[n] state) := by
  induction n with
  | zero => rfl
  | succ n ih =>
      rw [Function.iterate_succ_apply', Function.iterate_succ_apply', ih, transformRound_embed]

theorem transform_embed (state : Spec.State) :
    transform (embed state) = embed (Spec.curl state) := by
  rw [transform_eq, transformRound_iterate_embed]
  rfl

end transform

section validity

def IsTritState (state : CurlState) : Prop := ∃ trits : Spec.State, embed trits = state

theorem isTritState_iff {state : CurlState} :
    IsTritState state ↔ ∀ i : Fin 729, isTrit state[i] = true := by
  constructor
  · intro ⟨trits, h⟩ i
    rw [← h, Library.getElem_fin, getElem_embed]
    exact isTrit_toInt8 _
  · intro h
    choose trits htrits using fun i => (isTrit_iff state[i]).mp (h i)
    refine ⟨Vector.ofFn trits, ?_⟩
    ext i hi
    simpa using htrits ⟨i, hi⟩

theorem isTritState_transform {state : CurlState} (h : IsTritState state) :
    IsTritState (transform state) := by
  obtain ⟨trits, rfl⟩ := h
  exact ⟨Spec.curl trits, (transform_embed trits).symm⟩

theorem isTritState_memcpy {state : CurlState} {src : List Int8} (offset : Nat)
    (hstate : IsTritState state) (hsrc : src.all isTrit = true) :
    IsTritState (memcpy state offset src) := by
  rw [isTritState_iff] at hstate ⊢
  intro i
  rw [memcpy, Library.getElem_fin, Vector.getElem_ofFn]
  split
  · cases hget : src[i.val - offset]? with
    | none => exact hstate i
    | some value => exact List.all_eq_true.mp hsrc value (List.mem_of_getElem? hget)
  · exact hstate i

theorem isTritState_absorbTrits {state : CurlState} {trits : List Int8}
    (hstate : IsTritState state) (htrits : trits.all isTrit = true) :
    IsTritState (absorbTrits state trits) := by
  induction state, trits using absorbTrits.induct with
  | case1 state trits hempty =>
      rw [absorbTrits, if_pos hempty]
      exact hstate
  | case2 state trits hnonempty lenn ih =>
      rw [absorbTrits, if_neg hnonempty]
      rw [List.all_eq_true] at htrits
      apply ih
      · apply isTritState_transform
        apply isTritState_memcpy 0 hstate
        rw [List.all_eq_true]
        exact fun value hmem => htrits value (List.mem_of_mem_take hmem)
      · rw [List.all_eq_true]
        exact fun value hmem => htrits value (List.mem_of_mem_drop hmem)

theorem IsTritState.all_isTrit_take {state : CurlState} (h : IsTritState state) (n : Nat) :
    (state.toList.take n).all isTrit = true := by
  rw [List.all_eq_true]
  intro value hmem
  obtain ⟨i, hi, hvalue⟩ := List.getElem_of_mem (List.mem_of_mem_take hmem)
  have hget := isTritState_iff.mp h ⟨i, by simpa using hi⟩
  rw [← hvalue]
  simpa using hget

theorem isTritState_initCurl : IsTritState initCurl := by
  rw [isTritState_iff]
  intro i
  simp [initCurl, isTrit]

end validity

section sponge

theorem absorbTrits_nil (state : CurlState) : absorbTrits state [] = state := by
  rw [absorbTrits, if_pos List.length_nil]

theorem absorbTrits_block (state : CurlState) {block : List Int8} (rest : List Int8)
    (hblock : block.length = 243) :
    absorbTrits state (block ++ rest) =
      absorbTrits (transform (memcpy state 0 block)) rest := by
  rw [absorbTrits, if_neg (by rw [List.length_append]; omega)]
  simp only [List.length_append, hblock, show ¬(243 + rest.length < 243) by omega, if_false,
    List.take_left' hblock, List.drop_left' hblock]

theorem absorbTrits_append (state : CurlState) (blocks rest : List Int8)
    (hblocks : blocks.length % 243 = 0) :
    absorbTrits state (blocks ++ rest) = absorbTrits (absorbTrits state blocks) rest := by
  induction hlength : blocks.length / 243 generalizing state blocks with
  | zero =>
      have hnil : blocks = [] := List.length_eq_zero_iff.mp (by omega)
      rw [hnil, List.nil_append, absorbTrits_nil]
  | succ n ih =>
      have htake : (blocks.take 243).length = 243 := by
        rw [List.length_take]
        omega
      have hdrop : (blocks.drop 243).length = blocks.length - 243 := List.length_drop
      rw [← List.take_append_drop 243 blocks, List.append_assoc, absorbTrits_block _ _ htake,
        absorbTrits_block _ _ htake]
      apply ih
      · omega
      · omega

theorem absorb_of_valid (c : CurlState) {trytes : List Int8}
    (h : trytes.all isTryte = true) :
    absorb c ⟨trytes, .trytes⟩ = absorbTrits c (unpackTrytes trytes) := by
  rw [absorb, tritsFromTrytes_of_valid h]

theorem absorb_append (c : CurlState) {first rest : List Int8} (hfirst : first.all isTryte = true)
    (hrest : rest.all isTryte = true) (hblocks : first.length % 81 = 0) :
    absorb c ⟨first ++ rest, .trytes⟩ = absorb (absorb c ⟨first, .trytes⟩) ⟨rest, .trytes⟩ := by
  have hall : (first ++ rest).all isTryte = true := by
    rw [List.all_append, hfirst, hrest]
    rfl
  have htrits : (unpackTrytes first).length % 243 = 0 := by
    rw [length_unpackTrytes hfirst]
    omega
  rw [absorb_of_valid _ hall, absorb_of_valid _ hfirst, absorb_of_valid _ hrest,
    unpackTrytes_append, absorbTrits_append _ _ _ htrits]

/-- The hash of valid trytes, converted back to trits, is the first third of
the state that absorbed them. -/
theorem hashTrytes_of_valid {trytes : List Int8} (h : trytes.all isTryte = true) :
    tritsFromTrytes (hashTrytes ⟨trytes, .trytes⟩) =
      some ⟨(absorbTrits initCurl (unpackTrytes trytes)).toList.take 243, .trits⟩ := by
  have hstate : IsTritState (absorbTrits initCurl (unpackTrytes trytes)) :=
    isTritState_absorbTrits isTritState_initCurl (all_isTrit_unpackTrytes h)
  have hvalid := hstate.all_isTrit_take 243
  have hlength : ((absorbTrits initCurl (unpackTrytes trytes)).toList.take 243).length % 3 =
      0 := by
    simp
  have hpack := packTrits_spec hlength hvalid
  have hsqueeze : (squeeze (absorbTrits initCurl (unpackTrytes trytes))).1 =
      some ⟨packTrits ((absorbTrits initCurl (unpackTrytes trytes)).toList.take 243),
        .trytes⟩ := by
    unfold squeeze
    rw [initTrits_of_valid hvalid]
    exact trytesFromTrits_of_valid hlength hvalid
  unfold hashTrytes
  rw [if_neg (by simp), absorb_of_valid _ h, hsqueeze, tritsFromTrytes_of_valid hpack.1, hpack.2]

end sponge

end Dcurl
