import Dcurl.Curl

/-! `tx_to_cstate` and `nonce_to_result`, which every back end defines with the
same text. A transaction has `TRANSACTION_TRYTES_LENGTH` trytes, of which the
last `HASH_TRYTES_LENGTH` are the last block of the sponge and the last
`NONCE_TRYTES_LENGTH` the nonce. -/
namespace Dcurl

def txToCstate (tx : TrinaryObject) : Option CurlState :=
  let tyt := tx.data.take (2673 - 81)
  match initTrytes tyt with
  | none => none
  | some inn =>
      let c := absorb initCurl inn
      match tritsFromTrytes (some tx) with
      | none => none
      | some tr =>
          let len := tr.data.length - (8019 - 243)
          let cState : CurlState := Vector.replicate 729 0
          let cState := memcpy cState 0 ((tr.data.drop (8019 - 243)).take len)
          some (memcpy cState len ((c.toList.drop len).take (729 - len)))

def nonceToResult (tx nonce : TrinaryObject) (ret : Vector Int8 2673) : Vector Int8 2673 :=
  let rstLen := tx.data.length - 27 + nonce.data.length
  let ret := memcpy ret 0 (tx.data.take (tx.data.length - 27))
  memcpy ret (tx.data.length - 27) (nonce.data.take (rstLen - (tx.data.length - 27)))

/-- The hash of the trytes, as trits, ends in `m` zeros. -/
def HashEndsInZeros (m : Nat) (trytes : List Int8) : Prop :=
  ∃ trits, tritsFromTrytes (hashTrytes ⟨trytes, .trytes⟩) = some trits ∧
    trits.data.length = 243 ∧ ∀ i, 243 - m ≤ i → i < 243 → trits.data[i]? = some 0

theorem nines_valid : (Vector.replicate 2673 (57 : Int8)).toList.all isTryte = true := by
  rw [Vector.toList_replicate, List.all_replicate]
  rfl

section memcpy

variable {n : Nat}

theorem getElem_memcpy (dst : Vector Int8 n) (offset : Nat) (src : List Int8) {i : Nat}
    (hi : i < n) :
    (memcpy dst offset src)[i] = if offset ≤ i then src[i - offset]?.getD dst[i] else dst[i] := by
  simp [memcpy]

theorem memcpy_memcpy (dst : Vector Int8 n) (offset : Nat) {src src' : List Int8}
    (hlength : src.length = src'.length) :
    memcpy (memcpy dst offset src) offset src' = memcpy dst offset src' := by
  ext i hi
  rw [getElem_memcpy, getElem_memcpy, getElem_memcpy]
  by_cases hoffset : offset ≤ i
  · rw [if_pos hoffset, if_pos hoffset, if_pos hoffset]
    by_cases hinside : i - offset < src'.length
    · rw [List.getElem?_eq_getElem hinside, Option.getD_some, Option.getD_some]
    · rw [List.getElem?_eq_none (by omega), List.getElem?_eq_none (by omega)]
      rfl
  · rw [if_neg hoffset, if_neg hoffset, if_neg hoffset]

theorem toList_memcpy_full (dst : Vector Int8 n) {src : List Int8}
    (hlength : src.length = n) : (memcpy dst 0 src).toList = src := by
  apply List.ext_getElem
  · simp [hlength]
  · intro i hi hi'
    have hlt : i < n := by omega
    rw [Vector.getElem_toList, getElem_memcpy, if_pos (Nat.zero_le i), Nat.sub_zero,
      List.getElem?_eq_getElem hi']
    rfl

end memcpy

section zero

theorem initCurl_eq_embed : initCurl = embed (Vector.replicate 729 .zero) := by
  rw [embed, Vector.map_replicate]
  rfl

theorem transform_initCurl : transform initCurl = initCurl := by
  rw [initCurl_eq_embed, transform_embed, Spec.curl_replicate_zero]

theorem memcpy_initCurl (n : Nat) : memcpy initCurl 0 (List.replicate n 0) = initCurl := by
  ext i hi
  rw [getElem_memcpy, if_pos (Nat.zero_le i), List.getElem?_replicate]
  simp only [initCurl, Vector.getElem_replicate]
  split <;> rfl

theorem absorbTrits_replicate (n : Nat) :
    absorbTrits initCurl (List.replicate (n * 243) 0) = initCurl := by
  induction n with
  | zero => rw [Nat.zero_mul, List.replicate_zero, absorbTrits_nil]
  | succ n ih =>
      rw [Nat.succ_mul, Nat.add_comm, List.replicate_add,
        absorbTrits_block _ _ List.length_replicate, memcpy_initCurl, transform_initCurl, ih]

theorem hashEndsInZeros_of_unpackTrytes {trytes : List Int8} (hvalid : trytes.all isTryte = true)
    {n : Nat} (hunpack : unpackTrytes trytes = List.replicate (n * 243) 0) (m : Nat) :
    HashEndsInZeros m trytes := by
  refine ⟨_, hashTrytes_of_valid hvalid, by simp, ?_⟩
  intro i _ hi
  rw [hunpack, absorbTrits_replicate, List.getElem?_take_of_lt hi, initCurl,
    Vector.toList_replicate, List.getElem?_replicate, if_pos (by omega)]

theorem hashEndsInZeros_nines (m : Nat) :
    HashEndsInZeros m (Vector.replicate 2673 (57 : Int8)).toList := by
  have hunpack : unpackTrytes (List.replicate 2673 57) = List.replicate (33 * 243) 0 :=
    unpackTrytes_replicate (by decide) 2673
  rw [← Vector.toList_replicate] at hunpack
  exact hashEndsInZeros_of_unpackTrytes nines_valid hunpack m

end zero

section blocks

variable {data : List Int8} (hvalid : data.all isTryte = true)

theorem all_take {p : Int8 → Bool} {list : List Int8} (h : list.all p = true) (k : Nat) :
    (list.take k).all p = true := by
  rw [List.all_eq_true] at h ⊢
  exact fun value hmem => h value (List.mem_of_mem_take hmem)

theorem all_drop {p : Int8 → Bool} {list : List Int8} (h : list.all p = true) (k : Nat) :
    (list.drop k).all p = true := by
  rw [List.all_eq_true] at h ⊢
  exact fun value hmem => h value (List.mem_of_mem_drop hmem)

def absorbed (data : List Int8) : CurlState :=
  absorbTrits initCurl (unpackTrytes (data.take 2592))

include hvalid

theorem drop_unpackTrytes (hlength : data.length = 2673) :
    (unpackTrytes data).drop 7776 = unpackTrytes (data.drop 2592) := by
  have hfirst : (unpackTrytes (data.take 2592)).length = 7776 := by
    rw [length_unpackTrytes (all_take hvalid _), List.length_take]
    omega
  conv_lhs => rw [← List.take_append_drop 2592 data]
  rw [unpackTrytes_append, List.drop_left' hfirst]

/-- The mid state is the absorbed state with the last block already in place. -/
theorem txToCstate_of_valid (hlength : data.length = 2673) :
    txToCstate ⟨data, .trytes⟩ =
      some (memcpy (absorbed data) 0 (unpackTrytes (data.drop 2592))) := by
  have hlast : (unpackTrytes (data.drop 2592)).length = 243 := by
    rw [length_unpackTrytes (all_drop hvalid _), List.length_drop]
    omega
  have htrits : (unpackTrytes data).length - (8019 - 243) = 243 := by
    rw [length_unpackTrytes hvalid]
    omega
  unfold txToCstate
  simp only [initTrytes_of_valid (all_take hvalid _), tritsFromTrytes_of_valid hvalid,
    absorb_of_valid _ (all_take hvalid _), htrits]
  rw [show 8019 - 243 = 7776 from rfl, drop_unpackTrytes hvalid hlength]
  apply congrArg some
  ext i hi
  rw [getElem_memcpy, getElem_memcpy, getElem_memcpy]
  by_cases hlt : i < 243
  · rw [if_neg (by omega), List.take_of_length_le hlast.le]
    simp only [Nat.zero_le, if_true, Nat.sub_zero]
    rw [List.getElem?_eq_getElem (by omega)]
    rfl
  · have hrest : (((absorbed data).toList.drop 243).take (729 - 243))[i - 243]? =
        some (absorbed data)[i] := by
      rw [List.getElem?_take_of_lt (by omega), List.getElem?_drop,
        show 243 + (i - 243) = i by omega]
      simp [hi]
    have hpast : (unpackTrytes (data.drop 2592))[i]? = none := List.getElem?_eq_none (by omega)
    unfold absorbed at hrest ⊢
    rw [if_pos (by omega), hrest]
    simp only [Nat.zero_le, if_true, Nat.sub_zero, hpast]
    rfl

theorem hashTrytes_splice (hlength : data.length = 2673) {last : List Int8}
    (hlast : last.all isTryte = true) (hlen : last.length = 81) :
    tritsFromTrytes (hashTrytes ⟨data.take 2592 ++ last, .trytes⟩) =
      some ⟨(transform (memcpy (absorbed data) 0 (unpackTrytes last))).toList.take 243,
        .trits⟩ := by
  have hfirst : (unpackTrytes (data.take 2592)).length % 243 = 0 := by
    rw [length_unpackTrytes (all_take hvalid _), List.length_take]
    omega
  have hblock : (unpackTrytes last).length = 243 := by
    rw [length_unpackTrytes hlast]
    omega
  have hall : (data.take 2592 ++ last).all isTryte = true := by
    rw [List.all_append, all_take hvalid, hlast]
    rfl
  have hone := absorbTrits_block (absorbed data) [] hblock
  rw [List.append_nil, absorbTrits_nil] at hone
  rw [hashTrytes_of_valid hall, unpackTrytes_append, absorbTrits_append _ _ _ hfirst,
    ← absorbed, hone]

/-- `tx_to_cstate` leaves the sponge where `hash_trytes` comes to the last block,
whatever that block is. -/
theorem hashTrytes_of_txToCstate (hlength : data.length = 2673) {last : List Int8}
    (hlast : last.all isTryte = true) (hlen : last.length = 81) :
    ∃ cState block, txToCstate ⟨data, .trytes⟩ = some cState ∧
      tritsFromTrytes (some ⟨last, .trytes⟩) = some block ∧ block.data.length = 243 ∧
      tritsFromTrytes (hashTrytes ⟨data.take 2592 ++ last, .trytes⟩) =
        some ⟨(transform (memcpy cState 0 block.data)).toList.take 243, .trits⟩ := by
  have hold : (unpackTrytes (data.drop 2592)).length = 243 := by
    rw [length_unpackTrytes (all_drop hvalid _), List.length_drop]
    omega
  have hnew : (unpackTrytes last).length = 243 := by
    rw [length_unpackTrytes hlast]
    omega
  refine ⟨_, _, txToCstate_of_valid hvalid hlength, tritsFromTrytes_of_valid hlast, hnew, ?_⟩
  rw [hashTrytes_splice hvalid hlength hlast hlen,
    memcpy_memcpy (absorbed data) 0 (hold.trans hnew.symm)]

theorem isTritState_cState (last : List Int8) (hlast : last.all isTryte = true) :
    IsTritState (memcpy (absorbed data) 0 (unpackTrytes last)) :=
  isTritState_memcpy 0
    (isTritState_absorbTrits isTritState_initCurl (all_isTrit_unpackTrytes (all_take hvalid _)))
    (all_isTrit_unpackTrytes hlast)

end blocks

theorem toList_nonceToResult {tx nonce : List Int8} (ret : Vector Int8 2673)
    (htx : tx.length = 2673) (hnonce : nonce.length = 27) :
    (nonceToResult ⟨tx, .trytes⟩ ⟨nonce, .trytes⟩ ret).toList = tx.take 2646 ++ nonce := by
  unfold nonceToResult
  simp only [htx, hnonce]
  apply List.ext_getElem
  · simp [htx, hnonce]
  · intro i hi hi'
    have hlt : i < 2673 := by simpa using hi
    rw [Vector.getElem_toList, getElem_memcpy, getElem_memcpy]
    by_cases hhead : i < 2646
    · rw [if_neg (by omega), if_pos (Nat.zero_le i), Nat.sub_zero,
        List.getElem?_take_of_lt hhead, List.getElem?_eq_getElem (by omega),
        List.getElem_append_left (by rw [List.length_take]; omega), List.getElem_take]
      rfl
    · rw [if_pos (by omega), List.getElem?_take_of_lt (by omega),
        List.getElem?_eq_getElem (by omega),
        List.getElem_append_right (by rw [List.length_take]; omega)]
      simp [htx]

section pieces

/-- The sponge can be fed in pieces, if all but the last are whole blocks; so the
mid state with any last block in place hashes as the transaction with that block. -/
theorem sponge_inPieces :
    (∀ (c : CurlState) (x y : List Int8), x.all isTryte = true → y.all isTryte = true →
      x.length % 81 = 0 →
        absorb c ⟨x ++ y, .trytes⟩ = absorb (absorb c ⟨x, .trytes⟩) ⟨y, .trytes⟩) ∧
    ∀ data last : List Int8, data.all isTryte = true → data.length = 2673 →
      last.all isTryte = true → last.length = 81 →
        ∃ cState block, txToCstate ⟨data, .trytes⟩ = some cState ∧
          tritsFromTrytes (some ⟨last, .trytes⟩) = some block ∧ block.data.length = 243 ∧
          tritsFromTrytes (hashTrytes ⟨data.take 2592 ++ last, .trytes⟩) =
            some ⟨(transform (memcpy cState 0 block.data)).toList.take 243, .trits⟩ :=
  ⟨fun c _ _ hx hy hblocks => absorb_append c hx hy hblocks,
    fun _ _ hdata hlength hlast hlen => hashTrytes_of_txToCstate hdata hlength hlast hlen⟩

/-- A block of 9s and one tryte more, and a transaction of 9s. -/
theorem sponge_inPieces_nines :
    absorb initCurl ⟨List.replicate 81 57 ++ [65], .trytes⟩ =
        absorb (absorb initCurl ⟨List.replicate 81 57, .trytes⟩) ⟨[65], .trytes⟩ ∧
      ∃ cState block, txToCstate ⟨List.replicate 2673 57, .trytes⟩ = some cState ∧
        tritsFromTrytes (some ⟨List.replicate 81 65, .trytes⟩) = some block ∧
        block.data.length = 243 ∧
        tritsFromTrytes (hashTrytes ⟨(List.replicate 2673 57).take 2592 ++ List.replicate 81 65,
            .trytes⟩) =
          some ⟨(transform (memcpy cState 0 block.data)).toList.take 243, .trits⟩ := by
  have hall : ∀ n, ∀ value : Int8, isTryte value = true →
      (List.replicate n value).all isTryte = true := by
    intro n value hvalue
    rw [List.all_eq_true]
    intro other hother
    rw [List.eq_of_mem_replicate hother]
    exact hvalue
  exact ⟨sponge_inPieces.1 initCurl (List.replicate 81 57) [65] (hall 81 57 rfl) rfl (by simp),
    sponge_inPieces.2 (List.replicate 2673 57) (List.replicate 81 65) (hall 2673 57 rfl)
      List.length_replicate (hall 81 65 rfl) List.length_replicate⟩

end pieces

end Dcurl
