import Dcurl.EntryServes
import Dcurl.TrinaryMemory

/-! What the drivers allocate and free, on every path to their ends and whatever `malloc`
answers. -/
namespace Dcurl.Memory

open Library

def txToCstateFail (inn tr : Option Object) (c : Option Curl) (cState : Option Nat) :
    Mem (Option (Nat × CurlState)) := do
  freeTrinaryObject inn
  freeTrinaryObject tr
  freeCurl c
  Mem.give cState
  return none

def txToCstate (tx : Object) : Mem (Option (Nat × CurlState)) := do
  let c ← initCurl
  let block ← Mem.take
  let some c := c | txToCstateFail none none none block
  let some cState := block | txToCstateFail none none (some c) none
  touchObject (some tx)
  let some inn ← initTrytes (pure ()) (tx.held.data.take (2673 - 81))
    | txToCstateFail none none (some c) (some cState)
  let c ← absorb c (some inn)
  let some tr ← tritsFromTrytes (some tx)
    | txToCstateFail (some inn) none (some c) (some cState)
  touchObject c.state
  let len := tr.held.data.length - (8019 - 243)
  let state : CurlState :=
    memcpy (Vector.replicate 729 0) 0 ((tr.held.data.drop (8019 - 243)).take len)
  let state := memcpy state len ((c.value.toList.drop len).take (729 - len))
  freeTrinaryObject (some inn)
  freeTrinaryObject (some tr)
  freeCurl (some c)
  return some (cState, state)

def powFail (cState : Option Nat) (tx nonceTrit nonceTryte : Option Object) : Mem Unit := do
  Mem.give cState
  freeTrinaryObject tx
  freeTrinaryObject nonceTrit
  freeTrinaryObject nonceTryte

/-- A driver; `uvRun` is what the threads leave when they have ended. -/
def pow (ctx : PowContext) (uvRun : CurlState → Bool × (Fin ctx.numThreads → WorkItem)) :
    Mem (Bool × PowContext) := do
  let start := { ctx with stopPow := false, hashCount := 0 }
  let some tx ← initTrytes (pure ()) ctx.inputTrytes.toList | return (false, start)
  let some (block, cState) ← txToCstate tx
    | do
      powFail none (some tx) none none
      return (false, start)
  Mem.touch (some block)
  let (stopPow, pitem) := uvRun cState
  let ctx := { start with
    nonceArray := Vector.ofFn fun i => (pitem i).nonce
    stopPow := stopPow
    hashCount := totalHashCount pitem }
  let some nonce := readNonce pitem (completedIndex pitem) | Mem.wrong
  let some nonceTrit ← initTrits (pure ()) nonce.toList
    | do
      powFail (some block) (some tx) none none
      return (false, ctx)
  let some nonceTryte ← trytesFromTrits (some nonceTrit)
    | do
      powFail (some block) (some tx) (some nonceTrit) none
      return (false, ctx)
  touchObject (some tx)
  touchObject (some nonceTryte)
  let ctx := { ctx with outputTrytes := nonceToResult tx.held nonceTryte.held ctx.outputTrytes }
  powFail (some block) (some tx) (some nonceTrit) (some nonceTryte)
  return (true, ctx)

section state

variable {grants : Nat → Bool} {rest : Multiset Nat}

def curlBlocks : Option Curl → Multiset Nat
  | none => 0
  | some c => c.blocks

theorem triple_freeCurlBlocks (c : Option Curl) :
    Mem.Triple grants (Mem.Denied grants) (curlBlocks c) (freeCurl c) fun _ owned => owned = 0 := by
  cases c with
  | none => exact .pure rfl
  | some c => exact triple_freeCurl c

structure ReturnsState (grants : Nat → Bool) (expected : Option CurlState)
    (r : Option (Nat × CurlState)) (owned : Multiset Nat) : Prop where
  owned_eq : owned = Mem.block (r.map Prod.fst)
  value : r.map Prod.snd = expected ∨ Mem.Denied grants

theorem triple_txToCstateFail (inn tr : Option Object) (c : Option Curl) (cState : Option Nat)
    {expected : Option CurlState} (hfails : expected = none ∨ Mem.Denied grants) :
    Mem.Triple grants (Mem.Denied grants)
      (blocks inn + (blocks tr + (curlBlocks c + (Mem.block cState + rest))))
      (txToCstateFail inn tr c cState)
      fun r owned => ∃ own, ReturnsState grants expected r own ∧ owned = own + rest := by
  apply (triple_freeTrinaryObject inn).release rfl
  intro _
  apply (triple_freeTrinaryObject tr).release rfl
  intro _
  apply (triple_freeCurlBlocks c).release rfl
  intro _
  apply Mem.Triple.give rfl
  exact .pure ⟨0, ⟨rfl, hfails.imp_left Eq.symm⟩, (zero_add rest).symm⟩

theorem triple_txToCstate (tx : Object) :
    Mem.Triple grants (Mem.Denied grants) (blocks (some tx)) (txToCstate tx) fun r owned =>
      ∃ own, ReturnsState grants (Dcurl.txToCstate tx.held) r own ∧
        owned = own + blocks (some tx) := by
  apply triple_initCurl.step (blocks (some tx)) (zero_add _).symm
  rintro c own ⟨hnone, hsome⟩
  have hown : own = curlBlocks c := by
    cases c with
    | none => exact (hnone rfl).1
    | some c => exact (hsome c rfl).owned_eq
  subst hown
  apply Mem.Triple.take
  · intro hdenied
    cases c with
    | none =>
        refine .of_eq ?_ (triple_txToCstateFail none none none none (Or.inr hdenied))
        simp [blocks, curlBlocks, Mem.block]
    | some c =>
        refine .of_eq ?_ (triple_txToCstateFail none none (some c) none (Or.inr hdenied))
        simp [blocks, Mem.block]
  intro block
  cases c with
  | none =>
      refine .of_eq ?_ (triple_txToCstateFail none none none (some block) (Or.inr (hnone rfl).2))
      simp [blocks, curlBlocks, Mem.block]
  | some c =>
      have hc := hsome c rfl
      apply touchObject_bind ((Multiset.le_add_left _ _).trans (Multiset.le_add_left _ _))
      apply (triple_initTrytes_local (tx.held.data.take (2673 - 81))).step _ (zero_add _).symm
      rintro (_ | inn) _ ⟨rfl, hinn⟩
      · refine .of_eq ?_ (triple_txToCstateFail none none (some c) (some block)
          (hinn.imp_left fun heq => ?_))
        · simp only [blocks, Mem.block]
          abel
        · have hnone : Dcurl.initTrytes (tx.held.data.take (2673 - 81)) = none := heq.symm
          simp [Dcurl.txToCstate, hnone]
      apply Mem.Triple.of_eq (show _ = blocks (some inn) + c.blocks +
        ({block} + blocks (some tx)) by
          simp only [curlBlocks]
          abel)
      apply (triple_absorb inn hc).step _ rfl
      rintro c' _ ⟨own, hc', rfl⟩
      apply (triple_tritsFromTrytes (some tx)).step (own + blocks (some inn) + {block}) (by abel)
      rintro (_ | tr) _ ⟨_, ⟨rfl, htr⟩, rfl⟩
      · refine .of_eq ?_ (triple_txToCstateFail (some inn) none (some c') (some block)
          (htr.imp_left fun heq => ?_))
        · simp only [blocks, curlBlocks, Mem.block, hc'.owned_eq]
          abel
        · have hnone : Dcurl.tritsFromTrytes (some tx.held) = none := heq.symm
          simp only [Dcurl.txToCstate, hnone]
          split <;> rfl
      have hstate : blocks c'.state ≤
          blocks (some tr) + blocks (some tx) + (own + blocks (some inn) + {block}) := by
        rw [add_assoc own, add_left_comm, add_comm own, ← add_assoc]
        exact hc'.state_le _
      apply (triple_touchObject hstate hc'.denied).bind
      intro _ owned howned
      apply (triple_freeTrinaryObject (some inn)).step
        (blocks (some tr) + (c'.blocks + ({block} + blocks (some tx)))) (by
          rw [howned, hc'.owned_eq]
          abel)
      rintro _ _ rfl
      rw [zero_add]
      apply (triple_freeTrinaryObject (some tr)).release rfl
      intro _
      apply (triple_freeCurl c').release rfl
      intro _
      refine .pure ⟨{block}, ⟨rfl, ?_⟩, rfl⟩
      obtain hinn | hdenied := hinn
      · obtain htr | hdenied := htr
        · obtain ⟨_, hvalue⟩ | hdenied := hc'.value
          · have hinit : Dcurl.initTrytes (tx.held.data.take (2673 - 81)) = some inn.held :=
              hinn.symm
            have htrits : Dcurl.tritsFromTrytes (some tx.held) = some tr.held := htr.symm
            left
            simp only [Dcurl.txToCstate, hinit, htrits, hvalue, Option.map_some]
          · exact Or.inr hdenied
        · exact Or.inr hdenied
      · exact Or.inr hdenied

end state

section driver

variable {grants : Nat → Bool} {allowed : Prop} {rest : Multiset Nat} {ctx : PowContext}
  {uvRun : CurlState → Bool × (Fin ctx.numThreads → WorkItem)}

def outcome (ctx : PowContext) (uvRun : CurlState → Bool × (Fin ctx.numThreads → WorkItem)) :
    Outcome :=
  let start := { ctx with stopPow := false, hashCount := 0 }
  match Dcurl.initTrytes ctx.inputTrytes.toList with
  | none => .returned false start
  | some tx =>
      match Dcurl.txToCstate tx with
      | none => .returned false start
      | some cState => finish start tx (uvRun cState).1 (uvRun cState).2

def threadsLeave {w : Nat} (backend : Backend w) (ctx : PowContext)
    (schedule : List (Fin ctx.numThreads)) (cState : CurlState) :
    Bool × (Fin ctx.numThreads → WorkItem) :=
  let ended := (backend.runPool ctx.mwm cState ctx.nonceArray schedule).bind fun pool =>
    (Backend.collect pool).map fun pitem => (pool.shared, pitem)
  ended.getD (false, fun _ => ⟨0, 0, Vector.replicate 81 0⟩)

theorem outcome_of_pow {w : Nat} {backend : Backend w} {schedule : List (Fin ctx.numThreads)}
    {result : Outcome} (hpow : backend.pow ctx schedule = some result) :
    outcome ctx (threadsLeave backend ctx schedule) = result := by
  unfold Backend.pow at hpow
  unfold outcome
  cases htx : Dcurl.initTrytes ctx.inputTrytes.toList with
  | none =>
      rw [htx] at hpow
      exact Option.some.inj hpow
  | some tx =>
      cases hstate : Dcurl.txToCstate tx with
      | none =>
          simp only [htx, hstate] at hpow
          simp only [hstate]
          exact Option.some.inj hpow
      | some cState =>
          simp only [htx, hstate] at hpow
          obtain ⟨pool, hpool, hmap⟩ := Option.bind_eq_some_iff.mp hpow
          obtain ⟨pitem, hpitem, hfinish⟩ := Option.map_eq_some_iff.mp hmap
          simp only [hstate, threadsLeave, hpool, Option.bind_some, hpitem, Option.map_some,
            Option.getD_some]
          exact hfinish

theorem triple_powFail {cState : Option Nat} {tx nonceTrit nonceTryte : Option Object} {α : Type}
    {a : α} {post : α → Multiset Nat → Prop} (hpost : post a 0) :
    Mem.Triple grants allowed
      (Mem.block cState + (blocks tx + (blocks nonceTrit + blocks nonceTryte)))
      (do
        powFail cState tx nonceTrit nonceTryte
        return a) post := by
  have hfree : Mem.Triple grants allowed
      (Mem.block cState + (blocks tx + (blocks nonceTrit + blocks nonceTryte)))
      (powFail cState tx nonceTrit nonceTryte) fun _ owned => owned = 0 := by
    apply Mem.Triple.give rfl
    apply (triple_freeTrinaryObject tx).release rfl
    intro _
    apply (triple_freeTrinaryObject nonceTrit).release rfl
    intro _
    exact triple_freeTrinaryObject nonceTryte
  exact hfree.release (add_zero _).symm fun _ => .pure hpost

/-- Every path through a driver frees what it has allocated. -/
theorem triple_pow :
    Mem.Triple grants (Mem.Denied grants ∨ ∃ index, outcome ctx uvRun = .outOfBounds index) 0
      (pow ctx uvRun) fun r owned => owned = 0 ∧
        (outcome ctx uvRun = .returned r.1 r.2 ∨ Mem.Denied grants) := by
  apply (triple_initTrytes_local ctx.inputTrytes.toList).bind
  rintro (_ | tx) _ ⟨rfl, htx⟩
  · refine .pure ⟨rfl, htx.imp_left fun heq => ?_⟩
    have hnone : Dcurl.initTrytes ctx.inputTrytes.toList = none := heq.symm
    simp only [outcome, hnone]
  apply ((triple_txToCstate tx).mono Or.inl fun _ _ h => h).bind
  rintro (_ | ⟨block, cState⟩) _ ⟨_, ⟨rfl, hstate⟩, rfl⟩
  · refine .of_eq ?_ (triple_powFail ⟨rfl, ?_⟩)
    · simp [Mem.block, blocks]
    obtain htx | hdenied := htx
    · refine hstate.imp_left fun heq => ?_
      have hsome : Dcurl.initTrytes ctx.inputTrytes.toList = some tx.held := htx.symm
      have hnone : Dcurl.txToCstate tx.held = none := heq.symm
      simp only [outcome, hsome, hnone]
    · exact Or.inr hdenied
  apply Mem.Triple.touch (by simp [Mem.block])
  have hfinish : outcome ctx uvRun = finish { ctx with stopPow := false, hashCount := 0 } tx.held
      (uvRun cState).1 (uvRun cState).2 ∨ Mem.Denied grants := by
    obtain htx | hdenied := htx
    · refine hstate.imp_left fun heq => ?_
      have hsome : Dcurl.initTrytes ctx.inputTrytes.toList = some tx.held := htx.symm
      have hcState : Dcurl.txToCstate tx.held = some cState := heq.symm
      simp only [outcome, hsome, hcState]
    · exact Or.inr hdenied
  rcases huv : uvRun cState with ⟨stopPow, pitem⟩
  rw [huv] at hfinish
  simp only
  cases hnonce : readNonce pitem (completedIndex pitem) with
  | none =>
      refine Mem.triple_wrong (hfinish.symm.imp_right fun heq => ⟨completedIndex pitem, ?_⟩)
      simp only [heq, finish, hnonce]
  | some nonce =>
      apply (triple_initTrits_local nonce.toList).step _ (zero_add _).symm
      rintro (_ | nonceTrit) _ ⟨rfl, htrit⟩
      · refine .of_eq ?_ (triple_powFail ⟨rfl, ?_⟩)
        · simp [blocks, Mem.block]
        obtain heq | hdenied := hfinish
        · refine htrit.imp_left fun hnone => ?_
          have hinit : Dcurl.initTrits nonce.toList = none := hnone.symm
          simp only [heq, finish, hnonce, hinit]
        · exact Or.inr hdenied
      apply ((triple_trytesFromTrits (some nonceTrit)).mono Or.inl fun _ _ h => h).step _ rfl
      rintro (_ | nonceTryte) _ ⟨_, ⟨rfl, htryte⟩, rfl⟩
      · refine .of_eq ?_ (triple_powFail ⟨rfl, ?_⟩)
        · simp only [blocks, Mem.block, Option.map_some]
          abel
        obtain heq | hdenied := hfinish
        · obtain htrit | hdenied := htrit
          · refine htryte.imp_left fun hnone => ?_
            have hinit : Dcurl.initTrits nonce.toList = some nonceTrit.held := htrit.symm
            have hpack : Dcurl.trytesFromTrits (some nonceTrit.held) = none := hnone.symm
            simp only [heq, finish, hnonce, hinit, hpack]
          · exact Or.inr hdenied
        · exact Or.inr hdenied
      apply touchObject_bind
      · exact (Multiset.le_add_left _ _).trans (Multiset.le_add_left _ _)
      apply touchObject_bind
      · exact (Multiset.le_add_right _ _).trans (Multiset.le_add_right _ _)
      refine .of_eq ?_ (triple_powFail ⟨rfl, ?_⟩)
      · simp only [blocks, Mem.block, Option.map_some]
        abel
      obtain heq | hdenied := hfinish
      · obtain htrit | hdenied := htrit
        · refine htryte.imp_left fun hpack => ?_
          have hinit : Dcurl.initTrits nonce.toList = some nonceTrit.held := htrit.symm
          have hpack : Dcurl.trytesFromTrits (some nonceTrit.held) = some nonceTryte.held :=
            hpack.symm
          simp only [heq, finish, hnonce, hinit, hpack]
        · exact Or.inr hdenied
      · exact Or.inr hdenied

/-- `n` is -1 in no work item that the threads leave. -/
def NoneRecorded (ctx : PowContext) (uvRun : CurlState → Bool × (Fin ctx.numThreads → WorkItem)) :
    Prop :=
  ∃ tx cState, Dcurl.initTrytes ctx.inputTrytes.toList = some tx ∧
    Dcurl.txToCstate tx = some cState ∧ ∀ i, ((uvRun cState).2 i).n ≠ -1

theorem noneRecorded_of_outcome {index : Int} (h : outcome ctx uvRun = .outOfBounds index) :
    NoneRecorded ctx uvRun := by
  unfold outcome at h
  cases htx : Dcurl.initTrytes ctx.inputTrytes.toList with
  | none =>
      rw [htx] at h
      cases h
  | some tx =>
      rw [htx] at h
      cases hstate : Dcurl.txToCstate tx with
      | none =>
          simp only [hstate] at h
          cases h
      | some cState =>
          refine ⟨tx, cState, htx, hstate, fun i hi => ?_⟩
          have ⟨found, _, hindex⟩ := completedIndex_eq_of_exists (uvRun cState).2 ⟨i, hi⟩
          simp only [hstate, finish, hindex, readNonce_of_fin] at h
          split at h
          · cases h
          · split at h <;> cases h

theorem outcome_of_noneRecorded (h : NoneRecorded ctx uvRun) :
    outcome ctx uvRun = .outOfBounds (-1) := by
  have ⟨tx, cState, htx, hstate, hnone⟩ := h
  simp only [outcome, htx, hstate]
  exact Backend.finish_of_none_recorded _ tx _ (not_exists.mpr hnone)

/-- Whatever `malloc` answers and whatever the threads leave, a driver that comes back has
given all of its blocks back. It does not come back only if a block was denied or no thread
has recorded success. -/
theorem pow_frees (ctx : PowContext) :
    (∀ (uvRun : CurlState → Bool × (Fin ctx.numThreads → WorkItem)) (grants : Nat → Bool)
        (heap : Heap),
      ((pow ctx uvRun).run grants heap = none ∧ (Mem.Denied grants ∨ NoneRecorded ctx uvRun)) ∨
      ∃ returned heap', (pow ctx uvRun).run grants heap = some (returned, heap') ∧
        heap'.live = heap.live ∧
        (outcome ctx uvRun = .returned returned.1 returned.2 ∨ Mem.Denied grants)) ∧
    ∀ {w : Nat} (backend : Backend w) (schedule : List (Fin ctx.numThreads)) (result : Outcome),
      backend.pow ctx schedule = some result →
        outcome ctx (threadsLeave backend ctx schedule) = result := by
  refine ⟨fun uvRun grants heap => ?_, fun _ _ _ => outcome_of_pow⟩
  obtain ⟨hwrong, hwhy⟩ | hreturns := triple_pow.balanced heap
  · exact Or.inl ⟨hwrong, hwhy.imp_right fun ⟨_, hindex⟩ => noneRecorded_of_outcome hindex⟩
  · exact Or.inr hreturns

/-- A driver that finds a nonce, with every block granted. -/
theorem pow_frees_nines : ∃ schedule returned heap',
    (pow (PowContext.almostNines 2)
      (threadsLeave PowC.backend (PowContext.almostNines 2) schedule)).run (fun _ => true)
        ⟨∅, 0, by simp⟩ = some (returned, heap') ∧ heap'.live = ∅ ∧ returned.1 = true := by
  have hfindable : (PowContext.almostNines 2).Findable PowC.backend :=
    ⟨PowC.almostZero, PowContext.startsAt_almostNines 2,
      succeedsAlone_almostZero PowC.faithful (PowC.tryBatch_almostZero 14)⟩
  obtain ⟨schedule, ctx', hpow⟩ := exists_pow_returned PowC.lawful PowC.faithful
    (PowContext.almostNines_valid (by decide)) hfindable
  have hgranted : ¬Mem.Denied fun _ => true := by simp [Mem.Denied]
  obtain ⟨hfrees, houtcome⟩ := pow_frees (PowContext.almostNines 2)
  have hresult := houtcome PowC.backend schedule _ hpow
  obtain ⟨_, hdenied | hnone⟩ | ⟨returned, heap', hrun, hlive, hreturned⟩ :=
    hfrees (threadsLeave PowC.backend _ schedule) (fun _ => true) ⟨∅, 0, by simp⟩
  · exact absurd hdenied hgranted
  · rw [outcome_of_noneRecorded hnone] at hresult
    cases hresult
  · have heq := hreturned.resolve_right hgranted
    rw [hresult] at heq
    injection heq with hdone
    exact ⟨schedule, returned, heap', hrun, hlive, hdone.symm⟩

end driver

end Dcurl.Memory
