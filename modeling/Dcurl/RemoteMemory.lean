import Dcurl.RemoteInterface
import Dcurl.TrinaryMemory

/-! What an attempt of `remote_interface.c` allocates and does not free. -/
namespace Dcurl.Memory

open Library

/-- Nothing is freed where the answer is accepted. -/
def powValidation (outputTrytes : Vector Int8 2673) (mwm : Nat) : Mem Bool := do
  let some trytes ← initTrytes (pure ()) outputTrytes.toList | return false
  let some hashedTrytes ← hashTrytes trytes
    | do
      freeTrinaryObject (some trytes)
      return false
  let retTrits ← tritsFromTrytes (some hashedTrytes)
  if mwm = 0 then return true
  touchObject retTrits
  let trits := (retTrits.map fun t => t.held.data).getD []
  if (List.range mwm).all fun k => trits[242 - k]? == some 0 then return true
  freeTrinaryObject retTrits
  freeTrinaryObject (some hashedTrytes)
  freeTrinaryObject (some trytes)
  return false

section attempt

variable {Queue : Type}

def publish (published : Bool) : Mem Bool := do
  let replyTo ← Mem.take
  if !published then return false
  Mem.give replyTo
  return true

def remoteDoPow (attempt : Attempt Queue) (ctx : PowRemoteContext) :
    Mem (Bool × PowRemoteContext) := do
  let some replyToQueue := attempt.declareCallbackQueue | return (false, ctx)
  let name ← Mem.take
  let published ← publish
    (attempt.publish replyToQueue (messageBytes attempt.buf ctx.inputTrytes ctx.mwm))
  if !published then return (false, ctx)
  let some answer := attempt.waitResponse replyToQueue | return (false, ctx)
  Mem.give name
  let ctx := { ctx with outputTrytes := answer }
  let _ ← powValidation ctx.outputTrytes ctx.mwm
  return (true, ctx)

/-- The blocks that an attempt leaves: the names that its failures do not free, or the
objects of a validation that accepts the answer. -/
def leaked (attempt : Attempt Queue) (ctx : PowRemoteContext) : Nat :=
  match attempt.declareCallbackQueue with
  | none => 0
  | some replyToQueue =>
      if attempt.publish replyToQueue (messageBytes attempt.buf ctx.inputTrytes ctx.mwm) then
        match attempt.waitResponse replyToQueue with
        | none => 1
        | some answer => if Dcurl.powValidation answer ctx.mwm then 6 else 0
      else 2

end attempt

section validation

variable {grants : Nat → Bool}

/-- The blocks that `pow_validation` leaves: none where it rejects the answer, and where it
accepts it three objects, of which the last may be `NULL`. -/
structure Validated (grants : Nat → Bool) (outputTrytes : Vector Int8 2673) (mwm : Nat)
    (accepted : Bool) (owned : Multiset Nat) : Prop where
  value : accepted = Dcurl.powValidation outputTrytes mwm ∨ Mem.Denied grants
  rejected : accepted = false → owned = 0
  leaked : accepted = true → owned.card = 6 ∨ Mem.Denied grants

theorem triple_powValidation (outputTrytes : Vector Int8 2673) (mwm : Nat) :
    Mem.Triple grants (Mem.Denied grants) 0 (powValidation outputTrytes mwm)
      (Validated grants outputTrytes mwm) := by
  apply (triple_initTrytes_local outputTrytes.toList).bind
  rintro (_ | trytes) _ ⟨rfl, htrytes⟩
  · refine .pure ⟨htrytes.imp_left fun heq => ?_, fun _ => rfl, by simp⟩
    have hnone : Dcurl.initTrytes outputTrytes.toList = none := heq.symm
    simp only [Dcurl.powValidation, hnone]
  apply (triple_hashTrytes trytes).bind
  rintro (_ | hashed) _ ⟨_, ⟨rfl, hhash⟩, rfl⟩
  · apply (triple_freeTrinaryObject (some trytes)).step _ (add_comm _ _)
    rintro _ _ rfl
    refine .pure ⟨?_, fun _ => rfl, by simp⟩
    refine htrytes.elim (fun heq => hhash.imp_left fun hnone => ?_) Or.inr
    have hinit : Dcurl.initTrytes outputTrytes.toList = some trytes.held := heq.symm
    have hnone : Dcurl.hashTrytes trytes.held = none := hnone.symm
    simp only [Dcurl.powValidation, hinit, hnone]
  apply (triple_tritsFromTrytes (some hashed)).step _ rfl
  rintro retTrits _ ⟨_, ⟨rfl, htrits⟩, rfl⟩
  have haccepts : (∃ t, retTrits = some t ∧ Dcurl.powValidation outputTrytes mwm =
      (List.range mwm).all fun k => t.held.data[242 - k]? == some 0) ∨ Mem.Denied grants := by
    refine htrytes.elim (fun heq => hhash.elim (fun hhash => htrits.imp_left fun htrits => ?_)
      Or.inr) Or.inr
    obtain ⟨hvalid, hheld⟩ := initTrytes_eq_some_iff.mp heq.symm
    have hhashed : Dcurl.hashTrytes trytes.held = some hashed.held := hhash.symm
    have hsome := hashTrytes_of_valid hvalid
    rw [← hheld, hhashed] at hsome
    cases retTrits with
    | none => cases htrits.trans hsome
    | some t =>
        have hret : Dcurl.tritsFromTrytes (some hashed.held) = some t.held := htrits.symm
        refine ⟨t, rfl, ?_⟩
        have hinit : Dcurl.initTrytes outputTrytes.toList = some trytes.held := heq.symm
        simp only [Dcurl.powValidation, hinit, hhashed, hret]
  have hleaked : (blocks retTrits + blocks (some hashed) + blocks (some trytes)).card = 6 ∨
      Mem.Denied grants := by
    refine haccepts.imp_left ?_
    rintro ⟨t, rfl, _⟩
    simp [blocks]
  apply Mem.Triple.ite
  · rintro rfl
    refine .pure ⟨haccepts.imp_left ?_, by simp, fun _ => hleaked⟩
    rintro ⟨t, _, hvalue⟩
    simp [hvalue]
  intro _
  have hle : blocks retTrits ≤ blocks retTrits + blocks (some hashed) + blocks (some trytes) :=
    (Multiset.le_add_right _ _).trans (Multiset.le_add_right _ _)
  have hnull : retTrits = none → Mem.Denied grants := by
    rintro rfl
    exact haccepts.resolve_left (by simp)
  apply (triple_touchObject hle hnull).bind
  rintro _ _ rfl
  apply Mem.Triple.ite
  · intro hzeros
    refine .pure ⟨haccepts.imp_left ?_, by simp, fun _ => hleaked⟩
    rintro ⟨t, rfl, hvalue⟩
    rw [hvalue]
    exact hzeros.symm
  intro hzeros
  apply (triple_freeTrinaryObject retTrits).release (add_assoc _ _ _)
  intro _
  apply (triple_freeTrinaryObject (some hashed)).release rfl
  intro _
  apply (triple_freeTrinaryObject (some trytes)).bind
  rintro _ _ rfl
  refine .pure ⟨haccepts.imp_left ?_, fun _ => rfl, by simp⟩
  rintro ⟨t, rfl, hvalue⟩
  rw [hvalue]
  simpa using hzeros

end validation

section leaks

variable {grants : Nat → Bool} {Queue : Type}

theorem card_block {p : Option Nat} (hdenied : p = none → Mem.Denied grants) :
    (Mem.block p).card = 1 ∨ Mem.Denied grants := by
  cases p with
  | none => exact Or.inr (hdenied rfl)
  | some p => exact Or.inl rfl

theorem triple_publish {allowed : Prop} (published : Bool) :
    Mem.Triple grants allowed 0 (publish published) fun result owned =>
      result = published ∧ (owned.card = (if published then 0 else 1) ∨ Mem.Denied grants) := by
  apply Mem.triple_take.bind
  rintro replyTo _ ⟨rfl, hdenied⟩
  cases published with
  | false => exact .pure ⟨rfl, card_block hdenied⟩
  | true => exact .give (add_zero _).symm (.pure ⟨rfl, Or.inl rfl⟩)

theorem triple_remoteDoPow (attempt : Attempt Queue) (ctx : PowRemoteContext) :
    Mem.Triple grants (Mem.Denied grants) 0 (remoteDoPow attempt ctx) fun result owned =>
      result = Dcurl.remoteDoPow attempt ctx ∧ owned.card = leaked attempt ctx ∨
        Mem.Denied grants := by
  unfold remoteDoPow Dcurl.remoteDoPow leaked
  cases attempt.declareCallbackQueue with
  | none => exact .pure (Or.inl ⟨rfl, rfl⟩)
  | some replyToQueue =>
      simp only
      generalize attempt.publish replyToQueue (messageBytes attempt.buf ctx.inputTrytes ctx.mwm) =
        published
      generalize attempt.waitResponse replyToQueue = response
      apply Mem.triple_take.bind
      rintro name _ ⟨rfl, hdenied⟩
      apply (triple_publish published).step (Mem.block name) (zero_add _).symm
      rintro result own ⟨heq, hown⟩
      subst heq
      cases result with
      | false =>
          refine .pure (hown.elim (fun hown => (card_block hdenied).imp_left fun hname => ?_)
            Or.inr)
          exact ⟨rfl, by simp [hown, hname]⟩
      | true =>
          cases response with
          | none =>
              refine .pure (hown.elim (fun hown => (card_block hdenied).imp_left fun hname => ?_)
                Or.inr)
              exact ⟨rfl, by simp [hown, hname]⟩
          | some answer =>
              apply Mem.Triple.give (add_comm _ _)
              apply (triple_powValidation answer ctx.mwm).step own (zero_add _).symm
              intro accepted left hvalidated
              refine .pure (hown.elim (fun hown => hvalidated.value.elim (fun hvalue => ?_) Or.inr)
                Or.inr)
              cases haccepted : accepted with
              | false =>
                  rw [haccepted] at hvalue
                  exact Or.inl ⟨rfl, by simp [hown, ← hvalue, hvalidated.rejected haccepted]⟩
              | true =>
                  rw [haccepted] at hvalue
                  refine (hvalidated.leaked haccepted).imp_left fun hleaked => ⟨rfl, ?_⟩
                  simp [hown, hleaked, ← hvalue]

/-- Attempts one after another, as they come. Where `malloc` never fails, each leaves its
blocks for good, and every answer that hashes as required leaves six. -/
theorem attempts_leak (grants : Nat → Bool) (hgrants : ∀ p, grants p = true)
    (attempts : List (Attempt Queue × PowRemoteContext)) (heap : Heap) :
    ∃ heap', (attempts.mapM' fun p => remoteDoPow p.1 p.2).run grants heap =
        some (attempts.map fun p => Dcurl.remoteDoPow p.1 p.2, heap') ∧
      heap.live ⊆ heap'.live ∧
      heap'.live.card = heap.live.card + (attempts.map fun p => leaked p.1 p.2).sum := by
  have hgranted : ¬Mem.Denied grants := by simp [Mem.Denied, hgrants]
  have hattempt : ∀ p : Attempt Queue × PowRemoteContext,
      Mem.Triple grants (Mem.Denied grants) 0 (remoteDoPow p.1 p.2) fun result owned =>
        result = Dcurl.remoteDoPow p.1 p.2 ∧ owned.card = leaked p.1 p.2 ∨ Mem.Denied grants :=
    fun p => triple_remoteDoPow p.1 p.2
  obtain ⟨_, hdenied⟩ | ⟨results, heap', owned, hrun, howned, hsubset, hcard⟩ :=
    (Mem.Triple.mapM hattempt attempts).grows heap
  · exact absurd hdenied hgranted
  · obtain ⟨rfl, hsum⟩ := howned.resolve_right hgranted
    exact ⟨heap', hrun, hsubset, hsum ▸ hcard⟩

theorem leaked_answering_none (ctx : PowRemoteContext) : leaked (answering none) ctx = 1 := by
  simp only [leaked, answering, if_true]

theorem leaked_answering (answer : Vector Int8 2673) (ctx : PowRemoteContext) :
    leaked (answering (some answer)) ctx = if Dcurl.powValidation answer ctx.mwm then 6 else 0 := by
  simp only [leaked, answering, if_true]

def attempts (answer : Vector Int8 2673) : List (Attempt Unit × PowRemoteContext) :=
  [(answering none, ⟨0, answer, answer, 14⟩), (answering (some answer), ⟨1, answer, answer, 14⟩)]

theorem attempts_leak_seven : ∃ results heap',
    ((attempts (Vector.replicate 2673 57)).mapM' fun p => remoteDoPow p.1 p.2).run
      (fun _ => true) ⟨∅, 0, by simp⟩ = some (results, heap') ∧ heap'.live.card = 7 := by
  have hvalid := Dcurl.nines_valid
  have hhash := hashEndsInZeros_nines 14
  generalize Vector.replicate 2673 (57 : Int8) = answer at hvalid hhash ⊢
  have haccepted : Dcurl.powValidation answer 14 = true :=
    (powValidation_iff (by decide)).mpr ⟨hvalid, hhash⟩
  obtain ⟨heap', hrun, _, hcard⟩ :=
    attempts_leak (fun _ => true) (fun _ => rfl) (attempts answer) ⟨∅, 0, by simp⟩
  have hsum : ((attempts answer).map fun p => leaked p.1 p.2).sum = 7 := by
    simp [attempts, leaked_answering_none, leaked_answering, haccepted]
  exact ⟨_, heap', hrun, by rw [hcard, hsum, Finset.card_empty]⟩

end leaks

end Dcurl.Memory
