import Dcurl.CpuContext
import Dcurl.TrinaryBuild

/-! `remote_interface.c`, and the remote branch of `dcurl_entry` for one call.
What the broker does is an argument. -/
namespace Dcurl

structure PowRemoteContext where
  indexOfContext : Nat
  inputTrytes : Vector Int8 2673
  outputTrytes : Vector Int8 2673
  mwm : Nat

structure RemoteImplContext where
  context : Nat → PowRemoteContext
  slots : Nat → Bool
  numMaxThread : Int
  numWorkingThread : Int

/-- What one attempt meets: the bytes that `buf` happens to hold, and what the
broker does on the connection of the context. A wait that succeeds leaves the
answer in `output_trytes`. -/
structure Attempt (Queue : Type) where
  buf : Vector Int8 4
  declareCallbackQueue : Option Queue
  publish : Queue → List Int8 → Bool
  waitResponse : Queue → Option (Vector Int8 2673)

/-- In the scalar build. The loop runs over the trits `242 - k` for `k < mwm`. -/
def powValidation (outputTrytes : Vector Int8 2673) (mwm : Nat) : Bool :=
  match initTrytes outputTrytes.toList with
  | none => false
  | some trytes =>
      match hashTrytes trytes with
      | none => false
      | some hashedTrytes =>
          match tritsFromTrytes (some hashedTrytes) with
          | none => false
          | some retTrits => (List.range mwm).all fun k => retTrits.data[242 - k]? == some 0

def decimal (mwm : Nat) : List Int8 := (Nat.toDigits 10 mwm).map fun c => Int8.ofNat c.toNat

def printMwm (buf : Vector Int8 4) (mwm : Nat) : Vector Int8 4 :=
  memcpy buf 0 ((decimal mwm).take 3 ++ [0])

/-- The transaction and the weight, up to the first NUL: `amqp_cstring_bytes` of
`messagebody`. -/
def messageBytes (buf : Vector Int8 4) (inputTrytes : Vector Int8 2673) (mwm : Nat) : List Int8 :=
  (inputTrytes.toList ++ (printMwm buf mwm).toList).takeWhile (· ≠ 0)

section functions

variable {Queue : Type}

def remoteDoPow (attempt : Attempt Queue) (ctx : PowRemoteContext) : Bool × PowRemoteContext :=
  match attempt.declareCallbackQueue with
  | none => (false, ctx)
  | some replyToQueue =>
      if attempt.publish replyToQueue (messageBytes attempt.buf ctx.inputTrytes ctx.mwm) then
        match attempt.waitResponse replyToQueue with
        | none => (false, ctx)
        | some answer =>
            let ctx := { ctx with outputTrytes := answer }
            -- The source calls `pow_validation` for its log line and drops the result.
            let _ := powValidation ctx.outputTrytes ctx.mwm
            (true, ctx)
      else (false, ctx)

def enterRemoteContext (remote : RemoteImplContext) : Option RemoteImplContext :=
  if remote.numWorkingThread ≥ remote.numMaxThread then none
  else some { remote with numWorkingThread := remote.numWorkingThread + 1 }

def exitRemoteContext (remote : RemoteImplContext) : RemoteImplContext :=
  { remote with numWorkingThread := remote.numWorkingThread - 1 }

def RemoteImplContext.putContext (remote : RemoteImplContext) (i : Nat) (ctx : PowRemoteContext) :
    RemoteImplContext :=
  { remote with context := Function.update remote.context i ctx }

def getRemoteContext (request : Request) (remote : RemoteImplContext) :
    Option (Nat × RemoteImplContext) :=
  ((List.range remote.numMaxThread.toNat).find? fun i => !remote.slots i).map fun i =>
    (i, { remote with slots := Function.update remote.slots i true }.putContext i
      { remote.context i with
        inputTrytes := request.trytes
        mwm := request.mwm
        indexOfContext := i })

def freeRemoteContext (remote : RemoteImplContext) (i : Nat) : RemoteImplContext :=
  { remote with slots := Function.update remote.slots (remote.context i).indexOfContext false }

/-- The remote branch: none while the call waits for a context, and no result
where it goes on to `local_pow`. -/
def remoteBranch (attempt : Attempt Queue) (request : Request) (remote : RemoteImplContext) :
    Option (Option (Vector Int8 2673) × RemoteImplContext) :=
  (enterRemoteContext remote).bind fun remote =>
    (getRemoteContext request remote).map fun (i, remote) =>
      let (done, ctx) := remoteDoPow attempt (remote.context i)
      let remote := remote.putContext i ctx
      let res := if done then some (remote.context i).outputTrytes else none
      (res, exitRemoteContext (freeRemoteContext remote i))

def dcurlEntryRemote (attempt : Attempt Queue)
    (localPow : Request → Option (Vector Int8 2673)) (request : Request)
    (remote : RemoteImplContext) : Option (Option (Vector Int8 2673) × RemoteImplContext) :=
  (remoteBranch attempt request remote).map fun (res, remote) =>
    match res with
    | some res => (some res, remote)
    | none => (localPow request, remote)

end functions

section powValidation

variable {outputTrytes : Vector Int8 2673} {mwm : Nat}

theorem all_range_iff (trits : List Int8) (hmwm : mwm ≤ 243) :
    ((List.range mwm).all fun k => trits[242 - k]? == some 0) = true ↔
      ∀ i, 243 - mwm ≤ i → i < 243 → trits[i]? = some 0 := by
  rw [List.all_eq_true]
  constructor
  · intro hall i hi hi'
    have hk := hall (242 - i) (List.mem_range.mpr (by omega))
    rw [show 242 - (242 - i) = i by omega] at hk
    exact beq_iff_eq.mp hk
  · intro hzero k hk
    have hlt := List.mem_range.mp hk
    exact beq_iff_eq.mpr (hzero (242 - k) (by omega) (by omega))

/-- What `pow_validation` accepts are the solutions. -/
theorem powValidation_iff (hmwm : mwm ≤ 243) :
    powValidation outputTrytes mwm = true ↔
      outputTrytes.toList.all isTryte = true ∧ HashEndsInZeros mwm outputTrytes.toList := by
  by_cases hvalid : outputTrytes.toList.all isTryte = true
  · have htrits := hashTrytes_of_valid hvalid
    have hlength : ((absorbTrits initCurl (unpackTrytes outputTrytes.toList)).toList.take
        243).length = 243 := by
      simp
    unfold powValidation HashEndsInZeros
    rw [initTrytes_of_valid hvalid]
    cases hhash : hashTrytes ⟨outputTrytes.toList, .trytes⟩ with
    | none =>
        rw [hhash] at htrits
        cases htrits
    | some hashedTrytes =>
        rw [hhash] at htrits
        simp only [hhash, htrits]
        rw [all_range_iff _ hmwm]
        constructor
        · intro hzero
          exact ⟨hvalid, _, rfl, hlength, hzero⟩
        · intro ⟨_, trits, heq, _, hzero⟩
          cases heq
          exact hzero
  · have hinit : initTrytes outputTrytes.toList = none := by
      rw [Option.eq_none_iff_forall_ne_some]
      intro object hobject
      exact hvalid (initTrytes_eq_some_iff.mp hobject).1
    unfold powValidation
    simp only [hinit, Bool.false_eq_true, false_iff, not_and]
    intro hall
    exact absurd hall hvalid

end powValidation

section remoteBranch

variable {Queue : Type} (attempt : Attempt Queue) (request : Request)

def Attempt.answer : Option (Vector Int8 2673) :=
  attempt.declareCallbackQueue.bind fun replyToQueue =>
    if attempt.publish replyToQueue (messageBytes attempt.buf request.trytes request.mwm) then
      attempt.waitResponse replyToQueue
    else none

def RemoteImplContext.fresh (context : Nat → PowRemoteContext) : RemoteImplContext :=
  ⟨context, fun _ => false, 20, 0⟩

variable {attempt request} {remote after : RemoteImplContext} {res : Option (Vector Int8 2673)}

theorem remoteDoPow_eq (request : Request) {ctx : PowRemoteContext}
    (htrytes : ctx.inputTrytes = request.trytes) (hmwm : ctx.mwm = request.mwm) :
    remoteDoPow attempt ctx =
      match attempt.answer request with
      | none => (false, ctx)
      | some answer => (true, { ctx with outputTrytes := answer }) := by
  unfold remoteDoPow Attempt.answer
  rw [htrytes, hmwm]
  cases attempt.declareCallbackQueue with
  | none => rfl
  | some replyToQueue =>
      simp only [Option.bind_some]
      split
      · cases attempt.waitResponse replyToQueue <;> rfl
      · rfl

theorem remoteBranch_eq_some (h : remoteBranch attempt request remote = some (res, after)) :
    res = attempt.answer request ∧ after.slots = remote.slots ∧
      after.numWorkingThread = remote.numWorkingThread := by
  unfold remoteBranch at h
  have ⟨entered, henter, hmap⟩ := Option.bind_eq_some_iff.mp h
  have ⟨(i, held), hget, hrest⟩ := Option.map_eq_some_iff.mp hmap
  unfold enterRemoteContext at henter
  split at henter
  · cases henter
  · cases henter
    unfold getRemoteContext at hget
    have ⟨i', hfind, heq⟩ := Option.map_eq_some_iff.mp hget
    have hfree : remote.slots i' = false := by simpa using List.find?_some hfind
    cases heq
    have hslots : Function.update (Function.update remote.slots i true) i false = remote.slots := by
      rw [Function.update_idem, ← hfree, Function.update_eq_self]
    simp only [RemoteImplContext.putContext, Function.update_self] at hrest
    rw [remoteDoPow_eq request rfl rfl] at hrest
    cases hanswer : attempt.answer request with
    | none =>
        simp only [hanswer] at hrest
        cases hrest
        refine ⟨rfl, ?_, Int.add_sub_cancel ..⟩
        simpa [exitRemoteContext, freeRemoteContext] using hslots
    | some answer =>
        simp only [hanswer] at hrest
        cases hrest
        refine ⟨?_, ?_, Int.add_sub_cancel ..⟩
        · simp
        · simpa [exitRemoteContext, freeRemoteContext] using hslots

theorem remoteBranch_fresh (attempt : Attempt Queue) (request : Request)
    (context : Nat → PowRemoteContext) :
    ∃ after, remoteBranch attempt request (.fresh context) =
      some (attempt.answer request, after) := by
  have hsome : ∃ res after, remoteBranch attempt request (.fresh context) = some (res, after) :=
    ⟨_, _, rfl⟩
  have ⟨res, after, h⟩ := hsome
  exact ⟨after, (remoteBranch_eq_some h).1 ▸ h⟩

end remoteBranch

section verified

variable {Queue : Type}

def TrinaryBuild.powValidation (build : TrinaryBuild) (outputTrytes : Vector Int8 2673)
    (mwm : Nat) : Bool :=
  match build.initTrytes outputTrytes.toList with
  | none => false
  | some trytes =>
      match build.hashTrytes trytes with
      | none => false
      | some hashedTrytes =>
          match build.tritsFromTrytes (some hashedTrytes) with
          | none => false
          | some retTrits => (List.range mwm).all fun k => retTrits.data[242 - k]? == some 0

theorem TrinaryBuild.powValidation_of_valid (build : TrinaryBuild)
    {outputTrytes : Vector Int8 2673} (mwm : Nat) (h : outputTrytes.toList.all isTryte = true) :
    build.powValidation outputTrytes mwm = Dcurl.powValidation outputTrytes mwm := by
  have htrits := Dcurl.hashTrytes_of_valid h
  unfold TrinaryBuild.powValidation Dcurl.powValidation
  rw [build.initTrytes_of_valid h, Dcurl.initTrytes_of_valid h]
  simp only [build.hashTrytes_of_valid h]
  cases hhash : Dcurl.hashTrytes ⟨outputTrytes.toList, .trytes⟩ with
  | none => rfl
  | some hashedTrytes =>
      rw [hhash] at htrits
      obtain ⟨data, type⟩ := hashedTrytes
      have hvalid : TrinaryObject.IsTrytes ⟨data, type⟩ := by
        by_contra hinvalid
        have hnone := (tritsFromTrytes_eq_none_iff (some ⟨data, type⟩)).mpr fun trytes htrytes =>
          Option.some.inj htrytes ▸ hinvalid
        rw [hnone] at htrits
        cases htrits
      have hdata := all_isTryte_iff.mpr hvalid.2
      obtain rfl : type = .trytes := hvalid.1
      simp only [build.tritsFromTrytes_of_valid hdata, Dcurl.tritsFromTrytes_of_valid hdata]

/-- No answer reaches the caller that is no solution; one that `pow_validation`
rejects leaves the request to the local path. -/
structure HandsOutVerified (build : TrinaryBuild) (attempt : Attempt Queue) (request : Request) :
    Prop where
  verified : ∀ remote res after, remoteBranch attempt request remote = some (some res, after) →
    res.toList.all isTryte = true ∧ HashEndsInZeros request.mwm res.toList
  rejected : ∀ answer, attempt.answer request = some answer →
    build.powValidation answer request.mwm = false →
      ∀ localPow remote res after,
        dcurlEntryRemote attempt localPow request remote = some (res, after) →
          res = localPow request ∧ after.slots = remote.slots ∧
            after.numWorkingThread = remote.numWorkingThread

/-- In every build the remote branch keeps its promise exactly where the broker
delivers nothing but trytes whose hash ends in the zeros asked for. -/
theorem handsOutVerified_iff (build : TrinaryBuild) (attempt : Attempt Queue) (request : Request)
    (hmwm : request.mwm ≤ 243) :
    HandsOutVerified build attempt request ↔
      ∀ answer, attempt.answer request = some answer →
        answer.toList.all isTryte = true ∧ HashEndsInZeros request.mwm answer.toList := by
  constructor
  · intro h answer hanswer
    have ⟨after, hbranch⟩ := remoteBranch_fresh attempt request
      fun _ => ⟨0, request.trytes, request.trytes, 0⟩
    rw [hanswer] at hbranch
    exact h.verified _ _ _ hbranch
  · intro hsolves
    constructor
    · intro remote res after hbranch
      exact hsolves res (remoteBranch_eq_some hbranch).1.symm
    · intro answer hanswer hrejected
      have haccepted : build.powValidation answer request.mwm = true := by
        rw [build.powValidation_of_valid _ (hsolves answer hanswer).1]
        exact (powValidation_iff hmwm).mpr (hsolves answer hanswer)
      rw [haccepted] at hrejected
      cases hrejected

def zeroRequest : Request := ⟨Vector.replicate 2673 57, 14, 0⟩

def answering (waitResponse : Option (Vector Int8 2673)) : Attempt Unit :=
  ⟨Vector.replicate 4 0, some (), fun _ _ => true, fun _ => waitResponse⟩

/-- The transaction of 9s solves itself. -/
theorem handsOutVerified_iff_nines :
    HandsOutVerified .sse42 (answering (some (Vector.replicate 2673 57))) zeroRequest := by
  refine (handsOutVerified_iff .sse42 (answering (some (Vector.replicate 2673 57))) zeroRequest
    (by decide)).mpr fun answer hanswer => ?_
  cases hanswer
  exact ⟨nines_valid, hashEndsInZeros_nines 14⟩

/-- 2673 NUL bytes are handed out as a result. -/
theorem not_handsOutVerified_nul :
    ¬∃ build, HandsOutVerified build (answering (some (Vector.replicate 2673 0))) zeroRequest := by
  intro ⟨build, h⟩
  have ⟨after, hbranch⟩ := remoteBranch_fresh
    (answering (some (Vector.replicate 2673 0))) zeroRequest
    fun _ => ⟨0, zeroRequest.trytes, zeroRequest.trytes, 0⟩
  have hvalid := (h.verified _ _ _ hbranch).1
  rw [Vector.toList_replicate, List.all_eq_true] at hvalid
  exact absurd (hvalid 0 (List.mem_replicate.mpr ⟨by decide, rfl⟩)) (by decide)

end verified

end Dcurl
