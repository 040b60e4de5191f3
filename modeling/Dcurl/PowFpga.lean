import Dcurl.Exlib
import Dcurl.Library.Turn

/-! `pow_fpga.c`: an accelerator behind three device files. Only one call is let in at a
time, so the many calls of `write` and `read` that a search takes stay together. -/
namespace Dcurl.PowFpga

open Library

inductive File where
  | cpowCtrl
  | cpowIdata
  | cpowOdata

/-- What the accelerator and its registers answer. `write` tells whether it has not
failed, and `read` what it has stored, if it has not. -/
structure Device (State : Type) where
  lseek : File → State → State
  write : File → List Int8 → State → Bool × State
  read : File → Nat → State → Option (List Int8) × State
  cpowMap : State → Nat → UInt32

/-- `pow_fpga_context_t`, without what `pow_fpga_context_initialize` sets. -/
structure PowFpgaContext where
  indexOfContext : Nat
  inputTrytes : Vector Int8 2673
  outputTrytes : Vector Int8 2673
  mwm : Nat
  hashCount : UInt64

def intToString (i : Nat) : List Int8 :=
  [Int8.ofNat (i &&& 0xff), Int8.ofNat ((i >>> 8) &&& 0xff), Int8.ofNat ((i >>> 16) &&& 0xff),
    Int8.ofNat ((i >>> 24) &&& 0xff)]

/-- A call, with the bytes that `fpga_out_nonce_trit` happens to hold in it. -/
structure Call where
  request : Request
  fpgaOutNonceTrit : Vector Int8 81

def getPowContext (request : Request) (ctx : PowFpgaContext) : PowFpgaContext :=
  { ctx with
    inputTrytes := request.trytes
    mwm := request.mwm
    indexOfContext := 0 }

def finishFpga (nonceTrit : Vector Int8 81) (hashCount : UInt32) (ctx : PowFpgaContext) :
    Bool × PowFpgaContext :=
  match initTrits nonceTrit.toList with
  | none => (false, ctx)
  | some objectNonceTrit =>
      match trytesFromTrits (some objectNonceTrit) with
      | none => (false, ctx)
      | some nonceTryte =>
          let output := memcpy ctx.outputTrytes 0 (ctx.inputTrytes.toList.take (7938 / 3))
          (true, { ctx with
            hashCount := hashCount.toUInt64
            outputTrytes := memcpy output (7938 / 3) (nonceTryte.data.take ((8019 - 7938) / 3)) })

section device

variable {State : Type} (device : Device State)

def transfer (trits : List Int8) (mwm : Nat) (state : State) : Option (List Int8) × State :=
  let state := device.lseek .cpowIdata state
  let state := device.lseek .cpowCtrl state
  let state := device.lseek .cpowOdata state
  match device.write .cpowIdata trits state with
  | (false, state) => (none, state)
  | (true, state) =>
      match device.write .cpowCtrl (intToString mwm) state with
      | (false, state) => (none, state)
      | (true, state) =>
          match device.read .cpowCtrl 4 state with
          | (none, state) => (none, state)
          | (some _, state) => device.read .cpowOdata 81 state

def powFpga (fpgaOutNonceTrit : Vector Int8 81) (ctx : PowFpgaContext) (state : State) :
    Bool × PowFpgaContext × State :=
  match tritsFromTrytes (initTrytes ctx.inputTrytes.toList) with
  | none => (false, ctx, state)
  | some objectTrit =>
      match transfer device (objectTrit.data.take 8019) ctx.mwm state with
      | (none, state) => (false, ctx, state)
      | (some bytes, state) =>
          let nonceTrit := memcpy fpgaOutNonceTrit 0 bytes
          let (res, ctx) := finishFpga nonceTrit (device.cpowMap state 4) ctx
          (res, ctx, state)

def serve (call : Call) (resource : PowFpgaContext × State) :
    Option (Vector Int8 2673) × PowFpgaContext × State :=
  let (res, ctx, state) :=
    powFpga device call.fpgaOutNonceTrit (getPowContext call.request resource.1) resource.2
  (if res then some ctx.outputTrytes else none, ctx, state)

inductive Stage where
  | getPowContext
  | convert
  | lseek (files : List File) (objectTrit : TrinaryObject)
  | writeIdata (objectTrit : TrinaryObject)
  | writeCtrl
  | readCtrl
  | readOdata
  | finish (nonceTrit : Vector Int8 81)
  | getPowResult (res : Bool)

def step (call : Call) : Stage → PowFpgaContext × State →
    (Stage ⊕ Option (Vector Int8 2673)) × (PowFpgaContext × State)
  | .getPowContext, (ctx, state) =>
      (.inl .convert, (PowFpga.getPowContext call.request ctx, state))
  | .convert, (ctx, state) =>
      match tritsFromTrytes (initTrytes ctx.inputTrytes.toList) with
      | none => (.inl (.getPowResult false), (ctx, state))
      | some objectTrit =>
          (.inl (.lseek [.cpowIdata, .cpowCtrl, .cpowOdata] objectTrit), (ctx, state))
  | .lseek [] objectTrit, (ctx, state) => (.inl (.writeIdata objectTrit), (ctx, state))
  | .lseek (file :: files) objectTrit, (ctx, state) =>
      (.inl (.lseek files objectTrit), (ctx, device.lseek file state))
  | .writeIdata objectTrit, (ctx, state) =>
      match device.write .cpowIdata (objectTrit.data.take 8019) state with
      | (false, state) => (.inl (.getPowResult false), (ctx, state))
      | (true, state) => (.inl .writeCtrl, (ctx, state))
  | .writeCtrl, (ctx, state) =>
      match device.write .cpowCtrl (intToString ctx.mwm) state with
      | (false, state) => (.inl (.getPowResult false), (ctx, state))
      | (true, state) => (.inl .readCtrl, (ctx, state))
  | .readCtrl, (ctx, state) =>
      match device.read .cpowCtrl 4 state with
      | (none, state) => (.inl (.getPowResult false), (ctx, state))
      | (some _, state) => (.inl .readOdata, (ctx, state))
  | .readOdata, (ctx, state) =>
      match device.read .cpowOdata 81 state with
      | (none, state) => (.inl (.getPowResult false), (ctx, state))
      | (some bytes, state) =>
          (.inl (.finish (memcpy call.fpgaOutNonceTrit 0 bytes)), (ctx, state))
  | .finish nonceTrit, (ctx, state) =>
      let (res, ctx) := finishFpga nonceTrit (device.cpowMap state 4) ctx
      (.inl (.getPowResult res), (ctx, state))
  | .getPowResult res, (ctx, state) =>
      (.inr (if res then some ctx.outputTrytes else none), (ctx, state))

def work : Turn.Work Call (Option (Vector Int8 2673)) (Call × Stage) (PowFpgaContext × State) where
  enter call := (call, .getPowContext)
  step := fun (call, stage) resource =>
    match step device call stage resource with
    | (.inl stage, resource) => (.inl (call, stage), resource)
    | (.inr answer, resource) => (.inr answer, resource)

def Stage.rest : Stage → Nat
  | .getPowContext => 12
  | .convert => 11
  | .lseek files _ => files.length + 7
  | .writeIdata _ => 6
  | .writeCtrl => 5
  | .readCtrl => 4
  | .readOdata => 3
  | .finish _ => 2
  | .getPowResult _ => 1

end device

section turns

variable {State : Type} {device : Device State}

theorem rest_step {call : Call} {stage stage' : Stage} {resource resource' : PowFpgaContext × State}
    (hstep : step device call stage resource = (.inl stage', resource')) :
    stage'.rest < stage.rest := by
  obtain ⟨ctx, state⟩ := resource
  cases stage with
  | lseek files objectTrit =>
      cases files <;> cases hstep <;> simp [Stage.rest]
  | getPowContext =>
      cases hstep
      simp [Stage.rest]
  | finish nonceTrit =>
      cases hstep
      simp [Stage.rest]
  | getPowResult res => cases hstep
  | _ =>
      simp only [step] at hstep
      split at hstep <;> cases hstep <;> simp [Stage.rest]

theorem work_shrinks : (work device).Shrinks fun local' => local'.2.rest := by
  rintro ⟨call, stage⟩ resource ⟨call', stage'⟩ resource' hwork
  simp only [work] at hwork
  split at hwork
  · rename_i hstep
    cases hwork
    exact rest_step hstep
  · cases hwork

theorem run_succ (call : Call) (stage : Stage) (resource : PowFpgaContext × State) (n : Nat) :
    (work device).run (n + 1) (call, stage) resource =
      match step device call stage resource with
      | (.inl stage, resource) => (work device).run n (call, stage) resource
      | (.inr answer, resource) => some (answer, resource) := by
  simp only [Turn.Work.run, work]
  rcases step device call stage resource with ⟨stage' | answer, resource'⟩ <;> rfl

/-- A call that is alone does what the functions do one after another. -/
theorem run_work (call : Call) (resource : PowFpgaContext × State) :
    (work device).run 13 ((work device).enter call) resource =
      some (serve device call resource) := by
  obtain ⟨ctx, state⟩ := resource
  unfold serve powFpga transfer
  change (work device).run 13 (call, .getPowContext) (ctx, state) = _
  simp only
  generalize hctx : getPowContext call.request ctx = filled
  rw [run_succ]
  simp only [step, hctx]
  rw [run_succ]
  cases hconvert : tritsFromTrytes (initTrytes filled.inputTrytes.toList) with
  | none =>
      simp only [step, hconvert]
      rfl
  | some objectTrit =>
      simp only [step, hconvert]
      iterate 4
        rw [run_succ]
        simp only [step]
      rw [run_succ]
      generalize device.lseek .cpowOdata (device.lseek .cpowCtrl (device.lseek .cpowIdata state)) =
        rewound
      rcases hin : device.write .cpowIdata (objectTrit.data.take 8019) rewound with ⟨_ | _, written⟩
      · simp only [step, hin]
        rfl
      simp only [step, hin]
      rw [run_succ]
      rcases hctrl : device.write .cpowCtrl (intToString filled.mwm) written with ⟨_ | _, asked⟩
      · simp only [step, hctrl]
        rfl
      simp only [step, hctrl]
      rw [run_succ]
      rcases hstatus : device.read .cpowCtrl 4 asked with ⟨_ | _, ended⟩
      · simp only [step, hstatus]
        rfl
      simp only [step, hstatus]
      rw [run_succ]
      rcases hout : device.read .cpowOdata 81 ended with ⟨_ | _, last⟩
      · simp only [step, hout]
        rfl
      simp only [step, hout]
      rw [run_succ]
      simp only [step]
      rw [run_succ]
      simp only [step]

variable {n : Nat} {calls : Fin n → Call} {ctx : PowFpgaContext} {state : State}
  {schedule : List (Fin n)}
  {pool : Pool n (Turn.Party Call (Option (Vector Int8 2673)) (Call × Stage))
    (Turn.Shared (PowFpgaContext × State))}

/-- What a call has returned is what it would have returned alone. -/
theorem eq_serve_of_run
    (hrun : Machine.run (Pool.step (Turn.program (work device))) (Turn.start calls (ctx, state))
      schedule = some pool) {t : Fin n} {answer : Option (Vector Int8 2673)}
    (hanswer : (pool.threads t).answer? = some answer) :
    ∃ resource, answer = (serve device (calls t) resource).1 := by
  obtain ⟨first, last, hends⟩ := Turn.ends_run hrun hanswer
  exact ⟨first, congrArg Prod.fst (hends.eq_of_run (run_work (calls t) first)).symm⟩

/-- For any accelerator and under every interleaving of the calls on it: what a call returns
is what the three functions return that nobody disturbs, on its own request, and all calls
come to their ends. -/
theorem calls_undisturbed (device : Device State) (calls : Fin n → Call) (ctx : PowFpgaContext)
    (state : State) (schedule : List (Fin n))
    (pool : Pool n (Turn.Party Call (Option (Vector Int8 2673)) (Call × Stage))
      (Turn.Shared (PowFpgaContext × State)))
    (hrun : Machine.run (Pool.step (Turn.program (work device))) (Turn.start calls (ctx, state))
      schedule = some pool) :
    (∀ t answer, (pool.threads t).answer? = some answer →
      ∃ resource, answer = (serve device (calls t) resource).1) ∧
    schedule.length ≤ 15 * n ∧
    ∃ more final, Machine.run (Pool.step (Turn.program (work device))) pool more = some final ∧
      ∀ t, ∃ answer, final.threads t = .ended (calls t) answer := by
  refine ⟨fun t answer hanswer => eq_serve_of_run hrun hanswer, ?_,
    Turn.exists_ended work_shrinks (Turn.inv_run hrun)⟩
  have hlength := Turn.length_run_le work_shrinks hrun
  simpa [work, Stage.rest, mul_comm] using hlength

end turns

section search

def weightOf (bytes : List Int8) : Nat :=
  bytes.foldr (fun byte weight => byte.toUInt8.toNat + 256 * weight) 0

theorem toNat_byte (i : Nat) : (Int8.ofNat (i &&& 0xff)).toUInt8.toNat = i % 256 := by
  rw [show i &&& 0xff = i % 2 ^ 8 from Nat.and_two_pow_sub_one_eq_mod i 8]
  exact (UInt8.toNat_ofNat').trans (by omega)

theorem weightOf_intToString (i : Nat) : weightOf (intToString i) = i % 2 ^ 32 := by
  simp only [weightOf, intToString, List.foldr_cons, List.foldr_nil, toNat_byte,
    Nat.shiftRight_eq_div_pow]
  omega

def HashesTo (weight : Nat) (trits : List Int8) : Prop :=
  ∀ i (hi : i < 729), 243 - weight ≤ i → i < 243 → (absorbTrits initCurl trits)[i] = 0

instance (weight : Nat) (trits : List Int8) : Decidable (HashesTo weight trits) :=
  Nat.decidableBallLT 729 fun i _ =>
    243 - weight ≤ i → i < 243 → (absorbTrits initCurl trits)[i] = 0

variable {State : Type} {device : Device State}

def Device.rewind (device : Device State) (state : State) : State :=
  device.lseek .cpowOdata (device.lseek .cpowCtrl (device.lseek .cpowIdata state))

/-- What the accelerator is for: when its files have taken the trits of a transaction and a
weight and give a nonce, the trits with this nonce hash as required. -/
structure Device.Sound (device : Device State) : Prop where
  length_eq : ∀ state status ended nonce last,
    device.read .cpowCtrl 4 state = (some status, ended) →
    device.read .cpowOdata 81 ended = (some nonce, last) → nonce.length = 81
  hash : ∀ state trits written weight asked status ended nonce last,
    trits.length = 8019 → trits.all isTrit = true →
    device.write .cpowIdata trits (device.rewind state) = (true, written) →
    device.write .cpowCtrl weight written = (true, asked) →
    device.read .cpowCtrl 4 asked = (some status, ended) →
    device.read .cpowOdata 81 ended = (some nonce, last) → nonce.all isTrit = true →
      HashesTo (weightOf weight) (trits.take 7938 ++ nonce)

theorem tritsFromTrytes_eq_some {trytes : List Int8} {trits : TrinaryObject}
    (h : tritsFromTrytes (initTrytes trytes) = some trits) :
    trytes.all isTryte = true ∧ trits.data = unpackTrytes trytes := by
  cases hinit : initTrytes trytes with
  | none =>
      rw [hinit] at h
      cases h
  | some object =>
      obtain ⟨hvalid, rfl⟩ := initTrytes_eq_some_iff.mp hinit
      rw [hinit, tritsFromTrytes_of_valid hvalid] at h
      cases h
      exact ⟨hvalid, rfl⟩

theorem transfer_eq_some {trits nonce : List Int8} {mwm : Nat} {state last : State}
    (h : transfer device trits mwm state = (some nonce, last)) :
    ∃ written asked status ended,
      device.write .cpowIdata trits (device.rewind state) = (true, written) ∧
      device.write .cpowCtrl (intToString mwm) written = (true, asked) ∧
      device.read .cpowCtrl 4 asked = (some status, ended) ∧
      device.read .cpowOdata 81 ended = (some nonce, last) := by
  unfold transfer at h
  simp only at h
  split at h
  · cases h
  rename_i written hin
  split at h
  · cases h
  rename_i asked hctrl
  split at h
  · cases h
  rename_i status ended hstatus
  exact ⟨written, asked, status, ended, hin, hctrl, hstatus, h⟩

theorem powFpga_eq_true {stack : Vector Int8 81} {ctx ctx' : PowFpgaContext} {state last : State}
    (h : powFpga device stack ctx state = (true, ctx', last)) :
    ∃ objectTrit written asked status ended nonce,
      tritsFromTrytes (initTrytes ctx.inputTrytes.toList) = some objectTrit ∧
      device.write .cpowIdata (objectTrit.data.take 8019) (device.rewind state) =
        (true, written) ∧
      device.write .cpowCtrl (intToString ctx.mwm) written = (true, asked) ∧
      device.read .cpowCtrl 4 asked = (some status, ended) ∧
      device.read .cpowOdata 81 ended = (some nonce, last) ∧
      finishFpga (memcpy stack 0 nonce) (device.cpowMap last 4) ctx = (true, ctx') := by
  unfold powFpga at h
  split at h
  · cases h
  rename_i objectTrit hconvert
  rcases htransfer : transfer device (objectTrit.data.take 8019) ctx.mwm state with
    ⟨_ | nonce, final⟩
  · simp [htransfer] at h
  rw [htransfer] at h
  rcases hfinish : finishFpga (memcpy stack 0 nonce) (device.cpowMap final 4) ctx with ⟨res, left⟩
  simp only [hfinish] at h
  cases h
  obtain ⟨written, asked, status, ended, hin, hctrl, hstatus, hout⟩ := transfer_eq_some htransfer
  exact ⟨objectTrit, written, asked, status, ended, nonce, hconvert, hin, hctrl, hstatus, hout,
    hfinish⟩

theorem finishFpga_eq_true {nonceTrit : Vector Int8 81} {hashCount : UInt32}
    {ctx ctx' : PowFpgaContext} (h : finishFpga nonceTrit hashCount ctx = (true, ctx')) :
    nonceTrit.toList.all isTrit = true ∧ ctx'.outputTrytes.toList =
      ctx.inputTrytes.toList.take 2646 ++ packTrits nonceTrit.toList := by
  unfold finishFpga at h
  cases hinit : initTrits nonceTrit.toList with
  | none =>
      rw [hinit] at h
      cases h
  | some object =>
      obtain ⟨htrits, rfl⟩ := initTrits_eq_some_iff.mp hinit
      simp only [hinit, trytesFromTrits_of_valid (by simp) htrits] at h
      cases h
      have hlength : (packTrits nonceTrit.toList).length = 27 := by simp [length_packTrits]
      have hresult := toList_nonceToResult ctx.outputTrytes
        (Vector.length_toList : ctx.inputTrytes.toList.length = 2673) hlength
      simp only [nonceToResult, Vector.length_toList, hlength] at hresult
      exact ⟨htrits, hresult⟩

theorem hashEndsInZeros_of_hashesTo {weight : Nat} {trytes : List Int8}
    (hvalid : trytes.all isTryte = true) (h : HashesTo weight (unpackTrytes trytes)) :
    HashEndsInZeros weight trytes := by
  refine ⟨_, hashTrytes_of_valid hvalid, by simp, ?_⟩
  intro i hle hlt
  have hget := h i (by omega) hle hlt
  simp [hlt, hget]

theorem served_of_serve (hsound : device.Sound) {call : Call} (hmwm : call.request.mwm ≤ 243)
    {resource : PowFpgaContext × State} {res : Vector Int8 2673}
    (h : (serve device call resource).1 = some res) :
    call.request.trytes.toList.all isTryte = true ∧ call.request.SolvedBy res := by
  obtain ⟨ctx, state⟩ := resource
  unfold serve at h
  rcases hpow : powFpga device call.fpgaOutNonceTrit (getPowContext call.request ctx) state with
    ⟨_ | _, ctx', last⟩
  · simp [hpow] at h
  simp only [hpow, if_true, Option.some.injEq] at h
  obtain ⟨objectTrit, written, asked, status, ended, nonce, hconvert, hin, hctrl, hstatus, hout,
    hfinish⟩ := powFpga_eq_true hpow
  obtain ⟨hvalid, hdata⟩ := tritsFromTrytes_eq_some hconvert
  obtain ⟨htrits, houtput⟩ := finishFpga_eq_true hfinish
  have hinput : (getPowContext call.request ctx).inputTrytes = call.request.trytes := rfl
  rw [hinput] at hvalid hdata houtput
  rw [h] at houtput
  have hlength : (unpackTrytes call.request.trytes.toList).length = 8019 := by
    rw [length_unpackTrytes hvalid, Vector.length_toList]
  have hnonce := toList_memcpy_full call.fpgaOutNonceTrit (hsound.length_eq _ _ _ _ _ hstatus hout)
  rw [hnonce] at htrits houtput
  obtain ⟨hpacked, hunpack⟩ :=
    packTrits_spec (by simp [hsound.length_eq _ _ _ _ _ hstatus hout]) htrits
  rw [hdata, List.take_of_length_le hlength.le] at hin
  have hhash := hsound.hash _ _ _ _ _ _ _ _ _ hlength (all_isTrit_unpackTrytes hvalid) hin hctrl
    hstatus hout htrits
  have hweight : weightOf (intToString (getPowContext call.request ctx).mwm) =
      call.request.mwm := by
    rw [weightOf_intToString]
    exact Nat.mod_eq_of_lt (hmwm.trans_lt (by decide))
  have hhead : (unpackTrytes call.request.trytes.toList).take 7938 =
      unpackTrytes (call.request.trytes.toList.take 2646) :=
    take_unpackTrytes hvalid (show 2646 ≤ _ by simp)
  rw [hweight, hhead, ← hunpack, ← unpackTrytes_append, ← houtput] at hhash
  refine ⟨hvalid, ?_, hashEndsInZeros_of_hashesTo ?_ hhash⟩
  · rw [houtput, List.take_left' (by simp)]
  · rw [houtput, List.all_append, all_take hvalid, hpacked]
    rfl

/-- With an accelerator that does what it is for, every result that any of the calls gets,
under every interleaving, solves the call's own request. -/
theorem calls_solved {n : Nat} (device : Device State) (hsound : device.Sound)
    (calls : Fin n → Call) (hmwm : ∀ t, (calls t).request.mwm ≤ 243) (ctx : PowFpgaContext)
    (state : State) (schedule : List (Fin n))
    (pool : Pool n (Turn.Party Call (Option (Vector Int8 2673)) (Call × Stage))
      (Turn.Shared (PowFpgaContext × State)))
    (hrun : Machine.run (Pool.step (Turn.program (work device))) (Turn.start calls (ctx, state))
      schedule = some pool) (t : Fin n) (res : Vector Int8 2673)
    (hanswer : (pool.threads t).answer? = some (some res)) :
    (calls t).request.trytes.toList.all isTryte = true ∧ (calls t).request.SolvedBy res := by
  obtain ⟨resource, hserve⟩ := eq_serve_of_run hrun hanswer
  exact served_of_serve hsound (hmwm t) hserve.symm

end search

section witness

/-- An accelerator that has one guess, which it checks. It keeps the trits and the weight. -/
def guessDevice : Device (List Int8 × List Int8) where
  lseek _ state := state
  write file bytes state :=
    match file with
    | .cpowIdata => (true, (bytes, state.2))
    | .cpowCtrl => (true, (state.1, bytes))
    | .cpowOdata => (true, state)
  read file _ state :=
    match file with
    | .cpowOdata =>
        (if HashesTo (weightOf state.2) (state.1.take 7938 ++ List.replicate 81 0)
          then some (List.replicate 81 0) else none, state)
    | _ => (some [], state)
  cpowMap _ _ := 0

theorem guessDevice_sound : guessDevice.Sound where
  length_eq := by
    intro state status ended nonce last hstatus hout
    cases hstatus
    simp only [guessDevice, Prod.mk.injEq, Option.ite_none_right_eq_some, Option.some.injEq]
      at hout
    simp [← hout.1.2]
  hash := by
    intro state trits written weight asked status ended nonce last _ _ hin hctrl hstatus hout _
    cases hin
    cases hctrl
    cases hstatus
    simp only [guessDevice, Prod.mk.injEq, Option.ite_none_right_eq_some, Option.some.injEq]
      at hout
    obtain ⟨⟨hguess, rfl⟩, _⟩ := hout
    exact hguess

/-- A request of weight 14 and one of weight 0, on different transactions. -/
def lettersCalls (t : Fin 2) : Call :=
  ⟨if t = 0 then nines else ⟨Vector.replicate 2673 77, 0, 0⟩, Vector.replicate 81 0⟩

theorem lettersCalls_valid (t : Fin 2) :
    (lettersCalls t).request.trytes.toList.all isTryte = true := by
  by_cases hfirst : t = 0
  · rw [lettersCalls, if_pos hfirst]
    exact almostNines_valid
  · rw [lettersCalls, if_neg hfirst, Vector.toList_replicate, List.all_replicate]
    rfl

theorem lettersCalls_mwm (t : Fin 2) : (lettersCalls t).request.mwm ≤ 243 := by
  by_cases hfirst : t = 0 <;> simp [lettersCalls, hfirst, nines]

theorem exists_lettersCalls_run : ∃ schedule pool,
    Machine.run (Pool.step (Turn.program (work guessDevice)))
        (Turn.start lettersCalls (⟨0, nines.trytes, nines.trytes, 0, 0⟩, ([], []))) schedule =
          some pool ∧
      ∀ t, ∃ answer, pool.threads t = .ended (lettersCalls t) answer :=
  Turn.exists_ended work_shrinks (Turn.inv_start _ _)

theorem calls_undisturbed_nines : ∃ schedule pool,
    Machine.run (Pool.step (Turn.program (work guessDevice)))
        (Turn.start lettersCalls (⟨0, nines.trytes, nines.trytes, 0, 0⟩, ([], []))) schedule =
          some pool ∧
      schedule.length ≤ 15 * 2 ∧ ∀ t, ∃ resource answer,
        pool.threads t = .ended (lettersCalls t) answer ∧
          answer = (serve guessDevice (lettersCalls t) resource).1 := by
  obtain ⟨schedule, pool, hrun, hover⟩ := exists_lettersCalls_run
  obtain ⟨hserve, hlength, _⟩ := calls_undisturbed guessDevice lettersCalls _ _ schedule pool hrun
  refine ⟨schedule, pool, hrun, hlength, fun t => ?_⟩
  obtain ⟨answer, hanswer⟩ := hover t
  obtain ⟨resource, heq⟩ := hserve t answer (by rw [hanswer]; rfl)
  exact ⟨resource, answer, hanswer, heq⟩

theorem hashesTo_guess (t : Fin 2) : HashesTo (lettersCalls t).request.mwm
    ((unpackTrytes (lettersCalls t).request.trytes.toList).take 7938 ++ List.replicate 81 0) := by
  by_cases hfirst : t = 0
  · have hvalid : (lettersCalls t).request.trytes = almostNines := by
      rw [lettersCalls, if_pos hfirst]
      rfl
    have hhead : almostNines.toList.take 2646 = List.replicate 2646 57 := by
      rw [almostNines, Vector.toList_set, Vector.toList_replicate, List.take_set_of_le (by decide),
        List.take_replicate]
      rfl
    have hunpack : unpackTrytes (List.replicate 2646 57) = List.replicate (2646 * 3) 0 :=
      unpackTrytes_replicate (by decide) 2646
    have hblocks : List.replicate (2646 * 3) (0 : Int8) ++ List.replicate 81 0 =
        List.replicate (33 * 243) 0 := List.replicate_append_replicate
    rw [hvalid, take_unpackTrytes almostNines_valid (show 2646 ≤ _ by simp), hhead, hunpack,
      hblocks]
    intro i hi _ _
    rw [absorbTrits_replicate, initCurl, Vector.getElem_replicate]
  · have hmwm : (lettersCalls t).request.mwm = 0 := by
      rw [lettersCalls, if_neg hfirst]
    intro i _ hle hlt
    omega

theorem isSome_serve {call : Call} (hvalid : call.request.trytes.toList.all isTryte = true)
    (hmwm : call.request.mwm ≤ 243) (hguess : HashesTo call.request.mwm
      ((unpackTrytes call.request.trytes.toList).take 7938 ++ List.replicate 81 0))
    (resource : PowFpgaContext × List Int8 × List Int8) :
    (serve guessDevice call resource).1.isSome = true := by
  obtain ⟨ctx, state⟩ := resource
  have hweight : weightOf (intToString call.request.mwm) = call.request.mwm := by
    rw [weightOf_intToString]
    exact Nat.mod_eq_of_lt (hmwm.trans_lt (by decide))
  have htake : (unpackTrytes call.request.trytes.toList).take 8019 =
      unpackTrytes call.request.trytes.toList := by
    apply List.take_of_length_le
    rw [length_unpackTrytes hvalid, Vector.length_toList]
  have hnonce := toList_memcpy_full call.fpgaOutNonceTrit
    (List.length_replicate : (List.replicate 81 (0 : Int8)).length = 81)
  have htrits : (List.replicate 81 (0 : Int8)).all isTrit = true := by decide
  simp [-List.reduceReplicate, serve, powFpga, transfer, getPowContext, guessDevice,
    initTrytes_of_valid hvalid, tritsFromTrytes_of_valid hvalid, hweight, htake, hguess,
    finishFpga, hnonce, initTrits_of_valid htrits, trytesFromTrits_of_valid _ htrits]

/-- Both calls are answered, each with a solution of its own transaction. -/
theorem calls_solved_letters : ∃ schedule pool,
    Machine.run (Pool.step (Turn.program (work guessDevice)))
        (Turn.start lettersCalls (⟨0, nines.trytes, nines.trytes, 0, 0⟩, ([], []))) schedule =
          some pool ∧
      ∀ t, ∃ res, (pool.threads t).answer? = some (some res) ∧
        (lettersCalls t).request.SolvedBy res := by
  obtain ⟨schedule, pool, hrun, hover⟩ := exists_lettersCalls_run
  refine ⟨schedule, pool, hrun, fun t => ?_⟩
  obtain ⟨answer, hanswer⟩ := hover t
  have hsome : (pool.threads t).answer? = some answer := by
    rw [hanswer]
    rfl
  obtain ⟨resource, heq⟩ := eq_serve_of_run hrun hsome
  obtain ⟨res, hres⟩ :=
    Option.isSome_iff_exists.mp
      (isSome_serve (lettersCalls_valid t) (lettersCalls_mwm t) (hashesTo_guess t) resource)
  rw [heq, hres] at hsome
  have hsolved := calls_solved guessDevice guessDevice_sound lettersCalls
    lettersCalls_mwm _ _ schedule pool hrun t res hsome
  exact ⟨res, hsome, hsolved.2⟩

end witness

end Dcurl.PowFpga
