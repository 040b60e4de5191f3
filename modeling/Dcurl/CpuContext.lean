import Dcurl.Pow
import Dcurl.ImplContext

/-! The contexts of `pow_c`, `pow_sse` and `pow_avx` as implementations of
`impl_context_t`. They share their text. -/
namespace Dcurl

structure CpuContext where
  numMaxThreads : Int
  numThreads : Int
  inputTrytes : Vector Int8 2673
  outputTrytes : Vector Int8 2673
  mwm : Nat
  nonceArray : Nat → Vector Int8 81
  stopPow : Bool
  hashCount : UInt64

namespace CpuContext

def powContext (ctx : CpuContext) : PowContext where
  numThreads := ctx.numThreads.toNat
  inputTrytes := ctx.inputTrytes
  outputTrytes := ctx.outputTrytes
  mwm := ctx.mwm
  nonceArray := Vector.ofFn fun i => ctx.nonceArray i
  stopPow := ctx.stopPow
  hashCount := ctx.hashCount

def store (ctx : CpuContext) (left : PowContext) : CpuContext :=
  { ctx with
    outputTrytes := left.outputTrytes
    nonceArray := fun i => left.nonceArray[i]?.getD (ctx.nonceArray i)
    stopPow := left.stopPow
    hashCount := left.hashCount }

def fill (request : Request) (ctx : CpuContext) : CpuContext :=
  { ctx with
    inputTrytes := request.trytes
    mwm := request.mwm
    numThreads :=
      if request.threads > 0 ∧ request.threads < ctx.numMaxThreads then request.threads
      else ctx.numMaxThreads }

end CpuContext

namespace Backend

variable {w : Nat} (backend : Backend w)

def scheduleOf (threads : Nat) (choice : List Nat) : List (Fin threads) :=
  choice.filterMap fun t => if h : t < threads then some ⟨t, h⟩ else none

/-- The driver on a context; none where it does not end or is not defined. -/
def powOn (choice : List Nat) (ctx : CpuContext) : Option (Bool × CpuContext) :=
  match backend.pow ctx.powContext (scheduleOf _ choice) with
  | none => none
  | some (.outOfBounds _) => none
  | some (.returned result left) => some (result, ctx.store left)

def cpuFunctions : PowFunctions CpuContext (List Nat) where
  checks numMaxThread nproc := !(numMaxThread ≤ 0 || nproc ≤ 0)
  setUp nproc ctx := { ctx with numMaxThreads := nproc }
  fill := CpuContext.fill
  doThePow := backend.powOn
  getPowResult := CpuContext.outputTrytes

end Backend

/-- The implementation is a CPU back end. Its contexts are seen through `view`, since
a build may have implementations with other ones. -/
structure PowFunctions.IsBackend {Ctx Choice : Type} {w : Nat}
    (functions : PowFunctions Ctx Choice) (backend : Backend w) (view : Ctx → CpuContext)
    (choose : Choice → List Nat) : Prop where
  fill : ∀ request ctx, view (functions.fill request ctx) = (view ctx).fill request
  doThePow : ∀ choice ctx, (functions.doThePow choice ctx).map (Prod.map id view) =
    backend.powOn (choose choice) (view ctx)
  getPowResult : ∀ ctx, functions.getPowResult ctx = (view ctx).outputTrytes

namespace Backend

variable {w : Nat} {backend : Backend w} {Ctx Choice : Type} {functions : PowFunctions Ctx Choice}
  {view : Ctx → CpuContext} {choose : Choice → List Nat}

theorem isBackend_cpuFunctions (backend : Backend w) :
    backend.cpuFunctions.IsBackend backend id id := by
  constructor
  · exact fun _ _ => rfl
  · intro choice ctx
    change (backend.powOn choice ctx).map id = backend.powOn choice ctx
    exact Option.map_id_apply
  · exact fun _ => rfl

def Computes (backend : Backend w) (request : Request) (res : Option (Vector Int8 2673)) : Prop :=
  ∃ (ctx : PowContext) (schedule : List (Fin ctx.numThreads)) (result : Bool) (left : PowContext),
    ctx.inputTrytes = request.trytes ∧ ctx.mwm = request.mwm ∧
      backend.pow ctx schedule = some (.returned result left) ∧
      res = if result then some left.outputTrytes else none

theorem pow_of_powOn {choice : List Nat} {ctx ctx' : CpuContext} {result : Bool}
    (h : backend.powOn choice ctx = some (result, ctx')) :
    ∃ left, backend.pow ctx.powContext (scheduleOf _ choice) = some (.returned result left) ∧
      ctx' = ctx.store left := by
  unfold powOn at h
  split at h
  · cases h
  · cases h
  · rename_i left hleft
    cases h
    exact ⟨left, hleft, rfl⟩

theorem computes_of_doThePow (h : functions.IsBackend backend view choose) {request : Request}
    {choice : Choice} {ctx ctx' : Ctx} {result : Bool}
    (hpow : functions.doThePow choice (functions.fill request ctx) = some (result, ctx')) :
    backend.Computes request (if result then some (functions.getPowResult ctx') else none) := by
  have hcpu := h.doThePow choice (functions.fill request ctx)
  rw [hpow, h.fill] at hcpu
  have ⟨left, hleft, hstore⟩ := pow_of_powOn hcpu.symm
  refine ⟨_, _, result, left, rfl, rfl, hleft, ?_⟩
  rw [h.getPowResult, hstore]
  rfl

theorem computes_of_answers (h : functions.IsBackend backend view choose) {request : Request}
    {res : Option (Vector Int8 2673)} (hanswers : Answers functions request res) :
    backend.Computes request res := by
  cases res with
  | none =>
      have ⟨choice, ctx, ctx', hpow⟩ := hanswers
      exact computes_of_doThePow h hpow
  | some res =>
      have ⟨choice, ctx, ctx', hpow, hres⟩ := hanswers
      rw [hres]
      exact computes_of_doThePow h hpow

end Backend

/-- The result keeps all of the request's transaction but its nonce and hashes as
required. -/
def Request.SolvedBy (request : Request) (res : Vector Int8 2673) : Prop :=
  res.toList.take 2646 = request.trytes.toList.take 2646 ∧ HashEndsInZeros request.mwm res.toList

theorem Backend.solvedBy_of_answers {w : Nat} {backend : Backend w} (hlawful : backend.Lawful)
    (hfaithful : backend.Faithful) {request : Request} (hmwm : request.mwm ≤ 243)
    {res : Vector Int8 2673} (h : Answers backend.cpuFunctions request (some res)) :
    request.SolvedBy res := by
  have ⟨ctx, schedule, result, left, htrytes, hctx, hpow, hres⟩ :=
    computes_of_answers backend.isBackend_cpuFunctions h
  cases result with
  | false => cases hres
  | true =>
      cases hres
      rw [← hctx] at hmwm
      unfold Request.SolvedBy
      rw [← htrytes, ← hctx]
      exact solves_of_returned hlawful hfaithful hmwm hpow

end Dcurl
