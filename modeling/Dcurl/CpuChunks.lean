import Dcurl.CpuMemory
import Dcurl.EntryServes

/-! Searches of a CPU build side by side, with the nonces of all contexts in the chunk that
`pow_c_context_initialize` cuts up. A thread writes its nonce through its own pointer. -/
namespace Dcurl.Memory

open Library

section carve

variable {numMaxThread nproc : Nat}

theorem carve_add_eq {i j : Nat} (hi : i < numMaxThread) (hj : j < nproc) (k : Nat) :
    carve numMaxThread nproc (i * nproc + j) + k = Chunk.Place.address ⟨i, j, k⟩ 81 nproc := by
  rw [carve_apply hi hj]
  rfl

theorem carve_apart {i j i' j' : Nat} (hi : i < numMaxThread) (hj : j < nproc)
    (hi' : i' < numMaxThread) (hj' : j' < nproc) (hne : i ≠ i' ∨ j ≠ j') :
    ∀ k < 81, ∀ k' < 81, carve numMaxThread nproc (i * nproc + j) + k ≠
      carve numMaxThread nproc (i' * nproc + j') + k' := by
  intro k hk k' hk' heq
  have hwithin : Chunk.Place.Within ⟨i, j, k⟩ numMaxThread nproc 81 := ⟨hi, hj, hk⟩
  rw [carve_add_eq hi hj, carve_add_eq hi' hj'] at heq
  have hplace : (⟨i, j, k⟩ : Chunk.Place) = ⟨i', j', k'⟩ :=
    Chunk.address_inj hwithin ⟨hi', hj', hk'⟩ heq
  simp only [Chunk.Place.mk.injEq] at hplace
  omega

end carve

variable {w : Nat}

inductive Thread (w : Nat) where
  | test (mid : Words w) (i : Nat)
  | batch (mid : Words w) (i : Nat)
  | publish (ret : Int)
  | done (ret : Int) (n : Int)

def Thread.worker (nonce : Vector Int8 81) : Thread w → Worker w
  | .test mid i => .test mid i nonce
  | .batch mid i => .batch mid i nonce
  | .publish ret => .publish ret nonce
  | .done ret n => .done ret n nonce

/-- `work_cb` of thread `t`, whose nonce lies at `ptr`; only `seri` writes to it. -/
def workCb (backend : Backend w) (m t ptr : Nat) (thread : Thread w) (stopPow : Bool)
    (chunk : Nat → Int8) : Option (Thread w × Bool × (Nat → Int8)) :=
  match thread with
  | .test mid i =>
      let (exhausted, mid) := backend.incr mid
      if !exhausted && !stopPow then some (.batch mid i, stopPow, chunk)
      else some (.publish (backend.missed i), stopPow, chunk)
  | .batch mid i =>
      let n := backend.tryBatch mid m
      if 0 ≤ n then some (.publish (backend.found i), stopPow,
        Chunk.write chunk ptr (backend.seri mid n.toNat (Chunk.read 81 chunk ptr)))
      else some (.test mid (i + 1), stopPow, chunk)
  | .publish ret =>
      if 0 ≤ ret then some (.done ret (-1), true, chunk)
      else some (.done ret t, stopPow, chunk)
  | .done _ _ => none

/-- `pow_c_context_t` without `nonce_array`, whose pointers stand apart. -/
structure ChunkContext where
  numMaxThreads : Int
  numThreads : Int
  inputTrytes : Vector Int8 2673
  outputTrytes : Vector Int8 2673
  mwm : Nat
  stopPow : Bool
  hashCount : UInt64

namespace ChunkContext

def own (nonceArray : Nat → Vector Int8 81) (ctx : ChunkContext) : CpuContext where
  numMaxThreads := ctx.numMaxThreads
  numThreads := ctx.numThreads
  inputTrytes := ctx.inputTrytes
  outputTrytes := ctx.outputTrytes
  mwm := ctx.mwm
  nonceArray := nonceArray
  stopPow := ctx.stopPow
  hashCount := ctx.hashCount

def fill (request : Request) (ctx : ChunkContext) : ChunkContext :=
  { ctx with
    inputTrytes := request.trytes
    mwm := request.mwm
    numThreads :=
      if request.threads > 0 ∧ request.threads < ctx.numMaxThreads then request.threads
      else ctx.numMaxThreads }

end ChunkContext

/-- A driver that waits in `uv_run` for its threads, and the request it answers. -/
structure Search (w : Nat) where
  request : Request
  tx : TrinaryObject
  threads : Nat → Thread w

def nonceArray (noncePtr : Nat → Nat) (nproc : Nat) (chunk : Nat → Int8) (i j : Nat) :
    Vector Int8 81 :=
  Chunk.read 81 chunk (noncePtr (i * nproc + j))

theorem nonceArray_apply (noncePtr : Nat → Nat) (nproc : Nat) (chunk : Nat → Int8) (i j : Nat) :
    nonceArray noncePtr nproc chunk i j = Chunk.read 81 chunk (noncePtr (i * nproc + j)) := rfl

def pool (numThreads : Nat) (nonceArray : Nat → Vector Int8 81) (search : Search w)
    (stopPow : Bool) : Pool numThreads (Worker w) Bool where
  threads t := (search.threads t).worker (nonceArray t)
  shared := stopPow

structure Searches (w : Nat) where
  contexts : Nat → ChunkContext
  running : Nat → Option (Search w)
  nonceChunk : Nat → Int8
  answers : List (Request × Option (Vector Int8 2673))

inductive Event where
  | enter (i : Nat) (request : Request)
  | work (i t : Nat)
  | leave (i : Nat)

def Event.context : Event → Nat
  | .enter i _ => i
  | .work i _ => i
  | .leave i => i

namespace Searches

/-- `get_pow_context` and the driver up to `uv_run`, on a context that is free. -/
def enter (backend : Backend w) (searches : Searches w) (i : Nat) (request : Request) :
    Option (Searches w) :=
  let ctx := { (searches.contexts i).fill request with stopPow := false, hashCount := 0 }
  let searches' := { searches with contexts := Function.update searches.contexts i ctx }
  match searches.running i with
  | some _ => none
  | none =>
      match Dcurl.initTrytes ctx.inputTrytes.toList with
      | none => some { searches' with answers := searches.answers ++ [(request, none)] }
      | some tx =>
          match Dcurl.txToCstate tx with
          | none => some { searches' with answers := searches.answers ++ [(request, none)] }
          | some cState => some { searches' with
              running := Function.update searches.running i
                (some ⟨request, tx, fun t => .test (backend.prepare cState t) 0⟩) }

def work (backend : Backend w) (noncePtr : Nat → Nat) (nproc : Nat) (searches : Searches w)
    (i t : Nat) : Option (Searches w) :=
  (searches.running i).bind fun search =>
    let ctx := searches.contexts i
    if t < ctx.numThreads.toNat then
      (workCb backend ctx.mwm t (noncePtr (i * nproc + t)) (search.threads t) ctx.stopPow
        searches.nonceChunk).map fun (thread, stopPow, chunk) =>
          { searches with
            contexts := Function.update searches.contexts i { ctx with stopPow }
            running := Function.update searches.running i
              (some { search with threads := Function.update search.threads t thread })
            nonceChunk := chunk }
    else none

/-- The driver once `uv_run` has returned; none where threads still run or where the driver
reads outside `nonce_array`. -/
def leave (noncePtr : Nat → Nat) (nproc : Nat) (searches : Searches w) (i : Nat) :
    Option (Searches w) :=
  (searches.running i).bind fun search =>
    let ctx := searches.contexts i
    let nonceArray := nonceArray noncePtr nproc searches.nonceChunk i
    (Backend.collect (pool ctx.numThreads.toNat nonceArray search ctx.stopPow)).bind fun pitem =>
      match finish (ctx.own nonceArray).powContext search.tx ctx.stopPow pitem with
      | .outOfBounds _ => none
      | .returned res left => some
          { searches with
            contexts := Function.update searches.contexts i { ctx with
              outputTrytes := left.outputTrytes
              stopPow := left.stopPow
              hashCount := left.hashCount }
            running := Function.update searches.running i none
            answers := searches.answers ++
              [(search.request, if res then some left.outputTrytes else none)] }

def step (backend : Backend w) (noncePtr : Nat → Nat) (numMaxThread nproc : Nat)
    (searches : Searches w) (event : Event) : Option (Searches w) :=
  if event.context < numMaxThread then
    match event with
    | .enter i request => searches.enter backend i request
    | .work i t => searches.work backend noncePtr nproc i t
    | .leave i => searches.leave noncePtr nproc i
  else none

end Searches

section thread

variable {backend : Backend w} {m t ptr : Nat} {thread thread' : Thread w}
  {stopPow stopPow' : Bool} {chunk chunk' : Nat → Int8}

/-- A thread does in the chunk what it does with a nonce of its own. -/
theorem workCb_worker :
    backend.workCb m t (thread.worker (Chunk.read 81 chunk ptr)) stopPow =
      (workCb backend m t ptr thread stopPow chunk).map fun (thread', stopPow', chunk') =>
        (thread'.worker (Chunk.read 81 chunk' ptr), stopPow') := by
  cases thread with
  | test mid i =>
      simp only [Thread.worker, Backend.workCb, workCb]
      split <;> rfl
  | batch mid i =>
      simp only [Thread.worker, Backend.workCb, workCb]
      split
      · simp only [Option.map_some, Chunk.read_write_self]
      · rfl
  | publish ret =>
      simp only [Thread.worker, Backend.workCb, workCb]
      split <;> rfl
  | done ret n => rfl

theorem read_workCb (hstep : workCb backend m t ptr thread stopPow chunk =
      some (thread', stopPow', chunk')) {ptr' : Nat}
    (hapart : ∀ k < 81, ∀ k' < 81, ptr + k ≠ ptr' + k') :
    Chunk.read 81 chunk' ptr' = Chunk.read 81 chunk ptr' := by
  cases thread with
  | test mid i =>
      simp only [workCb] at hstep
      split at hstep <;> cases hstep <;> rfl
  | batch mid i =>
      simp only [workCb] at hstep
      split at hstep
      · cases hstep
        exact Chunk.read_write_of_apart hapart
      · cases hstep
        rfl
  | publish ret =>
      simp only [workCb] at hstep
      split at hstep <;> cases hstep <;> rfl
  | done ret n => cases hstep

end thread

section searching

variable {backend : Backend w} {numMaxThread nproc : Nat}

/-- The search is where it would be in a context with nonces of its own. -/
structure Searching (backend : Backend w) (nonceArray : Nat → Vector Int8 81)
    (ctx : ChunkContext) (search : Search w) : Prop where
  filled : ctx.fill search.request = ctx
  tx_eq : Dcurl.initTrytes ctx.inputTrytes.toList = some search.tx
  ran : ∃ cState, ∃ start : Nat → Vector Int8 81, ∃ schedule : List (Fin ctx.numThreads.toNat),
    Dcurl.txToCstate search.tx = some cState ∧
      backend.runPool ctx.mwm cState (Vector.ofFn fun j : Fin ctx.numThreads.toNat => start j)
        schedule = some (pool ctx.numThreads.toNat nonceArray search ctx.stopPow)

theorem Searching.congr {nonceArray nonceArray' : Nat → Vector Int8 81} {ctx : ChunkContext}
    {search : Search w} (h : Searching backend nonceArray ctx search)
    (hsame : ∀ j < ctx.numThreads.toNat, nonceArray' j = nonceArray j) :
    Searching backend nonceArray' ctx search := by
  have hpool : pool ctx.numThreads.toNat nonceArray' search ctx.stopPow =
      pool ctx.numThreads.toNat nonceArray search ctx.stopPow := by
    unfold pool
    congr 1
    funext t
    rw [hsame t t.isLt]
  exact ⟨h.filled, h.tx_eq, hpool ▸ h.ran⟩

theorem poolStep_pool {numThreads m t ptr : Nat} {search : Search w}
    {nonceArray nonceArray' : Nat → Vector Int8 81} {chunk chunk' : Nat → Int8}
    {thread' : Thread w} {stopPow stopPow' : Bool} (ht : t < numThreads)
    (hptr : nonceArray t = Chunk.read 81 chunk ptr)
    (hstep : workCb backend m t ptr (search.threads t) stopPow chunk =
      some (thread', stopPow', chunk'))
    (hptr' : nonceArray' t = Chunk.read 81 chunk' ptr)
    (hothers : ∀ u < numThreads, u ≠ t → nonceArray' u = nonceArray u) :
    backend.poolStep m (pool numThreads nonceArray search stopPow) ⟨t, ht⟩ =
      some (pool numThreads nonceArray'
        { search with threads := Function.update search.threads t thread' } stopPow') := by
  have hworker : backend.workCb m t ((pool numThreads nonceArray search stopPow).threads ⟨t, ht⟩)
      stopPow = some (thread'.worker (nonceArray' t), stopPow') := by
    simp only [pool, hptr, workCb_worker, hstep, hptr', Option.map_some]
  refine Pool.step_eq_some_iff.mpr ⟨_, _, hworker, ?_⟩
  unfold pool
  congr 1
  funext u
  by_cases hu : u = ⟨t, ht⟩
  · subst hu
    simp
  · have hne : u.val ≠ t := fun heq => hu (Fin.ext heq)
    simp only [Function.update_of_ne hu, Function.update_of_ne hne, hothers u u.isLt hne]

theorem Searching.work {ctx : ChunkContext} {search search' : Search w}
    {nonceArray nonceArray' : Nat → Vector Int8 81} {t : Nat} {stopPow' : Bool}
    (h : Searching backend nonceArray ctx search) (ht : t < ctx.numThreads.toNat)
    (hrequest : search'.request = search.request) (htx : search'.tx = search.tx)
    (hstep : backend.poolStep ctx.mwm (pool _ nonceArray search ctx.stopPow) ⟨t, ht⟩ =
      some (pool _ nonceArray' search' stopPow')) :
    Searching backend nonceArray' { ctx with stopPow := stopPow' } search' := by
  obtain ⟨cState, start, schedule, hcState, hran⟩ := h.ran
  refine ⟨?_, htx ▸ h.tx_eq, cState, start, schedule ++ [⟨t, ht⟩], htx ▸ hcState, ?_⟩
  · rw [hrequest]
    exact congrArg (fun ctx : ChunkContext => { ctx with stopPow := stopPow' }) h.filled
  · refine (Backend.runPool_append hran [⟨t, ht⟩]).trans ?_
    rw [Machine.run_cons, hstep]
    rfl

theorem Searching.threads_le {ctx : ChunkContext} {search : Search w}
    {nonceArray : Nat → Vector Int8 81} (h : Searching backend nonceArray ctx search)
    (hnproc : ctx.numMaxThreads = nproc) : ctx.numThreads.toNat ≤ nproc := by
  rw [← h.filled]
  simp only [ChunkContext.fill]
  split <;> omega

theorem Searching.answers {ctx : ChunkContext} {search : Search w}
    {nonceArray : Nat → Vector Int8 81} (h : Searching backend nonceArray ctx search)
    {pitem : Fin ctx.numThreads.toNat → WorkItem}
    (hcollect : Backend.collect (pool _ nonceArray search ctx.stopPow) = some pitem) {res : Bool}
    {left : PowContext}
    (hfinish : finish (ctx.own nonceArray).powContext search.tx ctx.stopPow pitem =
      .returned res left) :
    Answers backend.cpuFunctions search.request (if res then some left.outputTrytes else none) := by
  obtain ⟨cState, start, schedule, hcState, hran⟩ := h.ran
  have hpow : backend.pow (ctx.own start).powContext schedule = some (.returned res left) := by
    unfold Backend.pow
    have htx : Dcurl.initTrytes (ctx.own start).powContext.inputTrytes.toList = some search.tx :=
      h.tx_eq
    simp only [htx, hcState]
    refine Option.bind_eq_some_iff.mpr ⟨_, hran, ?_⟩
    exact Option.map_eq_some_iff.mpr ⟨pitem, hcollect, hfinish⟩
  have hanswer : backend.powOn (schedule.map Fin.val) ((ctx.own start).fill search.request) =
      some (res, (ctx.own start).store left) := by
    have hfill : (ctx.own start).fill search.request = ctx.own start :=
      congrArg (ChunkContext.own start) h.filled
    rw [hfill]
    exact powOn_of_pow hpow
  cases res with
  | false => exact ⟨_, _, _, hanswer⟩
  | true => exact ⟨_, _, _, hanswer, rfl⟩

theorem answers_none {ctx : ChunkContext} (nonceArray : Nat → Vector Int8 81) (request : Request)
    (hnone : (Dcurl.initTrytes (ctx.fill request).inputTrytes.toList).bind Dcurl.txToCstate =
      none) :
    Answers backend.cpuFunctions request none := by
  have hpow : ∃ left, backend.pow ((ctx.own nonceArray).fill request).powContext [] =
      some (.returned false left) := by
    unfold Backend.pow
    change (Dcurl.initTrytes ((ctx.own nonceArray).fill request).powContext.inputTrytes.toList).bind
      Dcurl.txToCstate = none at hnone
    cases htx : Dcurl.initTrytes
        ((ctx.own nonceArray).fill request).powContext.inputTrytes.toList with
    | none => exact ⟨_, rfl⟩
    | some tx =>
        rw [htx, Option.bind_some] at hnone
        simp only [hnone]
        exact ⟨_, rfl⟩
  obtain ⟨left, hpow⟩ := hpow
  exact ⟨_, _, _, powOn_of_pow hpow⟩

end searching

namespace Searches

variable {backend : Backend w} {numMaxThread nproc : Nat} {searches next : Searches w}

structure Inv (backend : Backend w) (numMaxThread nproc : Nat) (searches : Searches w) : Prop where
  nproc_eq : ∀ i < numMaxThread, (searches.contexts i).numMaxThreads = nproc
  searching : ∀ i < numMaxThread, ∀ search, searches.running i = some search →
    Searching backend (nonceArray (carve numMaxThread nproc) nproc searches.nonceChunk i)
      (searches.contexts i) search
  answers : ∀ answer ∈ searches.answers, Answers backend.cpuFunctions answer.1 answer.2

theorem Inv.of_context (h : Inv backend numMaxThread nproc searches) {i : Nat}
    (hcontexts : ∀ i' ≠ i, next.contexts i' = searches.contexts i')
    (hrunning : ∀ i' ≠ i, next.running i' = searches.running i')
    (hnonces : ∀ i' < numMaxThread, i' ≠ i → ∀ j < nproc,
      nonceArray (carve numMaxThread nproc) nproc next.nonceChunk i' j =
        nonceArray (carve numMaxThread nproc) nproc searches.nonceChunk i' j)
    (hnproc : (next.contexts i).numMaxThreads = nproc)
    (hsearching : ∀ search, next.running i = some search →
      Searching backend (nonceArray (carve numMaxThread nproc) nproc next.nonceChunk i)
        (next.contexts i) search)
    (hanswers : ∀ answer ∈ next.answers, Answers backend.cpuFunctions answer.1 answer.2) :
    Inv backend numMaxThread nproc next := by
  refine ⟨fun i' hi' => ?_, fun i' hi' search hsearch => ?_, hanswers⟩
  · by_cases hsame : i' = i
    · exact hsame ▸ hnproc
    · rw [hcontexts i' hsame]
      exact h.nproc_eq i' hi'
  · by_cases hsame : i' = i
    · subst hsame
      exact hsearching search hsearch
    · rw [hrunning i' hsame] at hsearch
      have hother := h.searching i' hi' search hsearch
      rw [hcontexts i' hsame]
      exact hother.congr fun j hj =>
        hnonces i' hi' hsame j (hj.trans_le (hother.threads_le (h.nproc_eq i' hi')))

theorem Inv.enter (h : Inv backend numMaxThread nproc searches) {i : Nat} {request : Request}
    (hi : i < numMaxThread) (hstep : searches.enter backend i request = some next) :
    Inv backend numMaxThread nproc next := by
  unfold Searches.enter at hstep
  cases hfree : searches.running i with
  | some search =>
      rw [hfree] at hstep
      cases hstep
  | none =>
    have hrejected : (Dcurl.initTrytes ((searches.contexts i).fill request).inputTrytes.toList).bind
        Dcurl.txToCstate = none → ∀ answer ∈ searches.answers ++ [(request, none)],
          Answers backend.cpuFunctions answer.1 answer.2 := by
      intro hnone answer hanswer
      cases List.mem_append.mp hanswer with
      | inl hanswer => exact h.answers answer hanswer
      | inr hanswer =>
          cases List.mem_singleton.mp hanswer
          exact answers_none (fun _ => Vector.replicate 81 0) request hnone
    simp only [hfree] at hstep
    split at hstep
    · rename_i htx
      cases hstep
      refine h.of_context (i := i) ?_ (fun _ _ => rfl) (fun _ _ _ _ _ => rfl) ?_ ?_ ?_
      · exact fun i' hne => Function.update_of_ne hne _ _
      · simpa [ChunkContext.fill] using h.nproc_eq i hi
      · simp [hfree]
      · exact hrejected (Option.bind_eq_none_iff.mpr fun tx htx' => by cases htx.symm.trans htx')
    · rename_i tx htx
      split at hstep
      · rename_i hcState
        cases hstep
        refine h.of_context (i := i) ?_ (fun _ _ => rfl) (fun _ _ _ _ _ => rfl) ?_ ?_ ?_
        · exact fun i' hne => Function.update_of_ne hne _ _
        · simpa [ChunkContext.fill] using h.nproc_eq i hi
        · simp [hfree]
        · refine hrejected (Option.bind_eq_none_iff.mpr fun tx' htx' => ?_)
          cases htx.symm.trans htx'
          exact hcState
      · rename_i cState hcState
        cases hstep
        refine h.of_context (i := i) ?_ ?_ (fun _ _ _ _ _ => rfl) ?_ ?_ h.answers
        · exact fun i' hne => Function.update_of_ne hne _ _
        · exact fun i' hne => Function.update_of_ne hne _ _
        · simpa [ChunkContext.fill] using h.nproc_eq i hi
        · intro search hsearch
          simp only [Function.update_self, Option.some.injEq] at hsearch ⊢
          subst hsearch
          refine ⟨rfl, htx, cState,
            nonceArray (carve numMaxThread nproc) nproc searches.nonceChunk i, [], hcState, ?_⟩
          simp [Backend.runPool, Backend.queue, Machine.run, pool, Thread.worker]

theorem Inv.work (h : Inv backend numMaxThread nproc searches) {i t : Nat}
    (hi : i < numMaxThread)
    (hstep : searches.work backend (carve numMaxThread nproc) nproc i t = some next) :
    Inv backend numMaxThread nproc next := by
  obtain ⟨search, hsearch, hstep⟩ := Option.bind_eq_some_iff.mp hstep
  have hown := h.searching i hi search hsearch
  have hle := hown.threads_le (h.nproc_eq i hi)
  dsimp only at hstep
  split at hstep
  · rename_i ht
    obtain ⟨⟨thread', stopPow', chunk'⟩, hthread, rfl⟩ := Option.map_eq_some_iff.mp hstep
    have hothers : ∀ i' < numMaxThread, ∀ j < nproc, i' ≠ i ∨ j ≠ t →
        nonceArray (carve numMaxThread nproc) nproc chunk' i' j =
          nonceArray (carve numMaxThread nproc) nproc searches.nonceChunk i' j :=
      fun i' hi' j hj hne => read_workCb hthread
        (carve_apart hi (ht.trans_le hle) hi' hj (by omega))
    refine h.of_context (i := i) ?_ ?_ ?_ ?_ ?_ h.answers
    · exact fun i' hne => Function.update_of_ne hne _ _
    · exact fun i' hne => Function.update_of_ne hne _ _
    · exact fun i' hi' hne j hj => hothers i' hi' j hj (Or.inl hne)
    · simpa using h.nproc_eq i hi
    · intro search' hsearch'
      simp only [Function.update_self, Option.some.injEq] at hsearch' ⊢
      subst hsearch'
      have hstep := poolStep_pool ht (nonceArray_apply ..) hthread (nonceArray_apply ..)
        fun u hu hne => hothers i hi u (hu.trans_le hle) (Or.inr hne)
      exact hown.work ht rfl rfl hstep
  · cases hstep

theorem Inv.leave (h : Inv backend numMaxThread nproc searches) {i : Nat}
    (hi : i < numMaxThread)
    (hstep : searches.leave (carve numMaxThread nproc) nproc i = some next) :
    Inv backend numMaxThread nproc next := by
  obtain ⟨search, hsearch, hstep⟩ := Option.bind_eq_some_iff.mp hstep
  obtain ⟨pitem, hcollect, hstep⟩ := Option.bind_eq_some_iff.mp hstep
  have hown := h.searching i hi search hsearch
  split at hstep
  · cases hstep
  · rename_i res left hfinish
    cases hstep
    refine h.of_context (i := i) ?_ ?_ (fun _ _ _ _ _ => rfl) ?_ ?_ ?_
    · exact fun i' hne => Function.update_of_ne hne _ _
    · exact fun i' hne => Function.update_of_ne hne _ _
    · simpa using h.nproc_eq i hi
    · simp
    · intro answer hanswer
      cases List.mem_append.mp hanswer with
      | inl hanswer => exact h.answers answer hanswer
      | inr hanswer =>
          cases List.mem_singleton.mp hanswer
          exact hown.answers hcollect hfinish

theorem Inv.step {event : Event} (h : Inv backend numMaxThread nproc searches)
    (hstep : searches.step backend (carve numMaxThread nproc) numMaxThread nproc event =
      some next) : Inv backend numMaxThread nproc next := by
  unfold Searches.step at hstep
  split at hstep
  · rename_i hi
    cases event with
    | enter i request => exact h.enter hi hstep
    | work i t => exact h.work hi hstep
    | leave i => exact h.leave hi hstep
  · cases hstep

section progress

variable {i : Nat} (hi : i < numMaxThread)

include hi

theorem exists_work {search : Search w} (hsearch : searches.running i = some search) {t : Nat}
    (ht : t < (searches.contexts i).numThreads.toNat) {thread' : Thread w} {stopPow' : Bool}
    {chunk' : Nat → Int8}
    (hstep : workCb backend (searches.contexts i).mwm t (carve numMaxThread nproc (i * nproc + t))
      (search.threads t) (searches.contexts i).stopPow searches.nonceChunk =
        some (thread', stopPow', chunk')) :
    ∃ next,
      searches.step backend (carve numMaxThread nproc) numMaxThread nproc (.work i t) =
        some next ∧
      next.contexts i = { searches.contexts i with stopPow := stopPow' } ∧
      next.running i =
        some { search with threads := Function.update search.threads t thread' } ∧
      next.nonceChunk = chunk' ∧ next.answers = searches.answers ∧
      ∀ i' ≠ i, next.running i' = searches.running i' := by
  refine ⟨{ searches with
    contexts := Function.update searches.contexts i { searches.contexts i with stopPow := stopPow' }
    running := Function.update searches.running i
      (some { search with threads := Function.update search.threads t thread' })
    nonceChunk := chunk' }, ?_, Function.update_self .., Function.update_self .., rfl, rfl,
    fun i' hne => Function.update_of_ne hne _ _⟩
  simp only [Searches.step, Event.context, hi, if_true, Searches.work, hsearch, Option.bind_some,
    ht, hstep, Option.map_some]

theorem run_work {numThreads m : Nat} (hle : numThreads ≤ nproc) {rest : List (Fin numThreads)}
    {search : Search w} {final : Pool numThreads (Worker w) Bool}
    (hthreads : (searches.contexts i).numThreads.toNat = numThreads)
    (hmwm : (searches.contexts i).mwm = m) (hsearch : searches.running i = some search)
    (hrun : Machine.run (backend.poolStep m)
      (pool numThreads (nonceArray (carve numMaxThread nproc) nproc searches.nonceChunk i) search
        (searches.contexts i).stopPow) rest = some final) :
    ∃ next search',
      Machine.run (Searches.step backend (carve numMaxThread nproc) numMaxThread nproc) searches
        (rest.map fun t : Fin numThreads => Event.work i t) = some next ∧
      next.contexts i = { searches.contexts i with stopPow := (next.contexts i).stopPow } ∧
      next.running i = some search' ∧
      search'.request = search.request ∧ search'.tx = search.tx ∧
      pool numThreads (nonceArray (carve numMaxThread nproc) nproc next.nonceChunk i) search'
        (next.contexts i).stopPow = final ∧
      next.answers = searches.answers ∧ ∀ i' ≠ i, next.running i' = searches.running i' := by
  induction rest generalizing searches search with
  | nil =>
      cases hrun
      exact ⟨searches, search, rfl, rfl, hsearch, rfl, rfl, rfl, rfl, fun _ _ => rfl⟩
  | cons t rest ih =>
      obtain ⟨middle, hmiddle, hrest⟩ := Option.bind_eq_some_iff.mp hrun
      obtain ⟨worker, shared, hworker, _⟩ := Pool.step_eq_some_iff.mp hmiddle
      have hthread : backend.workCb m t ((search.threads t).worker
          (Chunk.read 81 searches.nonceChunk (carve numMaxThread nproc (i * nproc + t))))
            (searches.contexts i).stopPow = some (worker, shared) := hworker
      rw [workCb_worker] at hthread
      obtain ⟨⟨thread', stopPow', chunk'⟩, hstep, _⟩ := Option.map_eq_some_iff.mp hthread
      have hothers : ∀ u < numThreads, u ≠ t →
          nonceArray (carve numMaxThread nproc) nproc chunk' i u =
            nonceArray (carve numMaxThread nproc) nproc searches.nonceChunk i u :=
        fun u hu hne => read_workCb hstep (carve_apart hi (t.isLt.trans_le hle) hi
          (hu.trans_le hle) (Or.inr hne.symm))
      have hpool := poolStep_pool t.isLt (nonceArray_apply ..) hstep (nonceArray_apply ..) hothers
      cases hmiddle.symm.trans hpool
      obtain ⟨middle, hwork, hctx, hmiddle, hchunk, hanswers, hkept⟩ :=
        exists_work hi hsearch (hthreads ▸ t.isLt) (hmwm ▸ hstep)
      rw [← hchunk, show stopPow' = (middle.contexts i).stopPow by rw [hctx]] at hrest
      obtain ⟨next, search', hrun, hctx', hrunning, hrequest, htx, hfinal, hanswers', hkept'⟩ :=
        ih (by rw [hctx]; exact hthreads) (by rw [hctx]; exact hmwm) hmiddle hrest
      refine ⟨next, search', ?_, ?_, hrunning, hrequest, htx, hfinal, hanswers'.trans hanswers,
        fun i' hne => (hkept' i' hne).trans (hkept i' hne)⟩
      · rw [List.map_cons, Machine.run_cons, hwork]
        exact hrun
      · rw [hctx', hctx]

end progress

def start (contexts : Nat → ChunkContext) (nonceChunk : Nat → Int8) : Searches w :=
  ⟨contexts, fun _ => none, nonceChunk, []⟩

end Searches

theorem Searches.inv_run {backend : Backend w} {numMaxThread nproc : Nat}
    {contexts : Nat → ChunkContext} {nonceChunk : Nat → Int8}
    (hnproc : ∀ i < numMaxThread, (contexts i).numMaxThreads = nproc) {events : List Event}
    {final : Searches w}
    (hrun : Machine.run (Searches.step backend (carve numMaxThread nproc) numMaxThread nproc)
      (.start contexts nonceChunk) events = some final) :
    Searches.Inv backend numMaxThread nproc final := by
  refine Machine.run_invariant _ (fun _ _ _ h hstep => h.step hstep) ⟨hnproc, ?_, ?_⟩ hrun
  · exact fun _ _ _ hsearch => (Option.some_ne_none _ hsearch.symm).elim
  · exact fun _ hanswer => absurd hanswer List.not_mem_nil

section witness

end witness

end Dcurl.Memory
