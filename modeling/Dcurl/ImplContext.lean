import Dcurl.Library.Slots

/-! `implcontext.c`, with the slot table that the contexts of `pow_c`,
`pow_sse`, `pow_avx` and `pow_cl` share. A call passes the counter of working
threads first and takes a context from the bitmap then. -/
namespace Dcurl

open Library

structure Request where
  trytes : Vector Int8 2673
  mwm : Nat
  threads : Int

structure Slot (Ctx : Type) where
  indexOfContext : Nat
  ctx : Ctx

structure ImplContext (Ctx : Type) where
  context : Nat → Slot Ctx
  bitmap : BitVec 32
  numMaxThread : Int
  numWorkingThread : Int

/-- The functions of an `impl_context_t` that differ between the
implementations. `Choice` is what `do_the_pow` leaves to the scheduler. -/
structure PowFunctions (Ctx Choice : Type) where
  /-- What `initialize` asks of `num_max_thread` and of the processors. -/
  checks : Int → Int → Bool
  /-- What `initialize` stores in a context, given the processors. -/
  setUp : Int → Ctx → Ctx
  /-- What `get_pow_context` stores in a context. -/
  fill : Request → Ctx → Ctx
  doThePow : Choice → Ctx → Option (Bool × Ctx)
  getPowResult : Ctx → Vector Int8 2673

/-- What `initialize` finds: the counts of the host and the memory that `malloc`
returns, if it does. -/
structure Host (Ctx : Type) where
  numMaxThread : Int
  nproc : Int
  memory : Option (Nat → Slot Ctx)

variable {Ctx Choice : Type}

/-- `do_the_pow`, on a context filled with the request, gives this result. -/
def Answers (functions : PowFunctions Ctx Choice) (request : Request) :
    Option (Vector Int8 2673) → Prop
  | none => ∃ choice ctx ctx', functions.doThePow choice (functions.fill request ctx) =
      some (false, ctx')
  | some res => ∃ choice ctx ctx', functions.doThePow choice (functions.fill request ctx) =
      some (true, ctx') ∧ res = functions.getPowResult ctx'

def bit (i : Nat) : BitVec 32 := 1#32 <<< i

def initializeImplContext (functions : PowFunctions Ctx Choice) (host : Host Ctx)
    (impl : ImplContext Ctx) : Bool × ImplContext Ctx :=
  let impl := { impl with numMaxThread := host.numMaxThread }
  if functions.checks host.numMaxThread host.nproc then
    match host.memory with
    | none => (false, impl)
    | some memory =>
        (true, { impl with
          context := fun i =>
            if (i : Int) < host.numMaxThread then
              { memory i with ctx := functions.setUp host.nproc (memory i).ctx }
            else memory i
          bitmap := (fun bitmap : BitVec 32 => bitmap <<< 1 ||| 1#32)^[host.numMaxThread.toNat]
            impl.bitmap })
  else (false, impl)

/-- `enter_impl_context`; none when the access fails. -/
def enterImplContext (impl : ImplContext Ctx) : Option (ImplContext Ctx) :=
  if impl.numWorkingThread ≥ impl.numMaxThread then none
  else some { impl with numWorkingThread := impl.numWorkingThread + 1 }

def exitImplContext (impl : ImplContext Ctx) : ImplContext Ctx :=
  { impl with numWorkingThread := impl.numWorkingThread - 1 }

def takeBit (bitmap : BitVec 32) : List Nat → Option (Nat × BitVec 32)
  | [] => none
  | i :: rest =>
      if bitmap &&& bit i ≠ 0 then some (i, bitmap &&& ~~~bit i) else takeBit bitmap rest

/-- The locked part of `get_pow_context`; none for `NULL`. -/
def getPowContext (impl : ImplContext Ctx) : Option (Nat × ImplContext Ctx) :=
  (takeBit impl.bitmap (List.range impl.numMaxThread.toNat)).map fun (i, bitmap) =>
    (i, { impl with bitmap := bitmap })

def ImplContext.putSlot (impl : ImplContext Ctx) (i : Nat) (slot : Slot Ctx) : ImplContext Ctx :=
  { impl with context := Function.update impl.context i slot }

def fillSlot (functions : PowFunctions Ctx Choice) (request : Request) (i : Nat)
    (impl : ImplContext Ctx) : ImplContext Ctx :=
  impl.putSlot i ⟨i, functions.fill request (impl.context i).ctx⟩

def freePowContext (impl : ImplContext Ctx) (i : Nat) : ImplContext Ctx :=
  { impl with bitmap := impl.bitmap ||| bit (impl.context i).indexOfContext }

def ImplContext.free (impl : ImplContext Ctx) (i : Nat) : Bool := impl.bitmap.getLsbD i

section bits

variable {i : Nat}

theorem getLsbD_bit (hi : i < 32) (j : Nat) : (bit i).getLsbD j = decide (j = i) := by
  unfold bit
  rw [BitVec.getLsbD_shiftLeft, BitVec.getLsbD_one]
  by_cases hji : j = i
  · subst hji
    simp [hi]
  · simp only [hji, decide_false, Bool.and_eq_false_imp, Bool.and_eq_true, decide_eq_true_eq,
      Bool.not_eq_true', decide_eq_false_iff_not]
    omega

theorem and_bit_ne_zero_iff (bitmap : BitVec 32) (hi : i < 32) :
    bitmap &&& bit i ≠ 0 ↔ bitmap.getLsbD i = true := by
  constructor
  · intro hne
    by_contra hclear
    apply hne
    apply BitVec.eq_of_getLsbD_eq
    intro j _
    rw [BitVec.getLsbD_and, getLsbD_bit hi, BitVec.ofNat_eq_ofNat, BitVec.getLsbD_zero]
    by_cases hji : j = i
    · subst hji
      simpa using hclear
    · simp [hji]
  · intro hset hzero
    have hbit : (bitmap &&& bit i).getLsbD i = true := by
      rw [BitVec.getLsbD_and, getLsbD_bit hi, hset]
      simp
    rw [hzero] at hbit
    simp at hbit

theorem getLsbD_clearBit (bitmap : BitVec 32) (hi : i < 32) {j : Nat} (hj : j < 32) :
    (bitmap &&& ~~~bit i).getLsbD j = Function.update bitmap.getLsbD i false j := by
  rw [BitVec.getLsbD_and, BitVec.getLsbD_not, getLsbD_bit hi]
  by_cases hji : j = i
  · subst hji
    simp
  · simp [hji, hj]

theorem getLsbD_setBit (bitmap : BitVec 32) (hi : i < 32) (j : Nat) :
    (bitmap ||| bit i).getLsbD j = Function.update bitmap.getLsbD i true j := by
  rw [BitVec.getLsbD_or, getLsbD_bit hi]
  by_cases hji : j = i
  · subst hji
    simp
  · simp [hji]

/-- However the bitmap was left, `n` shifts set its low `n` bits. -/
theorem getLsbD_shiftOnes (bitmap : BitVec 32) {n : Nat} (hn : n ≤ 32) :
    ∀ i < n, ((fun bitmap : BitVec 32 => bitmap <<< 1 ||| 1#32)^[n] bitmap).getLsbD i = true := by
  induction n with
  | zero =>
      intro i hi
      exact absurd hi (Nat.not_lt_zero i)
  | succ n ih =>
      intro i hi
      rw [Function.iterate_succ_apply', BitVec.getLsbD_or, BitVec.getLsbD_shiftLeft,
        BitVec.getLsbD_one]
      cases i with
      | zero => simp
      | succ i =>
          have hprev := ih (by omega) i (by omega)
          simp only [Nat.add_sub_cancel, hprev]
          simp
          omega

end bits

section takeBit

variable {bitmap : BitVec 32} {indices : List Nat} (hindices : ∀ j ∈ indices, j < 32)

include hindices

theorem takeBit_eq_some {bitmap' : BitVec 32} {i : Nat}
    (h : takeBit bitmap indices = some (i, bitmap')) :
    i ∈ indices ∧ bitmap.getLsbD i = true ∧ bitmap' = bitmap &&& ~~~bit i := by
  induction indices with
  | nil => cases h
  | cons j rest ih =>
      have hj := hindices j List.mem_cons_self
      rw [takeBit] at h
      split at h
      · rename_i hset
        cases h
        exact ⟨List.mem_cons_self, (and_bit_ne_zero_iff bitmap hj).mp hset, rfl⟩
      · have ⟨hmem, hrest⟩ := ih (fun j hj => hindices j (List.mem_cons_of_mem _ hj)) h
        exact ⟨List.mem_cons_of_mem _ hmem, hrest⟩

theorem takeBit_eq_none (h : takeBit bitmap indices = none) :
    ∀ j ∈ indices, bitmap.getLsbD j = false := by
  induction indices with
  | nil =>
      intro j hj
      exact absurd hj List.not_mem_nil
  | cons i rest ih =>
      have hi := hindices i List.mem_cons_self
      rw [takeBit] at h
      split at h
      · cases h
      · rename_i hclear
        intro j hj
        cases List.mem_cons.mp hj with
        | inl heq =>
            rw [heq]
            apply Bool.eq_false_iff.mpr
            intro hset
            exact hclear ((and_bit_ne_zero_iff bitmap hi).mpr hset)
        | inr hmem => exact ih (fun j hj => hindices j (List.mem_cons_of_mem _ hj)) h j hmem

end takeBit

section spec

variable {impl impl' : ImplContext Ctx}

theorem enterImplContext_eq_some_iff :
    enterImplContext impl = some impl' ↔ impl.numWorkingThread < impl.numMaxThread ∧
      impl' = { impl with numWorkingThread := impl.numWorkingThread + 1 } := by
  unfold enterImplContext
  split
  · rename_i hfull
    simp only [reduceCtorEq, false_iff, not_and]
    intro hlt
    omega
  · rename_i hroom
    rw [Option.some.injEq, eq_comm]
    constructor
    · intro heq
      exact ⟨by omega, heq⟩
    · intro h
      exact h.2

theorem lt_of_mem_range {n : Int} (hn : n ≤ 32) {j : Nat} (hj : j ∈ List.range n.toNat) :
    j < 32 := by
  rw [List.mem_range] at hj
  omega

theorem getPowContext_eq_some (hfits : impl.numMaxThread ≤ 32) {i : Nat}
    (h : getPowContext impl = some (i, impl')) :
    i < impl.numMaxThread.toNat ∧ impl.free i = true ∧
      (∀ j < impl.numMaxThread.toNat, impl'.free j = Function.update impl.free i false j) ∧
      impl'.context = impl.context ∧ impl'.numMaxThread = impl.numMaxThread ∧
      impl'.numWorkingThread = impl.numWorkingThread := by
  unfold getPowContext at h
  have ⟨(i', bitmap), htake, heq⟩ := Option.map_eq_some_iff.mp h
  cases heq
  have ⟨hmem, hfree, hbitmap⟩ := takeBit_eq_some (fun j => lt_of_mem_range hfits) htake
  refine ⟨List.mem_range.mp hmem, hfree, ?_, rfl, rfl, rfl⟩
  intro j hj
  unfold ImplContext.free
  rw [hbitmap]
  exact getLsbD_clearBit _ (lt_of_mem_range hfits hmem) (by omega)

theorem getPowContext_eq_none (hfits : impl.numMaxThread ≤ 32) (h : getPowContext impl = none) :
    ∀ i < impl.numMaxThread.toNat, impl.free i = false := by
  unfold getPowContext at h
  rw [Option.map_eq_none_iff] at h
  intro i hi
  exact takeBit_eq_none (fun j => lt_of_mem_range hfits) h i (List.mem_range.mpr hi)

theorem free_freePowContext {i : Nat} (hi : i < 32)
    (hindex : (impl.context i).indexOfContext = i) (j : Nat) :
    (freePowContext impl i).free j = Function.update impl.free i true j := by
  unfold freePowContext ImplContext.free
  rw [hindex]
  exact getLsbD_setBit _ hi j

theorem free_initializeImplContext {functions : PowFunctions Ctx Choice} {host : Host Ctx}
    (hfits : host.numMaxThread ≤ 32)
    (h : initializeImplContext functions host impl = (true, impl')) :
    (∀ i < host.numMaxThread.toNat, impl'.free i = true) ∧
      impl'.numMaxThread = host.numMaxThread ∧
      impl'.numWorkingThread = impl.numWorkingThread := by
  unfold initializeImplContext at h
  split at h
  · cases hmemory : host.memory with
    | none =>
        rw [hmemory] at h
        cases h
    | some memory =>
        rw [hmemory] at h
        cases h
        exact ⟨getLsbD_shiftOnes _ (by omega), rfl, rfl⟩
  · cases h

theorem numWorkingThread_initializeImplContext (functions : PowFunctions Ctx Choice)
    (host : Host Ctx) (impl : ImplContext Ctx) :
    (initializeImplContext functions host impl).2.numWorkingThread = impl.numWorkingThread := by
  unfold initializeImplContext
  split
  · split <;> rfl
  · rfl

end spec

end Dcurl
