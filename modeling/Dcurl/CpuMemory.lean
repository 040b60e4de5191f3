import Dcurl.Library.Chunk
import Dcurl.Library.Heap

/-! The contexts of the CPU builds in memory: `pow_c_context_initialize`, which `pow_sse.c`
and `pow_avx.c` repeat, cuts the arrays of all contexts out of four chunks. -/
namespace Dcurl.Memory

open Library

/-- What stands behind `impl_ctx->context`: the blocks, the pointers into `nonce_chunk` that
`nonce_ptr_chunk` holds, and how many loops are initialized. -/
structure CpuContexts where
  ctx : Nat
  workReqChunk : Nat
  pitemChunk : Nat
  noncePtrChunk : Nat
  nonceChunk : Nat
  noncePtr : Nat → Nat
  loops : Nat

def CpuContexts.blocks (held : CpuContexts) : Multiset Nat :=
  {held.nonceChunk} + ({held.noncePtrChunk} +
    ({held.pitemChunk} + ({held.workReqChunk} + {held.ctx})))

/-- The loop over `ctx[i].nonce_array[j]`, with pointers as offsets. -/
def carve (numMaxThread nproc : Nat) : Nat → Nat :=
  (List.range numMaxThread).foldl
    (fun ptr i => (List.range nproc).foldl
      (fun ptr j => Function.update ptr (i * nproc + j) (i * 81 * nproc + j * 81)) ptr)
    fun _ => 0

/-- `uv_loop_close` on the loops of all contexts; it reads what `uv_loop_init` has written. -/
def closeLoops (initialized numMaxThread : Nat) : Mem Unit :=
  if numMaxThread ≤ initialized then pure () else Mem.wrong

def checkChunks (numMaxThread nproc : Int) (ctx : Nat)
    (workReqChunk pitemChunk noncePtrChunk nonceChunk : Option Nat) : Mem (Option CpuContexts) :=
  match workReqChunk, pitemChunk, noncePtrChunk, nonceChunk with
  | some workReqChunk, some pitemChunk, some noncePtrChunk, some nonceChunk =>
      return some ⟨ctx, workReqChunk, pitemChunk, noncePtrChunk, nonceChunk,
        carve numMaxThread.toNat nproc.toNat, numMaxThread.toNat⟩
  | _, _, _, _ => do
      closeLoops 0 numMaxThread.toNat
      Mem.give (some ctx)
      Mem.give workReqChunk
      Mem.give pitemChunk
      Mem.give noncePtrChunk
      Mem.give nonceChunk
      return none

def contextInitialize (numMaxThread nproc : Int) : Mem (Option CpuContexts) :=
  if numMaxThread ≤ 0 ∨ nproc ≤ 0 then return none
  else do
    let some ctx ← Mem.take | return none
    let workReqChunk ← Mem.take
    let pitemChunk ← Mem.take
    let noncePtrChunk ← Mem.take
    let nonceChunk ← Mem.take
    checkChunks numMaxThread nproc ctx workReqChunk pitemChunk noncePtrChunk nonceChunk

/-- A chunk is freed through the pointers of `ctx[0]`; `nonce_array[0]` is looked up. -/
def contextDestroy (held : CpuContexts) (numMaxThread : Int) : Mem Unit := do
  closeLoops held.loops numMaxThread.toNat
  Mem.touch (some held.ctx)
  Mem.give (some held.workReqChunk)
  Mem.give (some held.pitemChunk)
  Mem.touch (some held.noncePtrChunk)
  if held.noncePtr 0 = 0 then Mem.give (some held.nonceChunk) else Mem.wrong
  Mem.give (some held.noncePtrChunk)
  Mem.give (some held.ctx)

section carve

variable {numMaxThread nproc : Nat}

def pointerTo (nproc : Nat) (place : Chunk.Place) : Nat :=
  place.row * 81 * nproc + place.array * 81

def pointers (numMaxThread nproc : Nat) : List (Chunk.Place × Nat) :=
  (List.range numMaxThread).flatMap fun i => (List.range nproc).map fun j =>
    (⟨i, j, 0⟩, pointerTo nproc ⟨i, j, 0⟩)

theorem carve_eq : carve numMaxThread nproc =
    (pointers numMaxThread nproc).foldl (Chunk.store 1 nproc) fun _ => 0 := by
  unfold carve pointers
  rw [List.foldl_flatMap]
  simp only [List.foldl_map, pointerTo, Chunk.store, Chunk.Place.address, Chunk.address,
    Nat.mul_one, Nat.add_zero]

theorem carve_apply {i j : Nat} (hi : i < numMaxThread) (hj : j < nproc) :
    carve numMaxThread nproc (i * nproc + j) = i * 81 * nproc + j * 81 := by
  have hmem : ∀ write ∈ pointers numMaxThread nproc,
      write.1.Within numMaxThread nproc 1 ∧ write.2 = pointerTo nproc write.1 := by
    intro write hwrite
    obtain ⟨i, hi, hmap⟩ := List.mem_flatMap.mp hwrite
    obtain ⟨j, hj, rfl⟩ := List.mem_map.mp hmap
    exact ⟨⟨List.mem_range.mp hi, List.mem_range.mp hj, Nat.one_pos⟩, rfl⟩
  have hplace : (⟨i, j, 0⟩ : Chunk.Place) ∈ (pointers numMaxThread nproc).map Prod.fst := by
    simp only [pointers, List.map_flatMap, List.map_map, List.mem_flatMap, List.mem_map,
      List.mem_range]
    exact ⟨i, hi, j, hj, rfl⟩
  have hrep : Chunk.Represents numMaxThread nproc 1 (fun _ => 0) fun _ => 0 := fun _ _ => rfl
  have hcarve := hrep.foldl (fun write hwrite => (hmem write hwrite).1) ⟨i, j, 0⟩
    ⟨hi, hj, Nat.one_pos⟩
  rw [← carve_eq, Chunk.foldl_put (fun write hwrite => (hmem write hwrite).2), if_pos hplace]
    at hcarve
  simpa [pointerTo, Chunk.Place.address, Chunk.address] using hcarve

end carve

section contexts

variable {grants : Nat → Bool} {allowed : Prop}

structure Initialized (numMaxThread : Int) (contexts : Option CpuContexts)
    (owned : Multiset Nat) : Prop where
  owned_eq : owned = (contexts.map CpuContexts.blocks).getD 0
  loops : ∀ held, contexts = some held → held.loops = numMaxThread.toNat ∧ held.noncePtr 0 = 0

theorem closeLoops_eq_wrong {numMaxThread : Int} (hmax : 0 < numMaxThread) :
    closeLoops 0 numMaxThread.toNat = Mem.wrong := if_neg (by omega)

theorem triple_checkChunks {numMaxThread nproc : Int} (hmax : 0 < numMaxThread)
    (hnproc : 0 < nproc) {ctx : Nat}
    {workReqChunk pitemChunk noncePtrChunk nonceChunk : Option Nat} :
    Mem.Triple grants True
      (Mem.block nonceChunk + (Mem.block noncePtrChunk +
        (Mem.block pitemChunk + (Mem.block workReqChunk + {ctx}))))
      (checkChunks numMaxThread nproc ctx workReqChunk pitemChunk noncePtrChunk nonceChunk)
      (Initialized numMaxThread) := by
  have hfail : ∀ (pre : Multiset Nat) (next : Unit → Mem (Option CpuContexts)),
      Mem.Triple grants True pre (closeLoops 0 numMaxThread.toNat >>= next)
        (Initialized numMaxThread) := by
    intro pre next
    rw [closeLoops_eq_wrong hmax]
    exact fun _ _ _ => Or.inl ⟨rfl, trivial⟩
  cases workReqChunk with
  | none => exact hfail _ _
  | some workReqChunk =>
    cases pitemChunk with
    | none => exact hfail _ _
    | some pitemChunk =>
      cases noncePtrChunk with
      | none => exact hfail _ _
      | some noncePtrChunk =>
        cases nonceChunk with
        | none => exact hfail _ _
        | some nonceChunk =>
          refine .pure ⟨rfl, ?_⟩
          rintro held ⟨⟩
          have hzero : 0 < numMaxThread.toNat ∧ 0 < nproc.toNat := by omega
          have hfirst := carve_apply hzero.1 hzero.2
          rw [Nat.zero_mul, Nat.zero_add] at hfirst
          exact ⟨rfl, by simpa using hfirst⟩

theorem triple_contextInitialize (numMaxThread nproc : Int) :
    Mem.Triple grants True 0 (contextInitialize numMaxThread nproc) (Initialized numMaxThread) := by
  apply Mem.Triple.ite
  · intro _
    exact .pure ⟨rfl, by simp⟩
  intro hpositive
  apply Mem.Triple.take
  · intro _
    exact .pure ⟨rfl, by simp⟩
  intro ctx
  rw [add_zero]
  apply Mem.triple_take.step {ctx} (zero_add _).symm
  rintro workReqChunk _ ⟨rfl, _⟩
  apply Mem.triple_take.step _ (zero_add _).symm
  rintro pitemChunk _ ⟨rfl, _⟩
  apply Mem.triple_take.step _ (zero_add _).symm
  rintro noncePtrChunk _ ⟨rfl, _⟩
  apply Mem.triple_take.step _ (zero_add _).symm
  rintro nonceChunk _ ⟨rfl, _⟩
  exact triple_checkChunks (by omega) (by omega)

theorem triple_contextDestroy {numMaxThread : Int} {held : CpuContexts}
    (hloops : held.loops = numMaxThread.toNat ∧ held.noncePtr 0 = 0) :
    Mem.Triple grants allowed held.blocks (contextDestroy held numMaxThread)
      fun _ owned => owned = 0 := by
  obtain ⟨ctx, workReqChunk, pitemChunk, noncePtrChunk, nonceChunk, noncePtr, loops⟩ := held
  obtain ⟨rfl, hfirst⟩ := hloops
  unfold contextDestroy
  dsimp only at hfirst
  simp only [closeLoops, le_refl, if_true, hfirst, pure_bind]
  refine Mem.Triple.touch (by simp [CpuContexts.blocks]) ?_
  refine .give (p := some workReqChunk) (show _ = {workReqChunk} + ({pitemChunk} +
    ({nonceChunk} + ({noncePtrChunk} + {ctx}))) by
      simp only [CpuContexts.blocks]
      abel) ?_
  refine .give (p := some pitemChunk) rfl ?_
  refine .touch (by simp) ?_
  refine .give (p := some nonceChunk) rfl ?_
  refine .give (p := some noncePtrChunk) rfl ?_
  exact Mem.triple_give (some ctx)

theorem run_checkChunks_eq_none_iff {numMaxThread nproc : Int} (hmax : 0 < numMaxThread)
    {ctx : Nat} {workReqChunk pitemChunk noncePtrChunk nonceChunk : Option Nat} {heap : Heap} :
    (checkChunks numMaxThread nproc ctx workReqChunk pitemChunk noncePtrChunk nonceChunk).run
        grants heap = none ↔
      workReqChunk = none ∨ pitemChunk = none ∨ noncePtrChunk = none ∨ nonceChunk = none := by
  have hfail : ∀ next : Unit → Mem (Option CpuContexts),
      (closeLoops 0 numMaxThread.toNat >>= next).run grants heap = none := by
    intro next
    rw [closeLoops_eq_wrong hmax]
    rfl
  cases workReqChunk with
  | none => exact iff_of_true (hfail _) (by simp)
  | some workReqChunk =>
    cases pitemChunk with
    | none => exact iff_of_true (hfail _) (by simp)
    | some pitemChunk =>
      cases noncePtrChunk with
      | none => exact iff_of_true (hfail _) (by simp)
      | some noncePtrChunk =>
        cases nonceChunk with
        | none => exact iff_of_true (hfail _) (by simp)
        | some nonceChunk => exact iff_of_false (by rintro ⟨⟩) (by simp)

/-- Where a chunk is denied, the loops are closed that nobody has initialized. -/
theorem contextInitialize_eq_none_iff (numMaxThread nproc : Int) (heap : Heap) :
    (contextInitialize numMaxThread nproc).run grants heap = none ↔
      0 < numMaxThread ∧ 0 < nproc ∧ grants heap.next = true ∧
        ∃ k < 4, grants (heap.next + 1 + k) = false := by
  unfold contextInitialize
  by_cases hpositive : numMaxThread ≤ 0 ∨ nproc ≤ 0
  · rw [if_pos hpositive]
    refine iff_of_false (by rintro ⟨⟩) ?_
    omega
  rw [if_neg hpositive]
  have hmax : 0 < numMaxThread ∧ 0 < nproc := by omega
  obtain ⟨first, hfirst, hctx⟩ := Mem.run_take grants heap
  obtain ⟨second, hsecond, hwork⟩ := Mem.run_take grants first
  obtain ⟨third, hthird, hpitem⟩ := Mem.run_take grants second
  obtain ⟨fourth, hfourth, hptr⟩ := Mem.run_take grants third
  obtain ⟨fifth, _, hnonce⟩ := Mem.run_take grants fourth
  have hchunks : (∃ k < 4, grants (heap.next + 1 + k) = false) ↔
      grants first.next = false ∨ grants second.next = false ∨ grants third.next = false ∨
        grants fourth.next = false := by
    rw [hfourth, hthird, hsecond, hfirst]
    constructor
    · rintro ⟨k, hk, hdenied⟩
      obtain rfl | rfl | rfl | rfl : k = 0 ∨ k = 1 ∨ k = 2 ∨ k = 3 := by omega
      · exact Or.inl hdenied
      · exact Or.inr (Or.inl hdenied)
      · exact Or.inr (Or.inr (Or.inl hdenied))
      · exact Or.inr (Or.inr (Or.inr hdenied))
    · rintro (hdenied | hdenied | hdenied | hdenied)
      · exact ⟨0, by decide, hdenied⟩
      · exact ⟨1, by decide, hdenied⟩
      · exact ⟨2, by decide, hdenied⟩
      · exact ⟨3, by decide, hdenied⟩
  rw [Mem.run_bind, hctx, Option.bind_some]
  cases hgrant : grants heap.next with
  | false => exact iff_of_false (by rintro ⟨⟩) (by simp)
  | true =>
      simp only [if_true, Mem.run_bind, hwork, hpitem, hptr, hnonce, Option.bind_some,
        run_checkChunks_eq_none_iff hmax.1, hchunks, hmax, true_and]
      simp

/-- The contexts of a CPU build: nothing, or five blocks that `pow_c_context_destroy` gives
back through the pointers of the first context. Only where a chunk is denied although the
array of contexts is granted, memory is read that was never written. -/
theorem contexts_balanced (grants : Nat → Bool) (numMaxThread nproc : Int) (heap : Heap) :
    ((contextInitialize numMaxThread nproc).run grants heap = none ↔
      0 < numMaxThread ∧ 0 < nproc ∧ grants heap.next = true ∧
        ∃ k < 4, grants (heap.next + 1 + k) = false) ∧
    ∀ contexts heap', (contextInitialize numMaxThread nproc).run grants heap =
        some (contexts, heap') →
      (contexts = none → heap'.live = heap.live) ∧
      ∀ held, contexts = some held → heap.live ⊆ heap'.live ∧
        heap'.live.card = heap.live.card + 5 ∧
        ∃ last, (contextDestroy held numMaxThread).run grants heap' = some ((), last) ∧
          last.live = heap.live := by
  refine ⟨contextInitialize_eq_none_iff numMaxThread nproc heap, ?_⟩
  intro contexts heap' hrun
  obtain ⟨hnone, _⟩ | ⟨_, _, _, hsome, ⟨rfl, hloops⟩, hlive⟩ :=
    triple_contextInitialize numMaxThread nproc heap heap.live.val (add_zero _).symm
  · rw [hrun] at hnone
    cases hnone
  rw [hrun] at hsome
  cases hsome
  refine ⟨?_, ?_⟩
  · rintro rfl
    exact Finset.val_injective (hlive.trans (add_zero _))
  · rintro held rfl
    obtain ⟨hsubset, hcard, hrestored⟩ :=
      Mem.Triple.restores hlive (triple_contextDestroy (hloops held rfl))
    refine ⟨hsubset, hcard.trans ?_, hrestored⟩
    simp [CpuContexts.blocks]

end contexts

end Dcurl.Memory
