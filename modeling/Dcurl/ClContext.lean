import Mathlib.Algebra.Order.BigOperators.Group.Finset
import Mathlib.Algebra.GroupWithZero.Nat
import Mathlib.Data.List.Forall2

/-! `init_buffer_info` and `init_cl_buffer` of `clcontext.c`. Sizes are exact: with
less than 2^34 bytes `temp` fits its `int`. -/
namespace Dcurl.ClContext

structure BufferInfo where
  size : Nat
  initFlags : Nat

def BufferInfo.PerGroup (info : BufferInfo) : Prop := info.initFlags &&& 2 ≠ 0

instance (info : BufferInfo) : Decidable info.PerGroup :=
  inferInstanceAs (Decidable (info.initFlags &&& 2 ≠ 0))

/-- The fields of `cl_context_t` that decide the sizes. -/
structure Context where
  numCores : Nat
  maxMemory : Nat
  numWorkGroup : Nat

structure Driver where
  createBuffer : (i mem : Nat) → Bool
  setKernelArg : (j i : Nat) → Bool

/-- `mem` of one buffer, and the context after its branch. -/
def bufferMem (ctx : Context) (info : BufferInfo) : Context × Nat :=
  if info.PerGroup then
    let mem := info.size * (ctx.numCores * ctx.numWorkGroup)
    if mem > ctx.maxMemory then
      let temp := ctx.maxMemory / info.size
      ({ ctx with numCores := temp }, temp * info.size)
    else (ctx, mem)
  else (ctx, info.size)

/-- The loop from buffer `i` on, with the sizes that it allocates; none when the
source returns false. -/
def initClBuffer (driver : Driver) :
    List BufferInfo → Nat → Context → Nat → Option (Context × List Nat)
  | [], _, ctx, _ => some (ctx, [])
  | info :: rest, i, ctx, maxMem =>
      let (ctx, mem) := bufferMem ctx info
      let maxMem := maxMem + mem
      if maxMem ≥ ctx.maxMemory then none
      else if !driver.createBuffer i mem then none
      else if !(List.range 3).all fun j => driver.setKernelArg j i then none
      else (initClBuffer driver rest (i + 1) ctx maxMem).map fun (ctx, mems) => (ctx, mem :: mems)

def bufferInfo : List BufferInfo :=
  [⟨243, 0⟩, ⟨8 * 729, 2⟩, ⟨8 * 729, 2⟩, ⟨8 * 729, 2⟩, ⟨8 * 729, 2⟩, ⟨8, 0⟩, ⟨1, 0⟩, ⟨8, 2⟩,
    ⟨8, 0⟩]

def initBufferInfo (driver : Driver) (ctx : Context) : Option (Context × List Nat) :=
  initClBuffer driver bufferInfo 0 ctx 0

def Room (numCores : Nat) (infos : List BufferInfo) (mems : List Nat) : Prop :=
  List.Forall₂ (fun info mem => info.PerGroup → info.size * numCores ≤ mem) infos mems

section loop

variable {driver : Driver} {info : BufferInfo} {infos rest : List BufferInfo} {i maxMem : Nat}
  {ctx final : Context} {mems : List Nat}

theorem bufferMem_maxMemory (ctx : Context) (info : BufferInfo) :
    (bufferMem ctx info).1.maxMemory = ctx.maxMemory := by
  unfold bufferMem
  dsimp only
  split
  · split <;> rfl
  · rfl

theorem initClBuffer_cons
    (h : initClBuffer driver (info :: rest) i ctx maxMem = some (final, mems)) :
    maxMem + (bufferMem ctx info).2 < ctx.maxMemory ∧ ∃ mems',
      mems = (bufferMem ctx info).2 :: mems' ∧
        initClBuffer driver rest (i + 1) (bufferMem ctx info).1
          (maxMem + (bufferMem ctx info).2) = some (final, mems') := by
  rw [initClBuffer] at h
  dsimp only at h
  rw [bufferMem_maxMemory] at h
  split at h
  · cases h
  · rename_i hroom
    split at h
    · cases h
    · split at h
      · cases h
      · have ⟨⟨ctx', mems'⟩, hrest, heq⟩ := Option.map_eq_some_iff.mp h
        cases heq
        exact ⟨Nat.lt_of_not_ge hroom, mems', rfl, hrest⟩

theorem sum_lt (h : initClBuffer driver infos i ctx maxMem = some (final, mems))
    (hstart : maxMem < ctx.maxMemory) : maxMem + mems.sum < ctx.maxMemory := by
  induction infos generalizing i ctx maxMem mems with
  | nil =>
      cases h
      exact hstart
  | cons info rest ih =>
      have ⟨hroom, mems', hmems, hrest⟩ := initClBuffer_cons h
      have hlt := ih hrest (by rw [bufferMem_maxMemory]; exact hroom)
      rw [bufferMem_maxMemory, Nat.add_assoc] at hlt
      rw [hmems, List.sum_cons]
      exact hlt

theorem bufferMem_of_room
    (hroom : info.PerGroup → info.size * (ctx.numCores * ctx.numWorkGroup) ≤ ctx.maxMemory) :
    (bufferMem ctx info).1 = ctx ∧
      (info.PerGroup →
        (bufferMem ctx info).2 = info.size * (ctx.numCores * ctx.numWorkGroup)) := by
  unfold bufferMem
  by_cases hgroup : info.PerGroup
  · rw [if_pos hgroup]
    dsimp only
    rw [if_neg (Nat.not_lt.mpr (hroom hgroup))]
    exact ⟨rfl, fun _ => rfl⟩
  · rw [if_neg hgroup]
    exact ⟨rfl, fun h => absurd h hgroup⟩

theorem room_of_uncapped (hwork : 1 ≤ ctx.numWorkGroup)
    (huncapped : ∀ info ∈ infos, info.PerGroup →
      info.size * (ctx.numCores * ctx.numWorkGroup) ≤ ctx.maxMemory)
    (h : initClBuffer driver infos i ctx maxMem = some (final, mems)) :
    final.numCores = ctx.numCores ∧ Room ctx.numCores infos mems := by
  induction infos generalizing i maxMem mems with
  | nil =>
      cases h
      exact ⟨rfl, .nil⟩
  | cons info rest ih =>
      have ⟨_, mems', hmems, hrest⟩ := initClBuffer_cons h
      have ⟨hctx, hmem⟩ := bufferMem_of_room (huncapped info List.mem_cons_self)
      rw [hctx] at hrest
      have ⟨hcores, hroom⟩ :=
        ih (fun other hother => huncapped other (List.mem_cons_of_mem info hother)) hrest
      rw [hmems]
      refine ⟨hcores, .cons ?_ hroom⟩
      intro hgroup
      rw [hmem hgroup]
      exact Nat.mul_le_mul_left _ (Nat.le_mul_of_pos_right _ hwork)

theorem bufferMem_of_capped (hgroup : info.PerGroup)
    (hcapped : ctx.maxMemory < info.size * (ctx.numCores * ctx.numWorkGroup)) :
    bufferMem ctx info = ({ ctx with numCores := ctx.maxMemory / info.size },
      ctx.maxMemory / info.size * info.size) := by
  unfold bufferMem
  rw [if_pos hgroup]
  dsimp only
  rw [if_pos hcapped]

theorem le_bufferMem_of_capped (hgroup : info.PerGroup) (hwork : 1 ≤ ctx.numWorkGroup) :
    ctx.maxMemory / info.size * info.size ≤
      (bufferMem { ctx with numCores := ctx.maxMemory / info.size } info).2 := by
  by_cases hcapped : ctx.maxMemory < info.size * (ctx.maxMemory / info.size * ctx.numWorkGroup)
  · have hmem : bufferMem { ctx with numCores := ctx.maxMemory / info.size } info = _ :=
      bufferMem_of_capped hgroup hcapped
    exact Nat.le_of_eq (congrArg Prod.snd hmem).symm
  · rw [(bufferMem_of_room fun _ => Nat.le_of_not_lt hcapped).2 hgroup, Nat.mul_comm]
    exact Nat.mul_le_mul_left _ (Nat.le_mul_of_pos_right _ hwork)

theorem div_eq_zero_of_capped (hgroup : info.PerGroup) (hsize : 0 < info.size)
    (hwork : 1 ≤ ctx.numWorkGroup)
    (hcapped : ctx.maxMemory < info.size * (ctx.numCores * ctx.numWorkGroup))
    (h : initClBuffer driver (info :: info :: rest) i ctx maxMem = some (final, mems)) :
    ctx.maxMemory / info.size = 0 := by
  have ⟨_, mems1, _, h1⟩ := initClBuffer_cons h
  have ⟨htwice, _⟩ := initClBuffer_cons h1
  rw [bufferMem_of_capped hgroup hcapped] at htwice
  have hsecond := le_bufferMem_of_capped hgroup hwork
  dsimp only at htwice
  by_contra hpos
  have hone : info.size ≤ ctx.maxMemory / info.size * info.size :=
    Nat.le_mul_of_pos_left _ (Nat.pos_of_ne_zero hpos)
  have hlt := Nat.lt_div_mul_add hsize (a := ctx.maxMemory)
  omega

theorem room_of_capped (hgroup : info.PerGroup) (hsize : 0 < info.size)
    (hwork : 1 ≤ ctx.numWorkGroup)
    (hcapped : ctx.maxMemory < info.size * (ctx.numCores * ctx.numWorkGroup))
    (h : initClBuffer driver (info :: info :: rest) i ctx maxMem = some (final, mems)) :
    final.numCores = 0 ∧ Room 0 (info :: info :: rest) mems := by
  have hzero := div_eq_zero_of_capped hgroup hsize hwork hcapped h
  have ⟨_, mems1, hmems, h1⟩ := initClBuffer_cons h
  rw [bufferMem_of_capped hgroup hcapped, hzero] at h1
  have ⟨hcores, hroom⟩ : final.numCores = 0 ∧ Room 0 (info :: rest) mems1 := by
    refine room_of_uncapped ?_ ?_ h1
    · exact hwork
    · intro other _ _
      rw [Nat.zero_mul, Nat.mul_zero]
      exact Nat.zero_le _
  rw [hmems]
  exact ⟨hcores, .cons (fun _ => Nat.zero_le _) hroom⟩

end loop

/-- All per-group buffers of a context that comes up have room for the groups that
`pwork` starts, within the memory of the device. -/
theorem initBufferInfo_fits (driver : Driver) (ctx final : Context) (mems : List Nat)
    (hwork : 1 ≤ ctx.numWorkGroup) (h : initBufferInfo driver ctx = some (final, mems)) :
    Room final.numCores bufferInfo mems ∧ mems.sum < ctx.maxMemory := by
  unfold initBufferInfo at h
  have ⟨hlimit, mems1, hmems, h1⟩ := initClBuffer_cons h
  have hsum := sum_lt h (by omega)
  rw [Nat.zero_add] at hsum
  refine ⟨?_, hsum⟩
  by_cases hcapped : ctx.maxMemory < 8 * 729 * (ctx.numCores * ctx.numWorkGroup)
  · -- `mid_low` is capped, and `mid_high` is of the same size.
    have ⟨hcores, hroom⟩ := room_of_capped (by decide) (by decide) hwork hcapped h1
    rw [hcores, hmems]
    exact .cons (fun _ => Nat.zero_le _) hroom
  · -- No per-group buffer is larger than `mid_low`.
    have ⟨hcores, hroom⟩ := room_of_uncapped hwork (fun info hinfo _ => by
      have hsize : info.size ≤ 8 * 729 := by
        revert info
        decide
      exact Nat.le_trans (Nat.mul_le_mul_right _ hsize) (Nat.le_of_not_lt hcapped)) h
    rw [hcores]
    exact hroom

theorem initBufferInfo_fits_two :
    Room 2 bufferInfo [243, 2985984, 2985984, 2985984, 2985984, 8, 1, 4096, 8] ∧
      [243, 2985984, 2985984, 2985984, 2985984, 8, 1, 4096, 8].sum < 2 ^ 30 :=
  initBufferInfo_fits ⟨fun _ _ => true, fun _ _ => true⟩ ⟨2, 2 ^ 30, 256⟩ ⟨2, 2 ^ 30, 256⟩ _
    (by decide) rfl

end Dcurl.ClContext
