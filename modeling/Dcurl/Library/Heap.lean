import Mathlib.Algebra.Order.Group.Multiset
import Mathlib.Data.Finset.Card
import Mathlib.Data.Finset.Erase
import Mathlib.Data.Finset.Insert
import Mathlib.Tactic.Abel

/-! Programs that take blocks and give them back. A program goes wrong where it touches or
gives back a block that is not live, or needs one where it has none. What it leaves is told
by the blocks that it owns, next to any others that it knows nothing of. -/
namespace Dcurl.Library

/-- The live blocks; no address from `next` on has been given. -/
structure Heap where
  live : Finset Nat
  next : Nat
  fresh : ∀ p ∈ live, p < next

/-- `grants` answers every request for a block, by the address that it would get; the
result is none where the program goes wrong. -/
abbrev Mem : Type → Type := ReaderT (Nat → Bool) (StateT Heap Option)

namespace Mem

def run {α : Type} (program : Mem α) (grants : Nat → Bool) (heap : Heap) : Option (α × Heap) :=
  program grants heap

def wrong {α : Type} : Mem α := fun _ _ => none

def take : Mem (Option Nat) := fun grants heap =>
  if grants heap.next then
    some (some heap.next,
      { live := insert heap.next heap.live
        next := heap.next + 1
        fresh := fun p hp => (Finset.mem_insert.mp hp).elim (fun heq => heq ▸ Nat.lt_succ_self p)
          fun hold => Nat.lt_succ_of_lt (heap.fresh p hold) })
  else some (none, { heap with
    next := heap.next + 1
    fresh := fun p hp => Nat.lt_succ_of_lt (heap.fresh p hp) })

def give : Option Nat → Mem Unit
  | none => pure ()
  | some p => fun _ heap =>
      if p ∈ heap.live then
        some ((), { heap with
          live := heap.live.erase p
          fresh := fun q hq => heap.fresh q (Finset.mem_of_mem_erase hq) })
      else none

def touch : Option Nat → Mem Unit
  | none => wrong
  | some p => fun _ heap => if p ∈ heap.live then some ((), heap) else none

def Denied (grants : Nat → Bool) : Prop := ∃ p, grants p = false

/-- A program that owns the first blocks ends with the blocks of `post`, or goes wrong where
`allowed` lets it; the others stay as they are. -/
def Triple {α : Type} (grants : Nat → Bool) (allowed : Prop) (pre : Multiset Nat) (program : Mem α)
    (post : α → Multiset Nat → Prop) : Prop :=
  ∀ (heap : Heap) (frame : Multiset Nat), heap.live.val = frame + pre →
    (program.run grants heap = none ∧ allowed) ∨
    ∃ a heap' owned, program.run grants heap = some (a, heap') ∧ post a owned ∧
      heap'.live.val = frame + owned

variable {α β : Type} {grants : Nat → Bool} {allowed allowed' : Prop} {pre pre' rest : Multiset Nat}
  {program : Mem α} {post post' : α → Multiset Nat → Prop}

theorem run_bind (next : α → Mem β) (heap : Heap) :
    (program >>= next).run grants heap =
      (program.run grants heap).bind fun result => (next result.1).run grants result.2 := rfl

theorem run_take (grants : Nat → Bool) (heap : Heap) :
    ∃ heap', heap'.next = heap.next + 1 ∧
      take.run grants heap = some (if grants heap.next then some heap.next else none, heap') := by
  cases hgrant : grants heap.next with
  | true => exact ⟨_, rfl, if_pos hgrant⟩
  | false => exact ⟨_, rfl, if_neg (by simp [hgrant])⟩

namespace Triple

theorem pure {a : α} (hpost : post a pre) : Triple grants allowed pre (pure a) post :=
  fun heap _ hlive => Or.inr ⟨a, heap, pre, rfl, hpost, hlive⟩

theorem bind {next : α → Mem β} {last : β → Multiset Nat → Prop}
    (hprogram : Triple grants allowed pre program post)
    (hnext : ∀ a owned, post a owned → Triple grants allowed owned (next a) last) :
    Triple grants allowed pre (program >>= next) last := by
  intro heap frame hlive
  rw [run_bind]
  obtain ⟨hwrong, hallowed⟩ | ⟨a, heap', owned, hrun, hpost, hlive'⟩ := hprogram heap frame hlive
  · exact Or.inl ⟨by rw [hwrong, Option.bind_none], hallowed⟩
  · rw [hrun, Option.bind_some]
    exact hnext a owned hpost heap' frame hlive'

theorem of_eq (heq : pre = pre') (hprogram : Triple grants allowed pre' program post) :
    Triple grants allowed pre program post := heq ▸ hprogram

theorem mono (hprogram : Triple grants allowed pre program post) (hallowed : allowed → allowed')
    (hpost : ∀ a owned, post a owned → post' a owned) :
    Triple grants allowed' pre program post' := by
  intro heap frame hlive
  obtain ⟨hwrong, h⟩ | ⟨a, heap', owned, hrun, h, hlive'⟩ := hprogram heap frame hlive
  · exact Or.inl ⟨hwrong, hallowed h⟩
  · exact Or.inr ⟨a, heap', owned, hrun, hpost a owned h, hlive'⟩

/-- What a program does not own, it leaves. -/
theorem frame (hprogram : Triple grants allowed pre program post) (rest : Multiset Nat) :
    Triple grants allowed (pre + rest) program
      fun a owned => ∃ own, post a own ∧ owned = own + rest := by
  intro heap others hlive
  have hframe : heap.live.val = (others + rest) + pre := by
    rw [hlive]
    abel
  obtain ⟨hwrong, h⟩ | ⟨a, heap', owned, hrun, h, hlive'⟩ := hprogram heap _ hframe
  · exact Or.inl ⟨hwrong, h⟩
  · refine Or.inr ⟨a, heap', owned + rest, hrun, ⟨owned, h, rfl⟩, ?_⟩
    rw [hlive']
    abel

theorem step {next : α → Mem β} {last : β → Multiset Nat → Prop}
    (hprogram : Triple grants allowed pre program post) (rest : Multiset Nat)
    (hpre : pre' = pre + rest)
    (hnext : ∀ a owned, post a owned → Triple grants allowed (owned + rest) (next a) last) :
    Triple grants allowed pre' (program >>= next) last := by
  rw [hpre]
  apply (hprogram.frame rest).bind
  rintro a _ ⟨owned, hpost, rfl⟩
  exact hnext a owned hpost

theorem release {next : α → Mem β} {last : β → Multiset Nat → Prop}
    (hprogram : Triple grants allowed pre program fun _ owned => owned = 0)
    (hpre : pre' = pre + rest) (hnext : ∀ a, Triple grants allowed rest (next a) last) :
    Triple grants allowed pre' (program >>= next) last := by
  apply hprogram.step rest hpre
  rintro a _ rfl
  rw [zero_add]
  exact hnext a

theorem ite {condition : Prop} [Decidable condition] {other : Mem α}
    (hthen : condition → Triple grants allowed pre program post)
    (helse : ¬condition → Triple grants allowed pre other post) :
    Triple grants allowed pre (if condition then program else other) post := by
  by_cases h : condition
  · rw [if_pos h]
    exact hthen h
  · rw [if_neg h]
    exact helse h

end Triple

/-- What a program that starts with no blocks leaves, it leaves next to all others. -/
theorem Triple.grows (hprogram : Triple grants allowed 0 program post) (heap : Heap) :
    (program.run grants heap = none ∧ allowed) ∨
    ∃ a heap' owned, program.run grants heap = some (a, heap') ∧ post a owned ∧
      heap.live ⊆ heap'.live ∧ heap'.live.card = heap.live.card + owned.card := by
  obtain hwrong | ⟨a, heap', owned, hrun, hpost, hlive⟩ :=
    hprogram heap heap.live.val (add_zero _).symm
  · exact Or.inl hwrong
  · refine Or.inr ⟨a, heap', owned, hrun, hpost, ?_, ?_⟩
    · exact Finset.val_le_iff.mp (hlive ▸ Multiset.le_add_right _ _)
    · simp only [Finset.card, hlive, Multiset.card_add]

/-- A program that owns nothing before and after it leaves the heap as it was. -/
theorem Triple.balanced (hprogram : Triple grants allowed 0 program
    fun a owned => owned = 0 ∧ post a owned) (heap : Heap) :
    (program.run grants heap = none ∧ allowed) ∨
    ∃ a heap', program.run grants heap = some (a, heap') ∧ heap'.live = heap.live ∧
      post a 0 := by
  obtain hwrong | ⟨a, heap', _, hrun, ⟨rfl, hpost⟩, hsubset, hcard⟩ := hprogram.grows heap
  · exact Or.inl hwrong
  · exact Or.inr ⟨a, heap', hrun, (Finset.eq_of_subset_of_card_le hsubset hcard.le).symm, hpost⟩

theorem Triple.restores {heap heap' : Heap} {owned : Multiset Nat} {giveBack : Mem Unit}
    (hlive : heap'.live.val = heap.live.val + owned)
    (hgive : Triple grants False owned giveBack fun _ left => left = 0) :
    heap.live ⊆ heap'.live ∧ heap'.live.card = heap.live.card + owned.card ∧
      ∃ last, giveBack.run grants heap' = some ((), last) ∧ last.live = heap.live := by
  refine ⟨Finset.val_le_iff.mp (hlive ▸ Multiset.le_add_right _ _), ?_, ?_⟩
  · rw [← Finset.card_val, hlive, Multiset.card_add, Finset.card_val]
  · obtain ⟨_, hfalse⟩ | ⟨_, last, _, hrun, rfl, hback⟩ := hgive heap' heap.live.val hlive
    · exact hfalse.elim
    · exact ⟨last, hrun, Finset.val_injective (hback.trans (add_zero _))⟩

theorem Triple.mapM {ι : Type} {programs : ι → Mem α} {value : ι → α} {cost : ι → Nat}
    {exception : Prop}
    (hprogram : ∀ i, Triple grants allowed 0 (programs i) fun a owned =>
      a = value i ∧ owned.card = cost i ∨ exception) (l : List ι) :
    Triple grants allowed 0 (l.mapM' programs) fun as owned =>
      as = l.map value ∧ owned.card = (l.map cost).sum ∨ exception := by
  induction l with
  | nil => exact .pure (Or.inl ⟨rfl, rfl⟩)
  | cons i l ih =>
      rw [List.mapM'_cons]
      apply (hprogram i).bind
      intro a own hown
      apply ih.step own (zero_add own).symm
      intro as owned howned
      refine .pure (hown.elim (fun hown => howned.imp_left fun howned => ?_) Or.inr)
      simp [hown.1, hown.2, howned.1, howned.2, add_comm]

theorem triple_wrong (hallowed : allowed) : Triple grants allowed pre (wrong : Mem α) post :=
  fun _ _ _ => Or.inl ⟨rfl, hallowed⟩

def block : Option Nat → Multiset Nat
  | none => 0
  | some p => {p}

theorem triple_take : Triple grants allowed 0 take fun p owned =>
    owned = block p ∧ (p = none → Denied grants) := by
  intro heap frame hlive
  rw [add_zero] at hlive
  right
  by_cases hgrant : grants heap.next = true
  · refine ⟨some heap.next, _, {heap.next}, if_pos hgrant, ?_, ?_⟩
    · simp [block]
    · have hnew : heap.next ∉ heap.live := fun hmem => Nat.lt_irrefl _ (heap.fresh _ hmem)
      simp only [Finset.insert_val_of_notMem hnew, hlive]
      rw [← Multiset.singleton_add, add_comm]
  · refine ⟨none, _, 0, if_neg hgrant, ?_, ?_⟩
    · exact ⟨rfl, fun _ => ⟨_, Bool.not_eq_true _ ▸ hgrant⟩⟩
    · simp [hlive]

theorem triple_give (p : Option Nat) :
    Triple grants allowed (block p) (give p) fun _ owned => owned = 0 := by
  cases p with
  | none => exact Triple.pure rfl
  | some p =>
      intro heap frame hlive
      have hmem : p ∈ heap.live := by
        rw [← Finset.mem_val, hlive]
        simp [block]
      refine Or.inr ⟨(), _, 0, if_pos hmem, rfl, ?_⟩
      simp only [Finset.erase_val, hlive, block, add_zero]
      rw [add_comm, Multiset.singleton_add, Multiset.erase_cons_head]

theorem triple_touch {p : Nat} (hmem : p ∈ pre) :
    Triple grants allowed pre (touch (some p)) fun _ owned => owned = pre := by
  intro heap frame hlive
  have hlives : p ∈ heap.live := by
    rw [← Finset.mem_val, hlive]
    exact Multiset.mem_add.mpr (Or.inr hmem)
  exact Or.inr ⟨(), heap, pre, if_pos hlives, rfl, hlive⟩

namespace Triple

theorem take {next : Option Nat → Mem β} {last : β → Multiset Nat → Prop}
    (hnone : Denied grants → Triple grants allowed pre (next none) last)
    (hsome : ∀ p, Triple grants allowed ({p} + pre) (next (some p)) last) :
    Triple grants allowed pre (Mem.take >>= next) last := by
  apply triple_take.step pre (zero_add pre).symm
  rintro (_ | p) _ ⟨rfl, hdenied⟩
  · rw [block, zero_add]
    exact hnone (hdenied rfl)
  · exact hsome p

theorem give {p : Option Nat} {next : Unit → Mem β} {last : β → Multiset Nat → Prop}
    (hpre : pre = block p + rest) (hnext : Triple grants allowed rest (next ()) last) :
    Triple grants allowed pre (Mem.give p >>= next) last :=
  (triple_give p).release hpre fun _ => hnext

theorem touch {p : Nat} {next : Unit → Mem β} {last : β → Multiset Nat → Prop} (hmem : p ∈ pre)
    (hnext : Triple grants allowed pre (next ()) last) :
    Triple grants allowed pre (Mem.touch (some p) >>= next) last := by
  apply (triple_touch hmem).bind
  rintro _ _ rfl
  exact hnext

end Triple

end Mem

end Dcurl.Library
