import Mathlib.Logic.Function.Iterate

/-! Double buffering: a pass reads one buffer, fills the other and swaps the two
pointers. After `n` passes the source pointer has the parity of `n`. -/
namespace Dcurl.Library.PingPong

variable {β : Type*}

inductive Slot where
  | first
  | second

structure Buffers (β : Type*) where
  first : β
  second : β

def Buffers.read (buffers : Buffers β) : Slot → β
  | .first => buffers.first
  | .second => buffers.second

def Buffers.write (buffers : Buffers β) : Slot → β → Buffers β
  | .first, value => { buffers with first := value }
  | .second, value => { buffers with second := value }

@[simp] theorem Buffers.read_write_self (buffers : Buffers β) (slot : Slot) (value : β) :
    (buffers.write slot value).read slot = value := by
  cases slot <;> rfl

structure Cursor (β : Type*) where
  buffers : Buffers β
  source : Slot
  target : Slot

/-- `fill` sees the source and what the target still holds. -/
def pass (fill : β → β → β) (cursor : Cursor β) : Cursor β where
  buffers := cursor.buffers.write cursor.target
    (fill (cursor.buffers.read cursor.source) (cursor.buffers.read cursor.target))
  source := cursor.target
  target := cursor.source

def start (buffers : Buffers β) : Cursor β := ⟨buffers, .first, .second⟩

def slotAfter (n : Nat) : Slot := if n % 2 = 0 then .first else .second

theorem slotAfter_add_two (n : Nat) : slotAfter (n + 2) = slotAfter n := by
  simp [slotAfter]

section iterate

variable (round : β → β) (buffers : Buffers β) (n : Nat)

theorem iterate_pointers :
    ((pass fun source _ => round source)^[n] (start buffers)).source = slotAfter n ∧
      ((pass fun source _ => round source)^[n] (start buffers)).target = slotAfter (n + 1) := by
  induction n with
  | zero => exact ⟨rfl, rfl⟩
  | succ n ih =>
      rw [Function.iterate_succ_apply', slotAfter_add_two]
      exact ⟨ih.2, ih.1⟩

theorem read_iterate :
    ((pass fun source _ => round source)^[n] (start buffers)).buffers.read (slotAfter n) =
      round^[n] buffers.first := by
  induction n with
  | zero => rfl
  | succ n ih =>
      obtain ⟨hsource, htarget⟩ := iterate_pointers round buffers n
      rw [Function.iterate_succ_apply', Function.iterate_succ_apply', ← ih, ← htarget, ← hsource]
      exact Buffers.read_write_self _ _ _

end iterate

section keeps

variable {holds : β → Prop}

theorem Buffers.read_write_of_ne (buffers : Buffers β) {slot other : Slot} (hne : slot ≠ other)
    (value : β) : (buffers.write other value).read slot = buffers.read slot := by
  cases slot <;> cases other <;> first | rfl | exact absurd rfl hne

theorem pass_keeps (fill : β → β → β) {cursor : Cursor β} (hne : cursor.source ≠ cursor.target)
    (hsource : holds (cursor.buffers.read cursor.source))
    (hfill : holds (fill (cursor.buffers.read cursor.source)
      (cursor.buffers.read cursor.target))) :
    (pass fill cursor).source ≠ (pass fill cursor).target ∧
      holds ((pass fill cursor).buffers.read (pass fill cursor).source) ∧
      holds ((pass fill cursor).buffers.read (pass fill cursor).target) := by
  refine ⟨hne.symm, ?_, ?_⟩
  · simp only [pass, Buffers.read_write_self]
    exact hfill
  · simp only [pass, Buffers.read_write_of_ne _ hne]
    exact hsource

/-- After one pass or more that keep a fact of their source, both buffers have it. -/
theorem iterate_pass_keeps {fill : β → β → β}
    (hfill : ∀ source target, holds source → holds (fill source target)) (cursor : Cursor β)
    (hne : cursor.source ≠ cursor.target) (hsource : holds (cursor.buffers.read cursor.source))
    (n : Nat) :
    ((pass fill)^[n + 1] cursor).source ≠ ((pass fill)^[n + 1] cursor).target ∧
      holds (((pass fill)^[n + 1] cursor).buffers.read ((pass fill)^[n + 1] cursor).source) ∧
      holds (((pass fill)^[n + 1] cursor).buffers.read ((pass fill)^[n + 1] cursor).target) := by
  induction n with
  | zero => exact pass_keeps fill hne hsource (hfill _ _ hsource)
  | succ n ih =>
      rw [Function.iterate_succ_apply']
      exact pass_keeps fill ih.1 ih.2.1 (hfill _ _ ih.2.1)

theorem forall_read {buffers : Buffers β} {slot other : Slot} (hne : slot ≠ other)
    (hslot : holds (buffers.read slot)) (hother : holds (buffers.read other)) :
    holds buffers.first ∧ holds buffers.second := by
  cases slot <;> cases other
  · exact absurd rfl hne
  · exact ⟨hslot, hother⟩
  · exact ⟨hother, hslot⟩
  · exact absurd rfl hne

end keeps

end Dcurl.Library.PingPong
