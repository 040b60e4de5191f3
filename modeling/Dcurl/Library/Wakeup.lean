import Mathlib.Data.List.Basic

/-! Parties that ask for a place, park on a counting semaphore when they are refused
and post to it when they leave. A party that was refused relies on another one to
wake it, or on a token that is already there. -/
namespace Dcurl.Library.Wakeup

inductive Party where
  /-- Asking, and not refused since it started to ask. -/
  | asking
  /-- Refused at least once and not yet parked. -/
  | refused
  | parked
  /-- Let in; it posts a token when it leaves. -/
  | inside
  | gone
  deriving DecidableEq

def Party.isAwake : Party → Bool
  | .asking => true
  | .inside => true
  | _ => false

def Party.relies : Party → Bool
  | .refused => true
  | .parked => true
  | _ => false

/-- Nobody relies on a token that nobody is going to post. -/
def Alert (parties : List Party) (tokens : Nat) : Prop :=
  (∃ party ∈ parties, party.relies = true) →
    0 < tokens ∨ ∃ party ∈ parties, party.isAwake = true

variable {parties : List Party} {tokens k : Nat} {old : Party}

theorem mem_set_self (hk : parties[k]? = some old) (party : Party) :
    party ∈ parties.set k party :=
  List.mem_set ((List.getElem?_eq_some_iff.mp hk).1) party

theorem mem_set_of_ne (hk : parties[k]? = some old) {party : Party} (hmem : party ∈ parties)
    (hne : party ≠ old) (new : Party) : party ∈ parties.set k new := by
  have ⟨i, hi⟩ := List.mem_iff_getElem?.mp hmem
  have hik : k ≠ i := by
    intro heq
    rw [heq, hi] at hk
    exact hne (Option.some.inj hk)
  apply List.mem_of_getElem?
  rw [List.getElem?_set_ne hik]
  exact hi

namespace Alert

theorem of_gone (h : ∀ party ∈ parties, party = .gone) : Alert parties tokens := by
  intro ⟨party, hmem, hrelies⟩
  rw [h party hmem] at hrelies
  cases hrelies

theorem of_awake {party : Party} (hmem : party ∈ parties) (hawake : party.isAwake = true) :
    Alert parties tokens := fun _ => Or.inr ⟨party, hmem, hawake⟩

theorem of_tokens (hpos : 0 < tokens) : Alert parties tokens := fun _ => Or.inl hpos

theorem append_gone (h : Alert parties tokens) : Alert (parties ++ [.gone]) tokens := by
  intro ⟨party, hmem, hrelies⟩
  rw [List.mem_append, List.mem_singleton] at hmem
  cases hmem with
  | inl hold =>
      cases h ⟨party, hold, hrelies⟩ with
      | inl hpos => exact Or.inl hpos
      | inr hawake =>
          have ⟨other, hother, hbit⟩ := hawake
          exact Or.inr ⟨other, List.mem_append_left _ hother, hbit⟩
  | inr heq =>
      rw [heq] at hrelies
      cases hrelies

/-- A refusal is safe because somebody is inside. -/
theorem refuse (hk : parties[k]? = some old) (hold : old ≠ .inside) (hinside : .inside ∈ parties) :
    Alert (parties.set k .refused) tokens :=
  of_awake (mem_set_of_ne hk hinside hold.symm _) rfl

theorem park (h : Alert parties tokens) (hk : parties[k]? = some .refused) :
    Alert (parties.set k .parked) tokens := by
  intro _
  have hmem := List.mem_of_getElem? hk
  cases h ⟨.refused, hmem, rfl⟩ with
  | inl hpos => exact Or.inl hpos
  | inr hawake =>
      have ⟨party, hparty, hbit⟩ := hawake
      refine Or.inr ⟨party, mem_set_of_ne hk hparty ?_ _, hbit⟩
      intro heq
      rw [heq] at hbit
      cases hbit

/-- A party is never left parked with no token and nobody awake. -/
theorem not_stranded (h : Alert parties tokens) (hparked : .parked ∈ parties)
    (htokens : tokens = 0) : ∃ party ∈ parties, party.isAwake = true := by
  cases h ⟨.parked, hparked, rfl⟩ with
  | inl hpos => omega
  | inr hawake => exact hawake

end Alert

end Dcurl.Library.Wakeup
