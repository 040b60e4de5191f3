import Mathlib.Algebra.Ring.Nat
import Mathlib.Algebra.Order.BigOperators.Group.Finset
import Mathlib.Data.Fintype.BigOperators
import Mathlib.Logic.Function.Basic

/-! Runs of partial step functions, and pools of threads that step one at a
time over a shared state. A step function returns `none` for an action that is
not enabled. -/
namespace Dcurl.Library

namespace Machine

variable {σ α : Type*} {step : σ → α → Option σ}

def run (step : σ → α → Option σ) : σ → List α → Option σ
  | state, [] => some state
  | state, action :: rest => (step state action).bind fun next => run step next rest

@[simp] theorem run_cons (state : σ) (action : α) (rest : List α) :
    run step state (action :: rest) =
      (step state action).bind fun next => run step next rest := rfl

theorem run_append (state : σ) (first second : List α) :
    run step state (first ++ second) =
      (run step state first).bind fun middle => run step middle second := by
  induction first generalizing state with
  | nil => rfl
  | cons action rest ih =>
      simp only [List.cons_append, run_cons]
      cases step state action with
      | none => rfl
      | some next => exact ih next

theorem run_append_of_eq {state middle : σ} {first : List α} (second : List α)
    (hfirst : run step state first = some middle) :
    run step state (first ++ second) = run step middle second := by
  rw [run_append, hfirst]
  rfl

/-- What every step keeps, every run keeps. -/
theorem run_invariant (holds : σ → Prop)
    (hstep : ∀ state action next, holds state → step state action = some next → holds next)
    {state final : σ} {actions : List α} (hstart : holds state)
    (hrun : run step state actions = some final) : holds final := by
  induction actions generalizing state with
  | nil => exact Option.some.inj hrun ▸ hstart
  | cons action rest ih =>
      obtain ⟨next, hnext, hrest⟩ := Option.bind_eq_some_iff.mp hrun
      exact ih (hstep state action next hstart hnext) hrest

theorem run_invariant_history (holds : List α → σ → Prop) {start final : σ} {actions : List α}
    (hstart : holds [] start)
    (hstep : ∀ before middle action next, run step start before = some middle →
      holds before middle → step middle action = some next → holds (before ++ [action]) next)
    (hrun : run step start actions = some final) : holds actions final := by
  induction actions using List.reverseRecOn generalizing final with
  | nil => exact Option.some.inj hrun ▸ hstart
  | append_singleton before action ih =>
      rw [run_append] at hrun
      obtain ⟨middle, hbefore, hlast⟩ := Option.bind_eq_some_iff.mp hrun
      obtain ⟨next, hnext, heq⟩ := Option.bind_eq_some_iff.mp hlast
      cases heq
      exact hstep before middle action final hbefore (ih hbefore) hnext

def Along (allowed : σ → α → Prop) (step : σ → α → Option σ) : σ → List α → Prop
  | _, [] => True
  | state, action :: rest =>
      allowed state action ∧ ∀ next, step state action = some next → Along allowed step next rest

theorem along_cons {allowed : σ → α → Prop} {state next : σ} {action : α} {rest : List α}
    (hallowed : allowed state action) (hstep : step state action = some next)
    (hrest : Along allowed step next rest) : Along allowed step state (action :: rest) := by
  refine ⟨hallowed, fun other hother => ?_⟩
  rw [hstep, Option.some.injEq] at hother
  exact hother ▸ hrest

theorem along_append {allowed : σ → α → Prop} {state middle : σ} {first second : List α}
    (hfirst : Along allowed step state first) (hrun : run step state first = some middle)
    (hsecond : Along allowed step middle second) : Along allowed step state (first ++ second) := by
  induction first generalizing state with
  | nil =>
      cases hrun
      exact hsecond
  | cons action rest ih =>
      obtain ⟨next, hnext, hrest⟩ := Option.bind_eq_some_iff.mp hrun
      exact along_cons hfirst.1 hnext (ih (hfirst.2 next hnext) hrest)

theorem along_mono {left right : σ → α → Prop}
    (himp : ∀ state action, left state action → right state action) {state : σ} {actions : List α}
    (h : Along left step state actions) : Along right step state actions := by
  induction actions generalizing state with
  | nil => trivial
  | cons action rest ih => exact ⟨himp state action h.1, fun next hnext => ih (h.2 next hnext)⟩

theorem along_and {left right : σ → α → Prop} {state : σ} {actions : List α}
    (hleft : Along left step state actions) (hright : Along right step state actions) :
    Along (fun state action => left state action ∧ right state action) step state actions := by
  induction actions generalizing state with
  | nil => trivial
  | cons action rest ih =>
      exact ⟨⟨hleft.1, hright.1⟩, fun next hnext => ih (hleft.2 next hnext) (hright.2 next hnext)⟩

theorem along_of_forall (allowed : α → Prop) {actions : List α}
    (hall : ∀ action ∈ actions, allowed action) (state : σ) :
    Along (fun _ => allowed) step state actions := by
  induction actions generalizing state with
  | nil => trivial
  | cons action rest ih =>
      exact ⟨hall action List.mem_cons_self, fun next _ =>
        ih (fun other hmem => hall other (List.mem_cons_of_mem _ hmem)) next⟩

theorem along_iff {left right : σ → α → Prop} (holds : σ → Prop)
    (hiff : ∀ state action, holds state → (left state action ↔ right state action))
    (hstep : ∀ state action next, holds state → right state action →
      step state action = some next → holds next)
    {state : σ} (hstart : holds state) (actions : List α) :
    Along left step state actions ↔ Along right step state actions := by
  induction actions generalizing state with
  | nil => exact Iff.rfl
  | cons action rest ih =>
      refine (and_congr_left fun _ => hiff state action hstart).trans (and_congr_right ?_)
      intro hright
      apply forall₂_congr
      intro next hnext
      exact ih (hstep state action next hstart hright hnext)

/-- Where good actions, and only these, are allowed in the states that they keep, a run is
allowed when all its actions are good. -/
theorem along_iff_forall (allowed : σ → α → Prop) (good : α → Prop) (holds : σ → Prop)
    (hiff : ∀ state action, holds state → (allowed state action ↔ good action))
    (hstep : ∀ state action, holds state → good action →
      ∃ next, step state action = some next ∧ holds next)
    {state : σ} (hstart : holds state) (actions : List α) :
    Along allowed step state actions ↔ ∀ action ∈ actions, good action := by
  induction actions generalizing state with
  | nil => exact iff_of_true trivial fun _ hmem => absurd hmem List.not_mem_nil
  | cons action rest ih =>
      rw [List.forall_mem_cons]
      constructor
      · intro ⟨hallowed, hrest⟩
        have hgood := (hiff state action hstart).mp hallowed
        have ⟨next, hnext, hnextHolds⟩ := hstep state action hstart hgood
        exact ⟨hgood, (ih hnextHolds).mp (hrest next hnext)⟩
      · intro ⟨hgood, hrest⟩
        have ⟨next, hnext, hnextHolds⟩ := hstep state action hstart hgood
        exact along_cons ((hiff state action hstart).mpr hgood) hnext ((ih hnextHolds).mpr hrest)

theorem run_invariant_along (allowed : σ → α → Prop) (holds : σ → Prop)
    (hstep : ∀ state action next, holds state → allowed state action →
      step state action = some next → holds next)
    {state final : σ} {actions : List α} (hstart : holds state)
    (halong : Along allowed step state actions)
    (hrun : run step state actions = some final) : holds final := by
  induction actions generalizing state with
  | nil => exact Option.some.inj hrun ▸ hstart
  | cons action rest ih =>
      obtain ⟨next, hnext, hrest⟩ := Option.bind_eq_some_iff.mp hrun
      exact ih (hstep state action next hstart halong.1 hnext) (halong.2 next hnext) hrest

section rank

variable (allowed : α → Prop) (holds : σ → Prop) (rank : σ → Nat)
  (hrank : ∀ state action next, holds state → allowed action →
    step state action = some next → holds next ∧ rank next < rank state)

include hrank

theorem length_add_rank_le {state final : σ} {actions : List α} (hstart : holds state)
    (hall : ∀ action ∈ actions, allowed action)
    (hrun : run step state actions = some final) :
    holds final ∧ actions.length + rank final ≤ rank state := by
  induction actions generalizing state with
  | nil =>
      cases hrun
      exact ⟨hstart, by simp⟩
  | cons action rest ih =>
      obtain ⟨next, hnext, hrest⟩ := Option.bind_eq_some_iff.mp hrun
      have ⟨hholds, hlt⟩ := hrank state action next hstart (hall action List.mem_cons_self) hnext
      have ⟨hfinal, hle⟩ := ih hholds (fun other hmem => hall other (List.mem_cons_of_mem _ hmem))
        hrest
      refine ⟨hfinal, ?_⟩
      rw [List.length_cons]
      omega

/-- From every state some run of such steps leads to one where none is left. -/
theorem exists_stuck {state : σ} (hstart : holds state) :
    ∃ actions final, (∀ action ∈ actions, allowed action) ∧
      run step state actions = some final ∧ holds final ∧
        ∀ action, allowed action → step final action = none := by
  induction hvalue : rank state using Nat.strong_induction_on generalizing state with
  | _ value ih =>
      by_cases hstuck : ∀ action, allowed action → step state action = none
      · exact ⟨[], state, by simp, rfl, hstart, hstuck⟩
      · simp only [not_forall] at hstuck
        have ⟨action, hallowed, hsome⟩ := hstuck
        have ⟨next, hnext⟩ := Option.ne_none_iff_exists'.mp hsome
        have ⟨hholds, hlt⟩ := hrank state action next hstart hallowed hnext
        have ⟨actions, final, hall, hrun, hfinal⟩ := ih _ (hvalue ▸ hlt) hholds rfl
        exact ⟨action :: actions, final, by simpa using ⟨hallowed, hall⟩, by simp [hnext, hrun],
          hfinal⟩

end rank

end Machine

theorem sum_map_set_add {β : Type*} (f : β → Nat) {list : List β} {k : Nat} {old : β} (new : β)
    (hk : list[k]? = some old) :
    ((list.set k new).map f).sum + f old = (list.map f).sum + f new := by
  induction list generalizing k with
  | nil => cases hk
  | cons head rest ih =>
      cases k with
      | zero =>
          have hhead : head = old := by simpa using hk
          simp only [List.set_cons_zero, List.map_cons, List.sum_cons, hhead]
          omega
      | succ k =>
          have hrest := ih (k := k) (by simpa using hk)
          simp only [List.set_cons_succ, List.map_cons, List.sum_cons]
          omega

structure Pool (n : Nat) (Local Shared : Type*) where
  threads : Fin n → Local
  shared : Shared

namespace Pool

variable {n : Nat} {Local Shared : Type*}
variable {program : Fin n → Local → Shared → Option (Local × Shared)}

def step (program : Fin n → Local → Shared → Option (Local × Shared))
    (pool : Pool n Local Shared) (t : Fin n) : Option (Pool n Local Shared) :=
  (program t (pool.threads t) pool.shared).map fun next =>
    ⟨Function.update pool.threads t next.1, next.2⟩

theorem step_eq_some_iff {pool next : Pool n Local Shared} {t : Fin n} :
    pool.step program t = some next ↔
      ∃ thread shared, program t (pool.threads t) pool.shared = some (thread, shared) ∧
        next = ⟨Function.update pool.threads t thread, shared⟩ := by
  unfold step
  rw [Option.map_eq_some_iff]
  constructor
  · rintro ⟨⟨thread, shared⟩, hprogram, rfl⟩
    exact ⟨thread, shared, hprogram, rfl⟩
  · rintro ⟨thread, shared, hprogram, rfl⟩
    exact ⟨(thread, shared), hprogram, rfl⟩

/-- A fact about each thread and the shared state that the thread's own steps
keep and that the other threads' steps do not disturb. -/
def Keeps (program : Fin n → Local → Shared → Option (Local × Shared))
    (holds : Fin n → Local → Shared → Prop) : Prop :=
  ∀ t thread shared thread' shared', holds t thread shared →
    program t thread shared = some (thread', shared') →
      holds t thread' shared' ∧ ∀ u other, u ≠ t → holds u other shared → holds u other shared'

section invariant

variable {holds : Fin n → Local → Shared → Prop} (hkeeps : Keeps program holds)

include hkeeps

theorem step_invariant {pool next : Pool n Local Shared} {t : Fin n}
    (hpool : ∀ u, holds u (pool.threads u) pool.shared)
    (hnext : pool.step program t = some next) :
    ∀ u, holds u (next.threads u) next.shared := by
  intro u
  obtain ⟨thread, shared, hprogram, rfl⟩ := step_eq_some_iff.mp hnext
  have ⟨hown, hothers⟩ := hkeeps t _ _ _ _ (hpool t) hprogram
  by_cases hu : u = t
  · subst hu
    simpa using hown
  · simpa [hu] using hothers u _ hu (hpool u)

variable (rank : Fin n → Local → Nat)
  (hrank : ∀ t thread shared thread' shared', holds t thread shared →
    program t thread shared = some (thread', shared') → rank t thread' < rank t thread)

include hrank

omit hkeeps in
theorem step_rank_lt {pool next : Pool n Local Shared} {t : Fin n}
    (hpool : ∀ u, holds u (pool.threads u) pool.shared)
    (hnext : pool.step program t = some next) :
    ∑ u, rank u (next.threads u) < ∑ u, rank u (pool.threads u) := by
  obtain ⟨thread, shared, hprogram, rfl⟩ := step_eq_some_iff.mp hnext
  have hlt := hrank t _ _ _ _ (hpool t) hprogram
  apply Finset.sum_lt_sum
  · intro u _
    by_cases hu : u = t
    · subst hu
      simpa using hlt.le
    · simp [hu]
  · exact ⟨t, Finset.mem_univ t, by simpa using hlt⟩

theorem run_length_le {pool final : Pool n Local Shared} {schedule : List (Fin n)}
    (hstart : ∀ t, holds t (pool.threads t) pool.shared)
    (hrun : Machine.run (step program) pool schedule = some final) :
    schedule.length ≤ ∑ u, rank u (pool.threads u) := by
  induction schedule generalizing pool with
  | nil => exact Nat.zero_le _
  | cons t rest ih =>
      have ⟨next, hnext, hrest⟩ := Option.bind_eq_some_iff.mp hrun
      have hlength := ih (step_invariant hkeeps hstart hnext) hrest
      have hlt := step_rank_lt rank hrank hstart hnext
      rw [List.length_cons]
      omega

theorem exists_finished_run (finished : Fin n → Local → Prop)
    (hprogress : ∀ t thread shared, holds t thread shared → ¬finished t thread →
      (program t thread shared).isSome = true)
    (pool : Pool n Local Shared) (hstart : ∀ t, holds t (pool.threads t) pool.shared) :
    ∃ schedule final, Machine.run (step program) pool schedule = some final ∧
      ∀ t, finished t (final.threads t) := by
  induction htotal : ∑ u, rank u (pool.threads u) using Nat.strong_induction_on
    generalizing pool with
  | _ total ih =>
      by_cases hall : ∀ t, finished t (pool.threads t)
      · exact ⟨[], pool, rfl, hall⟩
      · have ⟨t, ht⟩ := not_forall.mp hall
        have ⟨(thread, shared), hprogram⟩ :=
          Option.isSome_iff_exists.mp (hprogress t _ _ (hstart t) ht)
        have hnext := step_eq_some_iff.mpr ⟨thread, shared, hprogram, rfl⟩
        have hlt := step_rank_lt rank hrank hstart hnext
        have ⟨schedule, final, hrun, hfinal⟩ :=
          ih _ (htotal ▸ hlt) _ (step_invariant hkeeps hstart hnext) rfl
        refine ⟨t :: schedule, final, ?_, hfinal⟩
        rw [Machine.run_cons, hnext]
        exact hrun

end invariant

section price

variable (program) (price : Local → Nat)

/-- What the steps of a schedule cost, when a step has the price of the private state
that it is taken in. -/
def cost : Pool n Local Shared → List (Fin n) → Nat
  | _, [] => 0
  | pool, t :: rest =>
      match pool.step program t with
      | none => 0
      | some next => price (pool.threads t) + cost next rest

variable {program price}

/-- Threads that each account for the price of their own steps account for all of
the cost together. -/
theorem exists_accounts {agrees : Nat → Local → Prop}
    (hstep : ∀ t count thread shared thread' shared', agrees count thread →
      program t thread shared = some (thread', shared') → agrees (count + price thread) thread')
    {pool final : Pool n Local Shared} {schedule : List (Fin n)} {counts : Fin n → Nat}
    (hstart : ∀ t, agrees (counts t) (pool.threads t))
    (hrun : Machine.run (step program) pool schedule = some final) :
    ∃ counts' : Fin n → Nat, (∀ t, agrees (counts' t) (final.threads t)) ∧
      ∑ t, counts' t = ∑ t, counts t + cost program price pool schedule := by
  induction schedule generalizing pool counts with
  | nil =>
      cases hrun
      exact ⟨counts, hstart, rfl⟩
  | cons t rest ih =>
      have ⟨next, hnext, hrest⟩ := Option.bind_eq_some_iff.mp hrun
      have ⟨thread, shared, hprogram, heq⟩ := step_eq_some_iff.mp hnext
      have hagrees : ∀ u, agrees (counts u + if u = t then price (pool.threads t) else 0)
          (next.threads u) := by
        intro u
        subst heq
        by_cases hu : u = t
        · subst hu
          simpa using hstep u _ _ _ _ _ (hstart u) hprogram
        · simpa [hu] using hstart u
      have ⟨counts', hfinal, hsum⟩ := ih hagrees hrest
      refine ⟨counts', hfinal, ?_⟩
      rw [hsum, Finset.sum_add_distrib, Finset.sum_ite_eq' Finset.univ t,
        if_pos (Finset.mem_univ t), cost, hnext, Nat.add_assoc]

end price

end Pool

end Dcurl.Library
