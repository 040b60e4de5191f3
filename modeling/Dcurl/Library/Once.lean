import Dcurl.Library.Machine

/-! A value that the first of many callers sets up. Each call takes a mutex, sets the
value up if a flag does not say that this is done, writes the flag, gives the mutex back
and then uses the value. -/
namespace Dcurl.Library

namespace Once

inductive Phase where
  | outside
  | locked
  | setting
  | written
  | leaving
  | inside
  deriving DecidableEq

def Phase.inSection : Phase → Bool
  | .outside => false
  | .locked => true
  | .setting => true
  | .written => true
  | .leaving => true
  | .inside => false

def Phase.rest : Phase → Nat
  | .outside => 5
  | .locked => 4
  | .setting => 3
  | .written => 2
  | .leaving => 1
  | .inside => 0

/-- A thread, the calls it has still to end, each with what setting up would be
answered in it, and what its ended calls have found. -/
structure Caller (Answer Value : Type*) where
  phase : Phase
  calls : List Answer
  found : List Value

structure Shared (n : Nat) (Answer Value : Type*) where
  owner : Option (Fin n)
  isSet : Bool
  value : Value
  /-- The calls that have set the value up. -/
  log : List Answer

variable {n : Nat} {Answer Value : Type*}

def program (setUp : Answer → Value → Option Value) (t : Fin n) (caller : Caller Answer Value)
    (shared : Shared n Answer Value) :
    Option (Caller Answer Value × Shared n Answer Value) :=
  match caller.calls with
  | [] => none
  | answer :: rest =>
      match caller.phase with
      | .outside =>
          if shared.owner = none then
            some ({ caller with phase := .locked }, { shared with owner := some t })
          else none
      | .locked =>
          some ({ caller with phase := if shared.isSet then .leaving else .setting }, shared)
      | .setting =>
          (setUp answer shared.value).map fun value =>
            ({ caller with phase := .written },
              { shared with value := value, log := shared.log ++ [answer] })
      | .written => some ({ caller with phase := .leaving }, { shared with isSet := true })
      | .leaving => some ({ caller with phase := .inside }, { shared with owner := none })
      | .inside =>
          some ({ phase := .outside, calls := rest, found := caller.found ++ [shared.value] },
            shared)

def start (scripts : Fin n → List Answer) (value : Value) :
    Pool n (Caller Answer Value) (Shared n Answer Value) where
  threads := fun t => ⟨.outside, scripts t, []⟩
  shared := ⟨none, false, value, []⟩

section invariant

variable {setUp : Answer → Value → Option Value} {scripts : Fin n → List Answer} {first : Value}

def IsUp (setUp : Answer → Value → Option Value) (scripts : Fin n → List Answer) (first : Value)
    (shared : Shared n Answer Value) : Prop :=
  ∃ t answer, answer ∈ scripts t ∧ shared.log = [answer] ∧ setUp answer first = some shared.value

def Untouched (first : Value) (shared : Shared n Answer Value) : Prop :=
  shared.isSet = false ∧ shared.log = [] ∧ shared.value = first

def Phase.Knows (setUp : Answer → Value → Option Value) (scripts : Fin n → List Answer)
    (first : Value) (shared : Shared n Answer Value) : Phase → Prop
  | .outside => shared.owner = none → shared.isSet = true ∨ Untouched first shared
  | .locked => shared.isSet = true ∨ Untouched first shared
  | .setting => Untouched first shared
  | .written => shared.isSet = false ∧ IsUp setUp scripts first shared
  | .leaving => shared.isSet = true
  | .inside => shared.isSet = true

structure Holds (setUp : Answer → Value → Option Value) (scripts : Fin n → List Answer)
    (first : Value) (t : Fin n) (caller : Caller Answer Value) (shared : Shared n Answer Value) :
    Prop where
  owns : caller.phase.inSection = true ↔ shared.owner = some t
  knows : caller.phase.Knows setUp scripts first shared
  up : shared.isSet = true → IsUp setUp scripts first shared
  found : ∀ value ∈ caller.found, shared.isSet = true ∧ value = shared.value
  busy : caller.phase ≠ .outside → caller.calls ≠ []
  script : caller.calls <:+ scripts t
  count : caller.found.length + caller.calls.length = (scripts t).length

variable {t : Fin n} {caller caller' : Caller Answer Value} {shared shared' : Shared n Answer Value}

theorem holds_start (t : Fin n) :
    Holds setUp scripts first t ((start scripts first).threads t)
      (start scripts first).shared where
  owns := by simp [start, Phase.inSection]
  knows := fun _ => Or.inr ⟨rfl, rfl, rfl⟩
  up := by simp [start]
  found := by simp [start]
  busy := by simp [start]
  script := List.suffix_refl _
  count := by simp [start]

theorem Holds.of_not_owner (h : Holds setUp scripts first t caller shared)
    (howner : shared.owner ≠ some t) (howner' : shared'.owner ≠ some t)
    (hset : shared.isSet = true → shared'.isSet = true ∧ shared'.value = shared.value)
    (hup : shared'.isSet = true → IsUp setUp scripts first shared')
    (hfree : shared'.owner = none → shared'.isSet = true ∨ Untouched first shared') :
    Holds setUp scripts first t caller shared' := by
  have hout : caller.phase.inSection = false := by
    simpa using mt h.owns.mp howner
  refine ⟨?_, ?_, hup, ?_, h.busy, h.script, h.count⟩
  · simp [hout, howner']
  · have hknows := h.knows
    cases hphase : caller.phase <;> rw [hphase] at hout hknows
    case outside => exact hfree
    case inside => exact (hset hknows).1
    all_goals cases hout
  · intro value hmem
    have ⟨hisSet, hvalue⟩ := h.found value hmem
    exact ⟨(hset hisSet).1, hvalue.trans (hset hisSet).2.symm⟩

theorem Holds.own (h : Holds setUp scripts first t caller shared)
    (hstep : program setUp t caller shared = some (caller', shared')) :
    Holds setUp scripts first t caller' shared' := by
  have hknows := h.knows
  have howns := h.owns
  have hscript := h.script
  have hcount := h.count
  unfold program at hstep
  cases hcalls : caller.calls with
  | nil =>
      rw [hcalls] at hstep
      cases hstep
  | cons answer rest =>
      rw [hcalls] at hstep hscript hcount
      have hanswer : answer ∈ scripts t := hscript.subset List.mem_cons_self
      cases hphase : caller.phase <;> simp only [hphase] at hstep hknows howns
      case outside =>
        split at hstep
        · rename_i hfree
          cases hstep
          exact ⟨by simp [Phase.inSection], hknows hfree, h.up, h.found, by simp, hscript, hcount⟩
        · cases hstep
      case locked =>
        cases hstep
        refine ⟨?_, ?_, h.up, h.found, by simp, hscript, hcount⟩
        · cases shared.isSet <;> simpa [Phase.inSection] using howns
        · cases hset : shared.isSet with
          | true => exact hset
          | false => exact hknows.resolve_left (by simp [hset])
      case setting =>
        obtain ⟨value, hvalue, heq⟩ := Option.map_eq_some_iff.mp hstep
        cases heq
        obtain ⟨hset, hlog, hfirst⟩ := hknows
        refine ⟨by simpa [Phase.inSection] using howns, ⟨hset, t, answer, hanswer, ?_, ?_⟩, ?_, ?_,
          by simp, hscript, hcount⟩
        · simp [hlog]
        · rw [← hfirst]
          exact hvalue
        · simp [hset]
        · intro value hmem
          have ⟨hfound, _⟩ := h.found value hmem
          rw [hset] at hfound
          cases hfound
      case written =>
        cases hstep
        refine ⟨by simpa [Phase.inSection] using howns, rfl, fun _ => hknows.2, ?_,
          by simp, hscript, hcount⟩
        intro value hmem
        exact ⟨rfl, (h.found value hmem).2⟩
      case leaving =>
        cases hstep
        exact ⟨by simp [Phase.inSection], hknows, h.up, h.found, by simp, hscript, hcount⟩
      case inside =>
        cases hstep
        refine ⟨howns, fun _ => Or.inl hknows, h.up, ?_, by simp, ?_, ?_⟩
        · intro value hmem
          cases List.mem_append.mp hmem with
          | inl hold => exact h.found value hold
          | inr hnew => exact ⟨hknows, List.mem_singleton.mp hnew⟩
        · exact (List.suffix_cons answer rest).trans hscript
        · simp only [List.length_append, List.length_cons, List.length_nil] at hcount ⊢
          omega

theorem Holds.effect (h : Holds setUp scripts first t caller shared)
    (hstep : program setUp t caller shared = some (caller', shared')) :
    shared' = shared ∨
      (shared.owner = none ∨ shared.owner = some t) ∧
      (shared'.owner = some t ∨ shared'.owner = none ∧ shared'.isSet = true) ∧
      (shared.isSet = true → shared'.isSet = true ∧ shared'.value = shared.value) := by
  have hknows := h.knows
  have howns := h.owns
  unfold program at hstep
  cases hcalls : caller.calls with
  | nil =>
      rw [hcalls] at hstep
      cases hstep
  | cons answer rest =>
      rw [hcalls] at hstep
      cases hphase : caller.phase <;> simp only [hphase] at hstep hknows howns
      case outside =>
        split at hstep
        · rename_i hfree
          cases hstep
          exact Or.inr ⟨Or.inl hfree, Or.inl rfl, fun hset => ⟨hset, rfl⟩⟩
        · cases hstep
      case locked =>
        cases hstep
        exact Or.inl rfl
      case setting =>
        obtain ⟨value, hvalue, heq⟩ := Option.map_eq_some_iff.mp hstep
        cases heq
        refine Or.inr ⟨Or.inr (howns.mp rfl), Or.inl (howns.mp rfl), ?_⟩
        intro hset
        rw [hknows.1] at hset
        cases hset
      case written =>
        cases hstep
        exact Or.inr ⟨Or.inr (howns.mp rfl), Or.inl (howns.mp rfl), fun _ => ⟨rfl, rfl⟩⟩
      case leaving =>
        cases hstep
        exact Or.inr ⟨Or.inr (howns.mp rfl), Or.inr ⟨rfl, hknows⟩, fun hset => ⟨hset, rfl⟩⟩
      case inside =>
        cases hstep
        exact Or.inl rfl

theorem keeps : Pool.Keeps (program setUp) (Holds setUp scripts first) := by
  intro t caller shared caller' shared' h hstep
  have hown := h.own hstep
  refine ⟨hown, ?_⟩
  intro u other hne hother
  obtain heq | ⟨hbefore, hafter, hset⟩ := h.effect hstep
  · rw [heq]
    exact hother
  · apply hother.of_not_owner _ _ hset hown.up
    · intro hfree
      exact Or.inl (hafter.resolve_left (by simp [hfree])).2
    · cases hbefore <;> simp_all [Ne.symm hne]
    · obtain hafter | ⟨hafter, _⟩ := hafter <;> simp [hafter, Ne.symm hne]

theorem holds_run {schedule : List (Fin n)}
    {final : Pool n (Caller Answer Value) (Shared n Answer Value)}
    (hrun : Machine.run (Pool.step (program setUp)) (start scripts first) schedule = some final)
    (t : Fin n) : Holds setUp scripts first t (final.threads t) final.shared := by
  apply Machine.run_invariant
    (fun pool : Pool n (Caller Answer Value) (Shared n Answer Value) =>
      ∀ t, Holds setUp scripts first t (pool.threads t) pool.shared) _ holds_start hrun
  intro pool u next hpool hnext
  exact Pool.step_invariant keeps hpool hnext

theorem exclusive {pool : Pool n (Caller Answer Value) (Shared n Answer Value)}
    (hpool : ∀ t, Holds setUp scripts first t (pool.threads t) pool.shared) {u : Fin n}
    (ht : (pool.threads t).phase.inSection = true) (hu : (pool.threads u).phase.inSection = true) :
    t = u := by
  have howner := (hpool t).owns.mp ht
  rw [(hpool u).owns.mp hu] at howner
  exact (Option.some.inj howner).symm

/-- The value is that of the first call that set it up, for everyone who has found it. -/
theorem found_run {schedule : List (Fin n)}
    {final : Pool n (Caller Answer Value) (Shared n Answer Value)}
    (hrun : Machine.run (Pool.step (program setUp)) (start scripts first) schedule = some final)
    {value : Value} (hfound : value ∈ (final.threads t).found) :
    value = final.shared.value ∧ IsUp setUp scripts first final.shared := by
  have h := holds_run hrun t
  have ⟨hset, heq⟩ := h.found value hfound
  exact ⟨heq, h.up hset⟩

section progress

def Caller.rank (caller : Caller Answer Value) : Nat := 6 * caller.calls.length + caller.phase.rest

theorem rank_program (hstep : program setUp t caller shared = some (caller', shared')) :
    caller'.rank < caller.rank := by
  unfold program at hstep
  cases hcalls : caller.calls with
  | nil =>
      rw [hcalls] at hstep
      cases hstep
  | cons answer rest =>
      rw [hcalls] at hstep
      cases hphase : caller.phase <;> simp only [hphase] at hstep
      case outside =>
        split at hstep <;> cases hstep
        simp [Caller.rank, hcalls, hphase, Phase.rest]
      case locked =>
        cases hstep
        cases shared.isSet <;> simp [Caller.rank, hcalls, hphase, Phase.rest]
      case setting =>
        obtain ⟨value, _, heq⟩ := Option.map_eq_some_iff.mp hstep
        cases heq
        simp [Caller.rank, hcalls, hphase, Phase.rest]
      case inside =>
        cases hstep
        simp only [Caller.rank, hcalls, hphase, Phase.rest, List.length_cons]
        omega
      all_goals
        cases hstep
        simp [Caller.rank, hcalls, hphase, Phase.rest]

theorem Holds.isSome_program (h : Holds setUp scripts first t caller shared)
    (hsets : ∀ answer ∈ scripts t, (setUp answer first).isSome = true)
    (hcalls : caller.calls ≠ []) (hfree : caller.phase = .outside → shared.owner = none) :
    (program setUp t caller shared).isSome = true := by
  have hknows := h.knows
  unfold program
  cases hlist : caller.calls with
  | nil => exact absurd hlist hcalls
  | cons answer rest =>
      cases hphase : caller.phase <;> simp only [hphase] at hfree hknows ⊢
      case outside => simp [hfree]
      case setting =>
        have hanswer : answer ∈ scripts t := h.script.subset (by simp [hlist])
        rw [hknows.2.2, Option.isSome_map]
        exact hsets answer hanswer
      all_goals rfl

theorem exists_step {pool : Pool n (Caller Answer Value) (Shared n Answer Value)}
    (hpool : ∀ t, Holds setUp scripts first t (pool.threads t) pool.shared)
    (hsets : ∀ t, ∀ answer ∈ scripts t, (setUp answer first).isSome = true)
    (ht : (pool.threads t).calls ≠ []) :
    ∃ u, (pool.step (program setUp) u).isSome = true := by
  have hstep : ∀ u, (pool.threads u).calls ≠ [] →
      ((pool.threads u).phase = .outside → pool.shared.owner = none) →
        (pool.step (program setUp) u).isSome = true := by
    intro u hcalls hfree
    unfold Pool.step
    rw [Option.isSome_map]
    exact (hpool u).isSome_program (hsets u) hcalls hfree
  cases howner : pool.shared.owner with
  | none => exact ⟨t, hstep t ht fun _ => howner⟩
  | some u =>
      have hsection := (hpool u).owns.mpr howner
      have hphase : (pool.threads u).phase ≠ .outside := by
        intro heq
        rw [heq] at hsection
        cases hsection
      exact ⟨u, hstep u ((hpool u).busy hphase) fun heq => absurd heq hphase⟩

/-- Every run can be extended to one in which all calls have ended. -/
theorem exists_finished {pool : Pool n (Caller Answer Value) (Shared n Answer Value)}
    (hpool : ∀ t, Holds setUp scripts first t (pool.threads t) pool.shared)
    (hsets : ∀ t, ∀ answer ∈ scripts t, (setUp answer first).isSome = true) :
    ∃ schedule final, Machine.run (Pool.step (program setUp)) pool schedule = some final ∧
      ∀ t, (final.threads t).calls = [] ∧
        (final.threads t).found.length = (scripts t).length := by
  let holds (pool : Pool n (Caller Answer Value) (Shared n Answer Value)) :=
    ∀ t, Holds setUp scripts first t (pool.threads t) pool.shared
  have hrank : ∀ pool u next, holds pool → True → pool.step (program setUp) u = some next →
      holds next ∧ ∑ t, (next.threads t).rank < ∑ t, (pool.threads t).rank := by
    intro pool u next hholds _ hnext
    refine ⟨Pool.step_invariant keeps hholds hnext, ?_⟩
    apply Pool.step_rank_lt (fun _ => Caller.rank) _ hholds hnext
    intro _ _ _ _ _ _ hprogram
    exact rank_program hprogram
  obtain ⟨schedule, final, _, hrun, hfinal, hstuck⟩ :=
    Machine.exists_stuck (fun _ => True) holds _ hrank hpool
  refine ⟨schedule, final, hrun, ?_⟩
  intro t
  have hdone : (final.threads t).calls = [] := by
    by_contra hcalls
    have ⟨u, hstep⟩ := exists_step hfinal hsets hcalls
    simp [hstuck u trivial] at hstep
  have hcount := (hfinal t).count
  rw [hdone] at hcount
  exact ⟨hdone, by simpa using hcount⟩

end progress

end invariant

end Once

end Dcurl.Library
