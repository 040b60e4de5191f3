import Dcurl.Library.Machine

/-! Work on one resource in turn. A counter lets one party in at a time; what it does there
takes many steps, and between any two of them the others may step as well. -/
namespace Dcurl.Library.Turn

/-- The steps of a party that is in: it goes on, or it is done and has an answer. -/
structure Work (Request Answer Stage Resource : Type*) where
  enter : Request → Stage
  step : Stage → Resource → (Stage ⊕ Answer) × Resource

variable {Request Answer Stage Resource : Type*}

namespace Work

variable {work : Work Request Answer Stage Resource} {request : Request}
  {first last resource resource' : Resource} {stage stage' : Stage} {answer : Answer} {n : Nat}

def run (work : Work Request Answer Stage Resource) :
    Nat → Stage → Resource → Option (Answer × Resource)
  | 0, _, _ => none
  | n + 1, stage, resource =>
      match work.step stage resource with
      | (.inl stage, resource) => run work n stage resource
      | (.inr answer, resource) => some (answer, resource)

theorem run_of_inl (hstep : work.step stage resource = (.inl stage', resource')) (n : Nat) :
    work.run (n + 1) stage resource = work.run n stage' resource' := by
  simp only [run, hstep]

theorem run_of_inr (hstep : work.step stage resource = (.inr answer, last)) :
    work.run (n + 1) stage resource = some (answer, last) := by
  simp only [run, hstep]

theorem run_add (h : work.run n stage resource = some (answer, last)) (m : Nat) :
    work.run (n + m) stage resource = some (answer, last) := by
  induction n generalizing stage resource with
  | zero => cases h
  | succ n ih =>
      rw [Nat.add_right_comm]
      rcases hstep : work.step stage resource with ⟨stage' | answer', resource'⟩
      · rw [run_of_inl hstep] at h ⊢
        exact ih h
      · rw [run_of_inr hstep] at h ⊢
        exact h

def Reaches (work : Work Request Answer Stage Resource) (request : Request) (first : Resource)
    (stage : Stage) (resource : Resource) : Prop :=
  ∃ n, ∀ m, work.run (n + m) (work.enter request) first = work.run m stage resource

def Ends (work : Work Request Answer Stage Resource) (request : Request) (first : Resource)
    (answer : Answer) (last : Resource) : Prop :=
  ∃ n, work.run n (work.enter request) first = some (answer, last)

theorem reaches_enter (first : Resource) :
    work.Reaches request first (work.enter request) first :=
  ⟨0, fun m => by rw [Nat.zero_add]⟩

theorem Reaches.step (h : work.Reaches request first stage resource)
    (hstep : work.step stage resource = (.inl stage', resource')) :
    work.Reaches request first stage' resource' := by
  obtain ⟨n, hn⟩ := h
  refine ⟨n + 1, fun m => ?_⟩
  rw [Nat.add_assoc, Nat.add_comm 1, hn, run_of_inl hstep]

theorem Reaches.ends (h : work.Reaches request first stage resource)
    (hstep : work.step stage resource = (.inr answer, last)) :
    work.Ends request first answer last := by
  obtain ⟨n, hn⟩ := h
  exact ⟨n + 1, (hn 1).trans (run_of_inr hstep)⟩

/-- Undisturbed work has one end. -/
theorem Ends.eq_of_run {result : Answer × Resource} (h : work.Ends request first answer last)
    (hrun : work.run n (work.enter request) first = some result) : result = (answer, last) := by
  obtain ⟨m, hm⟩ := h
  have hboth := run_add hrun m
  rw [Nat.add_comm, run_add hm n] at hboth
  exact (Option.some.inj hboth).symm

def Shrinks (work : Work Request Answer Stage Resource) (rest : Stage → Nat) : Prop :=
  ∀ stage resource stage' resource', work.step stage resource = (.inl stage', resource') →
    rest stage' < rest stage

end Work

inductive Party (Request Answer Stage : Type*) where
  | waiting (request : Request)
  | working (request : Request) (stage : Stage)
  | leaving (request : Request) (answer : Answer)
  | ended (request : Request) (answer : Answer)

def Party.request : Party Request Answer Stage → Request
  | .waiting request | .working request _ | .leaving request _ | .ended request _ => request

def Party.isInside : Party Request Answer Stage → Bool
  | .waiting _ => false
  | .working _ _ => true
  | .leaving _ _ => true
  | .ended _ _ => false

def Party.answer? : Party Request Answer Stage → Option Answer
  | .leaving _ answer | .ended _ answer => some answer
  | .waiting _ | .working _ _ => none

structure Shared (Resource : Type*) where
  count : Nat
  resource : Resource

variable {n : Nat}

def program (work : Work Request Answer Stage Resource) (_ : Fin n) :
    Party Request Answer Stage → Shared Resource →
      Option (Party Request Answer Stage × Shared Resource)
  | .waiting request, shared =>
      if shared.count < 1 then
        some (.working request (work.enter request), { shared with count := shared.count + 1 })
      else none
  | .working request stage, shared =>
      match work.step stage shared.resource with
      | (.inl stage, resource) =>
          some (.working request stage, { shared with resource := resource })
      | (.inr answer, resource) =>
          some (.leaving request answer, { shared with resource := resource })
  | .leaving request answer, shared =>
      some (.ended request answer, { shared with count := shared.count - 1 })
  | .ended _ _, _ => none

def start (requests : Fin n → Request) (resource : Resource) :
    Pool n (Party Request Answer Stage) (Shared Resource) where
  threads := fun t => .waiting (requests t)
  shared := ⟨0, resource⟩

section invariant

variable {work : Work Request Answer Stage Resource} {requests : Fin n → Request}
  {pool next : Pool n (Party Request Answer Stage) (Shared Resource)} {t : Fin n}

def Turns (pool : Pool n (Party Request Answer Stage) (Shared Resource)) : Prop :=
  (pool.shared.count = 0 ∧ ∀ t, (pool.threads t).isInside = false) ∨
  ∃ owner, pool.shared.count = 1 ∧ ∀ t, (pool.threads t).isInside = true ↔ t = owner

structure Inv (work : Work Request Answer Stage Resource) (requests : Fin n → Request)
    (pool : Pool n (Party Request Answer Stage) (Shared Resource)) : Prop where
  turns : Turns pool
  request_eq : ∀ t, (pool.threads t).request = requests t
  alone : ∀ t request stage, pool.threads t = .working request stage →
    ∃ first, work.Reaches request first stage pool.shared.resource
  ended : ∀ t answer, (pool.threads t).answer? = some answer →
    ∃ first last, work.Ends (pool.threads t).request first answer last

theorem inv_start (requests : Fin n → Request) (resource : Resource) :
    Inv work requests (start requests resource) where
  turns := Or.inl ⟨rfl, fun _ => rfl⟩
  request_eq := fun _ => rfl
  alone := by simp [start]
  ended := by simp [start, Party.answer?]

theorem Turns.alone (h : Turns pool) (ht : (pool.threads t).isInside = true) {u : Fin n}
    (hu : (pool.threads u).isInside = true) : u = t := by
  obtain ⟨_, hnone⟩ | ⟨owner, _, howner⟩ := h
  · rw [hnone t] at ht
    cases ht
  · rw [(howner u).mp hu, (howner t).mp ht]

theorem Turns.count_eq (h : Turns pool) (ht : (pool.threads t).isInside = true) :
    pool.shared.count = 1 := by
  obtain ⟨_, hnone⟩ | ⟨_, hcount, _⟩ := h
  · rw [hnone t] at ht
    cases ht
  · exact hcount

theorem Inv.update {party : Party Request Answer Stage} {shared : Shared Resource}
    (h : Inv work requests pool) (hrequest : party.request = (pool.threads t).request)
    (hcount : shared.count = if party.isInside then 1 else 0)
    (hothers : ∀ u, u ≠ t → (pool.threads u).isInside = false)
    (halone : ∀ request stage, party = .working request stage →
      ∃ first, work.Reaches request first stage shared.resource)
    (hended : ∀ answer, party.answer? = some answer →
      ∃ first last, work.Ends party.request first answer last) :
    Inv work requests ⟨Function.update pool.threads t party, shared⟩ := by
  have hthread : ∀ u, Function.update pool.threads t party u =
      if u = t then party else pool.threads u := fun u => Function.update_apply _ _ _ _
  refine ⟨?_, fun u => ?_, fun u request stage hworking => ?_, fun u answer hanswer => ?_⟩
  · cases hinside : party.isInside with
    | false =>
        refine Or.inl ⟨by simp [hcount, hinside], fun u => ?_⟩
        by_cases hu : u = t
        · simp [hu, hinside]
        · simp [hu, hothers u hu]
    | true =>
        refine Or.inr ⟨t, by simp [hcount, hinside], fun u => ?_⟩
        by_cases hu : u = t
        · simp [hu, hinside]
        · simp [hu, hothers u hu]
  · by_cases hu : u = t
    · simp [hu, hrequest, h.request_eq]
    · simp [hu, h.request_eq]
  · by_cases hu : u = t
    · exact halone request stage (by simpa [hthread, hu] using hworking)
    · have hout := hothers u hu
      simp only [hthread, hu, if_false] at hworking
      rw [hworking] at hout
      cases hout
  · by_cases hu : u = t
    · simp only [hthread, hu, if_true] at hanswer ⊢
      exact hended answer hanswer
    · simp only [hthread, hu, if_false] at hanswer ⊢
      exact h.ended u answer hanswer

theorem Inv.step (h : Inv work requests pool) (hstep : pool.step (program work) t = some next) :
    Inv work requests next := by
  obtain ⟨party, shared, hprogram, rfl⟩ := Pool.step_eq_some_iff.mp hstep
  have hothers : (pool.threads t).isInside = true →
      ∀ u, u ≠ t → (pool.threads u).isInside = false := by
    intro ht u hu
    by_contra hinside
    exact hu (h.turns.alone ht (by simpa using hinside))
  cases hparty : pool.threads t with
  | waiting request =>
      rw [hparty] at hprogram
      simp only [program] at hprogram
      split at hprogram
      · rename_i hroom
        cases hprogram
        obtain ⟨hcount, hnone⟩ | ⟨owner, hcount, _⟩ := h.turns
        · refine h.update (by rw [hparty]; rfl) (by simp [hcount, Party.isInside])
            (fun u _ => hnone u) ?_ (by simp [Party.answer?])
          rintro _ _ ⟨⟩
          exact ⟨_, Work.reaches_enter _⟩
        · omega
      · cases hprogram
  | working request stage =>
      have hinside : (pool.threads t).isInside = true := by rw [hparty]; rfl
      have hcount := h.turns.count_eq hinside
      obtain ⟨first, hreaches⟩ := h.alone t request stage hparty
      rw [hparty] at hprogram
      simp only [program] at hprogram
      split at hprogram
      · rename_i stage' resource' hwork
        cases hprogram
        refine h.update (by rw [hparty]; rfl) (by simp [hcount, Party.isInside])
          (hothers hinside) ?_ (by simp [Party.answer?])
        rintro _ _ ⟨⟩
        exact ⟨first, hreaches.step hwork⟩
      · rename_i answer resource' hwork
        cases hprogram
        refine h.update (by rw [hparty]; rfl) (by simp [hcount, Party.isInside])
          (hothers hinside) (by simp) ?_
        rintro _ ⟨⟩
        exact ⟨first, resource', hreaches.ends hwork⟩
  | leaving request answer =>
      have hinside : (pool.threads t).isInside = true := by rw [hparty]; rfl
      have hended := h.ended t answer (by rw [hparty]; rfl)
      have hcount := h.turns.count_eq hinside
      rw [hparty] at hprogram hended
      cases hprogram
      refine h.update (by rw [hparty]; rfl) (by simp [hcount, Party.isInside]) (hothers hinside)
        (by simp) ?_
      rintro _ ⟨⟩
      exact hended
  | ended request answer =>
      rw [hparty] at hprogram
      cases hprogram

theorem inv_run {resource : Resource} {schedule : List (Fin n)}
    (hrun : Machine.run (Pool.step (program work)) (start requests resource) schedule =
      some pool) : Inv work requests pool :=
  Machine.run_invariant (Inv work requests) (fun _ _ _ h hstep => h.step hstep)
    (inv_start requests resource) hrun

/-- Under every schedule an answer is that of undisturbed work on the party's own request. -/
theorem ends_run {resource : Resource} {schedule : List (Fin n)} {answer : Answer}
    (hrun : Machine.run (Pool.step (program work)) (start requests resource) schedule = some pool)
    (hanswer : (pool.threads t).answer? = some answer) :
    ∃ first last, work.Ends (requests t) first answer last := by
  have hinv := inv_run hrun
  obtain ⟨first, last, hends⟩ := hinv.ended t answer hanswer
  exact ⟨first, last, hinv.request_eq t ▸ hends⟩

section progress

variable {rest : Stage → Nat}

def Party.rank (work : Work Request Answer Stage Resource) (rest : Stage → Nat) :
    Party Request Answer Stage → Nat
  | .waiting request => rest (work.enter request) + 3
  | .working _ stage => rest stage + 2
  | .leaving _ _ => 1
  | .ended _ _ => 0

theorem rank_program (hshrinks : work.Shrinks rest) {party party' : Party Request Answer Stage}
    {shared shared' : Shared Resource}
    (hprogram : program work t party shared = some (party', shared')) :
    party'.rank work rest < party.rank work rest := by
  cases party with
  | waiting request =>
      simp only [program] at hprogram
      split at hprogram
      · cases hprogram
        exact Nat.lt_succ_self _
      · cases hprogram
  | working request stage =>
      simp only [program] at hprogram
      split at hprogram
      · rename_i stage' resource' hwork
        cases hprogram
        exact Nat.add_lt_add_right (hshrinks stage shared.resource stage' resource' hwork) 2
      · cases hprogram
        exact Nat.lt_add_left _ Nat.one_lt_two
  | leaving request answer =>
      cases hprogram
      exact Nat.one_pos
  | ended request answer => cases hprogram

theorem length_run_le (hshrinks : work.Shrinks rest) {resource : Resource}
    {schedule : List (Fin n)}
    (hrun : Machine.run (Pool.step (program work)) (start requests resource) schedule =
      some pool) :
    schedule.length ≤ ∑ t, (rest (work.enter (requests t)) + 3) := by
  have hkeeps : Pool.Keeps (program work) fun (_ : Fin n) (_ : Party Request Answer Stage)
      (_ : Shared Resource) => True := fun _ _ _ _ _ _ _ => ⟨trivial, fun _ _ _ _ => trivial⟩
  exact Pool.run_length_le hkeeps (fun _ => Party.rank work rest)
    (fun _ _ _ _ _ _ hprogram => rank_program hshrinks hprogram) (fun _ => trivial) hrun

theorem Inv.ended_of_stuck (h : Inv work requests pool)
    (hstuck : ∀ t, pool.step (program work) t = none) (t : Fin n) :
    ∃ answer, pool.threads t = .ended (requests t) answer := by
  have hblocked : ∀ u, program work u (pool.threads u) pool.shared = none :=
    fun u => Option.map_eq_none_iff.mp (hstuck u)
  have houtside : ∀ u, (pool.threads u).isInside = false := by
    intro u
    have hu := hblocked u
    cases hparty : pool.threads u with
    | waiting request => rfl
    | working request stage =>
        rw [hparty] at hu
        simp only [program] at hu
        split at hu <;> cases hu
    | leaving request answer =>
        rw [hparty] at hu
        cases hu
    | ended request answer => rfl
  have hcount : pool.shared.count = 0 := by
    obtain ⟨hcount, _⟩ | ⟨owner, _, howner⟩ := h.turns
    · exact hcount
    · have hinside := (howner owner).mpr rfl
      rw [houtside owner] at hinside
      cases hinside
  have ht := hblocked t
  have hrequest := h.request_eq t
  have hout := houtside t
  cases hparty : pool.threads t with
  | waiting request =>
      rw [hparty] at ht
      simp [program, hcount] at ht
  | working request stage =>
      rw [hparty] at hout
      cases hout
  | leaving request answer =>
      rw [hparty] at hout
      cases hout
  | ended request answer =>
      rw [hparty] at hrequest
      cases hrequest
      exact ⟨answer, rfl⟩

theorem exists_ended (hshrinks : work.Shrinks rest) (h : Inv work requests pool) :
    ∃ schedule final, Machine.run (Pool.step (program work)) pool schedule = some final ∧
      ∀ t, ∃ answer, final.threads t = .ended (requests t) answer := by
  have hlower : ∀ (state : Pool n (Party Request Answer Stage) (Shared Resource)) t next,
      Inv work requests state → True → state.step (program work) t = some next →
        Inv work requests next ∧
          ∑ t, (next.threads t).rank work rest < ∑ t, (state.threads t).rank work rest := by
    intro state t next hstate _ hnext
    have hrank : ∀ (t : Fin n) (party : Party Request Answer Stage) (shared : Shared Resource)
        party' shared', True → program work t party shared = some (party', shared') →
          party'.rank work rest < party.rank work rest :=
      fun _ _ _ _ _ _ hprogram => rank_program hshrinks hprogram
    exact ⟨hstate.step hnext, Pool.step_rank_lt _ hrank (fun _ => trivial) hnext⟩
  obtain ⟨schedule, final, _, hrun, hfinal, hstuck⟩ :=
    Machine.exists_stuck (fun _ => True) (Inv work requests) _ hlower h
  exact ⟨schedule, final, hrun, hfinal.ended_of_stuck fun t => hstuck t trivial⟩

end progress

end invariant

end Dcurl.Library.Turn
