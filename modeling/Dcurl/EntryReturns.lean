import Dcurl.Admission

/-! Every `dcurl_entry` call comes to its end. No call starves, since a step of a call
uses up either its own way through the function or a token of `notify`, and no call is
left waiting: only `do_the_pow` can keep the library from returning. -/
namespace Dcurl

open Library

section rank

variable {ι Ctx Choice : Type}

def Work.rank : Work → Nat
  | .admitted => 6
  | .noContext => 0
  | .filling _ => 5
  | .holding _ => 4
  | .computed _ => 3
  | .answered _ _ => 2
  | .freed _ => 1
  | .exited _ => 0

/-- A call pays for the token that it posts, and a token for the scan that it starts. -/
def Phase.rank (registered : Nat) : Phase ι → Nat
  | .scanning rest => registered + rest.length + 11
  | .waiting => registered + 10
  | .working _ work => registered + 3 + work.rank
  | .returned _ _ => 0
  | .refused => 0

def System.rank (system : System ι Ctx) : Nat :=
  (system.calls.map fun call => call.phase.rank system.implList.length).sum +
    system.notify * (system.implList.length + 2)

variable {functions : PowFunctions Ctx Choice} {choice : Choice} {request : Request}
  {impl impl' : ImplContext Ctx} {work work' : Work}

theorem rank_workStep
    (hstep : workStep functions choice request work impl = some (work', impl')) :
    work'.rank < work.rank := by
  cases work with
  | admitted =>
      cases hget : getPowContext impl <;> simp only [workStep, hget] at hstep <;> cases hstep <;>
        simp [Work.rank]
  | holding i =>
      obtain ⟨⟨result, ctx⟩, _, heq⟩ := Option.map_eq_some_iff.mp hstep
      cases heq
      cases result <;> simp [Work.rank]
  | noContext => cases hstep
  | exited res => cases hstep
  | _ =>
      cases hstep
      simp [Work.rank]

theorem exists_workStep (hsound : work.Sound functions impl request)
    (hinside : work.stage.isInside = true) :
    (∃ next, workStep functions choice request work impl = some next) ∨
      ∃ i, work = .holding i ∧ functions.doThePow choice (impl.context i).ctx = none := by
  cases work with
  | admitted =>
      left
      cases hget : getPowContext impl <;> simp [workStep, hget]
  | holding i =>
      cases hpow : functions.doThePow choice (impl.context i).ctx with
      | none => exact Or.inr ⟨i, rfl, hpow⟩
      | some outcome =>
          left
          simp [workStep, hpow]
  | noContext => exact hsound.elim
  | exited res => cases hinside
  | _ => exact Or.inl ⟨_, rfl⟩

end rank

section returns

variable {ι Ctx Choice : Type} [DecidableEq ι] {functions : ι → PowFunctions Ctx Choice}
  {system next : System ι Ctx} {choice : Choice} {k : Nat} {call : Call ι}
  {phase phase' : Phase ι} {request : Request}

theorem CallSteps.rank_lt (h : CallSteps functions choice system request phase phase' next) :
    next.implList = system.implList ∧
      phase'.rank system.implList.length + next.notify * (system.implList.length + 2) <
        phase.rank system.implList.length + system.notify * (system.implList.length + 2) := by
  cases h with
  | park => simp [Phase.rank]
  | refused hrefused => simp [Phase.rank]
  | enter henter =>
      simp [Phase.rank, System.setImpl, Work.rank]
      omega
  | wake hpos =>
      have ⟨tokens, htokens⟩ := Nat.exists_eq_succ_of_ne_zero hpos
      simp [Phase.rank, htokens, Nat.succ_mul]
      omega
  | work hwork => simpa [Phase.rank, System.setImpl] using rank_workStep hwork
  | post =>
      simp [Phase.rank, Work.rank, Nat.succ_mul]
      omega

theorem rank_advance (hk : system.calls[k]? = some call)
    (hstep : callStep functions choice system call = some (phase, next)) :
    System.rank { next with calls := system.calls.set k { call with phase := phase } } <
      system.rank := by
  have ⟨hlist, hlt⟩ := (callSteps_of_callStep hstep).rank_lt
  have hsum := sum_map_set_add (fun call => call.phase.rank system.implList.length)
    { call with phase := phase } hk
  simp only [System.rank, hlist] at hsum ⊢
  omega

def Action.IsAdvance : Action ι Ctx Choice → Prop
  | .advance _ _ => True
  | _ => False

theorem rank_step {compiled : List ι} {action : Action ι Ctx Choice} (hadvance : action.IsAdvance)
    (hstep : System.step functions compiled system action = some next) :
    next.rank < system.rank := by
  cases action with
  | advance k choice =>
      have ⟨call, hk, hmap⟩ := Option.bind_eq_some_iff.mp hstep
      have ⟨(phase, shared), hcall, heq⟩ := Option.map_eq_some_iff.mp hmap
      cases heq
      exact rank_advance hk hcall
  | _ => cases hadvance

/-- `do_the_pow` never comes back with the context that the call holds, which was filled
for the call's request. -/
def System.Blocks (functions : ι → PowFunctions Ctx Choice) (system : System ι Ctx)
    (call : Call ι) : Prop :=
  ∃ j i, call.phase = .working j (.holding i) ∧
    (∃ ctx, ((system.impls j).context i).ctx = (functions j).fill call.request ctx) ∧
      ∀ choice, (functions j).doThePow choice ((system.impls j).context i).ctx = none

theorem exists_advance (hinv : ∀ j, Inv functions j system) (hadmission : Admission system)
    (hbusy : system.idle = false) [Nonempty Choice] :
    (∃ (k : Nat) (choice : Choice) (call : Call ι), system.calls[k]? = some call ∧
      (callStep functions choice system call).isSome = true) ∨
      ∃ call ∈ system.calls, system.Blocks functions call := by
  by_cases hawake : ∃ call ∈ system.calls, call.phase.isActive = true
  · obtain ⟨call, hmem, hactive⟩ := hawake
    have ⟨k, hk⟩ := List.mem_iff_getElem?.mp hmem
    have hlast := ‹Nonempty Choice›
    cases hphase : call.phase with
    | scanning rest =>
        refine Or.inl ⟨k, hlast.some, call, hk, ?_⟩
        cases rest with
        | nil => simp [callStep, hphase]
        | cons i rest =>
            cases henter : enterImplContext (system.impls i) <;> simp [callStep, hphase, henter]
    | working j work =>
        have hsound := (hinv j).sound k call hk
        rw [hphase] at hsound
        by_cases hexited : ∃ res, work = .exited res
        · obtain ⟨res, rfl⟩ := hexited
          exact Or.inl ⟨k, hlast.some, call, hk, by simp [callStep, hphase]⟩
        · have hnot : ∀ res, work ≠ .exited res := fun res heq => hexited ⟨res, heq⟩
          have hinside : work.stage.isInside = true := by
            cases work with
            | exited res => exact absurd rfl (hnot res)
            | _ => rfl
          by_cases hstep : ∃ choice next, workStep (functions j) choice call.request work
              (system.impls j) = some next
          · have ⟨choice, next, hnext⟩ := hstep
            refine Or.inl ⟨k, choice, call, hk, ?_⟩
            rw [callStep_working j hphase hnot, hnext]
            rfl
          · right
            have hnone : ∀ choice, ∃ i, work = .holding i ∧
                (functions j).doThePow choice ((system.impls j).context i).ctx = none := by
              intro choice
              exact (exists_workStep (hsound rfl) hinside).resolve_left
                fun ⟨next, hnext⟩ => hstep ⟨choice, next, hnext⟩
            obtain ⟨i, rfl, _⟩ := hnone hlast.some
            refine ⟨call, hmem, j, i, hphase, (hsound rfl).2, fun choice => ?_⟩
            have ⟨i', heq, hpow⟩ := hnone choice
            cases heq
            exact hpow
    | _ =>
        rw [hphase] at hactive
        cases hactive
  · left
    have ⟨call, hmem, hover⟩ := List.all_eq_false.mp hbusy
    have ⟨k, hk⟩ := List.mem_iff_getElem?.mp hmem
    have hwaiting : call.phase = .waiting := by
      cases hphase : call.phase with
      | waiting => rfl
      | returned j res => simp [hphase, Phase.isOver] at hover
      | refused => simp [hphase, Phase.isOver] at hover
      | _ => exact absurd ⟨call, hmem, by rw [hphase]; rfl⟩ hawake
    have hnotify : system.notify ≠ 0 := by
      intro hzero
      refine hadmission.not_stranded ⟨⟨call, hmem, hwaiting⟩, hzero, fun other hother => ?_⟩
      exact Bool.eq_false_iff.mpr fun hactive => hawake ⟨other, hother, hactive⟩
    exact ⟨k, ‹Nonempty Choice›.some, call, hk, by simp [callStep, hwaiting, hnotify]⟩

/-- However the calls take turns, they come to an end, and what is then left is `do_the_pow`. -/
structure System.Returns (functions : ι → PowFunctions Ctx Choice) (compiled : List ι)
    (system : System ι Ctx) : Prop where
  bounded : ∀ moves final, (∀ action ∈ moves, action.IsAdvance) →
    Machine.run (System.step functions compiled) system moves = some final →
      moves.length ≤ system.calls.length * (2 * system.implList.length + 11) +
        system.notify * (system.implList.length + 2)
  stuck : (∀ k choice, System.step functions compiled system (.advance k choice) = none) →
    system.idle = true ∨ ∃ call ∈ system.calls, system.Blocks functions call

namespace Admission

theorem of_run {compiled : List ι} {contexts : ι → Nat → Slot Ctx}
    {actions : List (Action ι Ctx Choice)}
    (hprovided : Machine.Along Action.Provided (System.step functions compiled)
      (System.start contexts) actions)
    (hrun : Machine.run (System.step functions compiled) (System.start contexts) actions =
      some system) : Admission system :=
  Machine.run_invariant_along Action.Provided Admission
    (fun _ _ _ h hallowed hstep => h.step hallowed hstep) (Admission.start contexts) hprovided hrun

theorem rank_le (h : Admission system) :
    system.rank ≤ system.calls.length * (2 * system.implList.length + 11) +
      system.notify * (system.implList.length + 2) := by
  unfold System.rank
  apply Nat.add_le_add_right
  have hlength : (system.calls.map fun call => call.phase.rank system.implList.length).length =
      system.calls.length := List.length_map _
  rw [← hlength]
  apply List.sum_le_card_nsmul
  intro rank hmem
  obtain ⟨call, hcall, rfl⟩ := List.mem_map.mp hmem
  cases hphase : call.phase with
  | scanning rest =>
      have hlength := (h.scanning call hcall rest hphase).length_le
      simp only [Phase.rank]
      omega
  | working j work =>
      have hwork : work.rank ≤ 6 := by cases work <;> simp [Work.rank]
      simp only [Phase.rank]
      omega
  | _ => simp only [Phase.rank]; omega

theorem returns (h : Admission system) (hinv : ∀ j, Inv functions j system)
    (compiled : List ι) [Nonempty Choice] : system.Returns functions compiled where
  bounded moves final hmoves hrun := by
    have hbound := (Machine.length_add_rank_le Action.IsAdvance (fun _ => True) System.rank
      (fun _ _ _ _ hadvance hstep => ⟨trivial, rank_step hadvance hstep⟩) trivial hmoves hrun).2
    exact (Nat.le_of_add_right_le hbound).trans h.rank_le
  stuck hnone := by
    cases hidle : system.idle with
    | true => exact Or.inl rfl
    | false =>
        refine Or.inr ((exists_advance hinv h hidle).resolve_left ?_)
        intro ⟨k, choice, call, hk, hsome⟩
        have ⟨next, hnext⟩ := Option.isSome_iff_exists.mp hsome
        have hstep := hnone k choice
        simp only [System.step, hk, hnext, Option.bind_some, Option.map_some] at hstep
        cases hstep

end Admission

/-- From any state that the library comes to, every schedule of the calls is finite, and one
that cannot go on has brought every call to its end unless `do_the_pow` keeps one. -/
theorem entries_return (functions : ι → PowFunctions Ctx Choice) (compiled : List ι)
    (contexts : ι → Nat → Slot Ctx) (actions : List (Action ι Ctx Choice)) (system : System ι Ctx)
    [Nonempty Choice] (hfits : ∀ j, ∀ action ∈ actions, action.Fits functions j)
    (hprovided : Machine.Along Action.Provided (System.step functions compiled)
      (System.start contexts) actions)
    (hrun : Machine.run (System.step functions compiled) (System.start contexts) actions =
      some system) : system.Returns functions compiled :=
  (Admission.of_run hprovided hrun).returns (fun j => Inv.run (hfits j) hrun) compiled

end returns

section witness

theorem refusedActions_fits (action : Action Unit CpuContext (List Nat))
    (hmem : action ∈ refusedActions) :
    action.Fits (fun _ => PowC.backend.cpuFunctions) () := by
  simp only [refusedActions, List.mem_cons, List.not_mem_nil, or_false] at hmem
  cases action with
  | init hosts =>
      simp only [Action.init.injEq, reduceCtorEq, or_false] at hmem
      rw [hmem]
      exact fun _ => ⟨le_refl 1, by decide⟩
  | _ => trivial

theorem refusedActions_provided :
    Machine.Along Action.Provided (System.step (fun _ => PowC.backend.cpuFunctions) [()])
      (System.start fun _ _ => ⟨0, .blank⟩) refusedActions := by
  have hroom : ((1 : Int) ≤ 1) := le_refl 1
  refine ⟨trivial, fun first hfirst => ?_⟩
  cases hfirst
  refine ⟨fun _ => ⟨List.cons_ne_nil _ _, fun _ _ => hroom⟩, fun second hsecond => ?_⟩
  cases hsecond
  refine ⟨fun _ => ⟨List.cons_ne_nil _ _, fun _ _ => hroom⟩, fun third _ => ?_⟩
  exact ⟨trivial, fun _ _ => ⟨trivial, fun _ _ => ⟨trivial, fun _ _ => trivial⟩⟩⟩

theorem entries_return_refused :
    ∃ system, Machine.run (System.step (fun _ => PowC.backend.cpuFunctions) [()])
        (System.start fun _ _ => ⟨0, .blank⟩) refusedActions = some system ∧
      system.Returns (fun _ => PowC.backend.cpuFunctions) [()] := by
  have hsome : (Machine.run (System.step (fun _ => PowC.backend.cpuFunctions) [()])
      (System.start fun _ _ => ⟨0, .blank⟩) refusedActions).isSome = true := rfl
  have ⟨system, hrun⟩ := Option.isSome_iff_exists.mp hsome
  exact ⟨system, hrun, entries_return _ [()] _ refusedActions system (fun _ => refusedActions_fits)
    refusedActions_provided hrun⟩

end witness

end Dcurl
