import Dcurl.RemoteEntry

/-! Where the answers of the remote branch come from. A call has one from the moment that
`remote_do_pow` returns true, and no step of another call changes it. -/
namespace Dcurl

open Library

variable {Queue : Type} {side side' : RemoteSide} {attempt : Attempt Queue} {k : Nat}

section frame

theorem context_remoteWorkStep {request : Request} {work work' : Work}
    {remote remote' : RemoteImplContext}
    (hstep : remoteWorkStep attempt request work remote = some (work', remote')) {i : Nat}
    (hnot : work.stage ≠ .owns i) : remote'.context i = remote.context i := by
  have hput : ∀ j ctx, Slots.Stage.owns j ≠ .owns i →
      (remote.putContext j ctx).context i = remote.context i := by
    intro j ctx hne
    apply Function.update_of_ne
    intro heq
    exact hne (congrArg _ heq.symm)
  cases work with
  | admitted =>
      cases htake : takeRemoteSlot remote with
      | none =>
          simp only [remoteWorkStep, htake] at hstep
          cases hstep
          rfl
      | some found =>
          obtain ⟨slot, _, hfound⟩ := Option.map_eq_some_iff.mp htake
          simp only [remoteWorkStep, htake, ← hfound] at hstep
          cases hstep
          rfl
  | filling j =>
      cases hstep
      exact hput j _ hnot
  | holding j =>
      cases hstep
      exact hput j _ hnot
  | noContext => cases hstep
  | exited res => cases hstep
  | _ =>
      cases hstep
      rfl

/-- A step of a call writes no context that the call does not hold. -/
theorem context_remoteCallStep {call : Call Unit} {phase : Phase Unit}
    (hstep : remoteCallStep attempt side call = some (phase, side')) {i : Nat}
    (hnot : call.phase.stageAt () ≠ .owns i) :
    side'.remote.context i = side.remote.context i := by
  unfold remoteCallStep at hstep
  split at hstep
  · cases hstep
    rfl
  · cases henter : enterRemoteContext side.remote with
    | none =>
        simp only [henter] at hstep
        cases hstep
        rfl
    | some remote =>
        simp only [henter] at hstep
        cases hstep
        simp only [enterRemoteContext, Option.ite_none_left_eq_some] at henter
        cases henter.2
        rfl
  · split at hstep <;> cases hstep
    rfl
  · cases hstep
    rfl
  · rename_i j work hphase
    have ⟨_, hwork, heq⟩ := Option.map_eq_some_iff.mp hstep
    cases heq
    refine context_remoteWorkStep hwork ?_
    simpa [hphase, Phase.stageAt] using hnot
  · cases hstep
  · cases hstep

end frame

/-- The answer that a call has from the broker. -/
def Work.brought (remote : RemoteImplContext) : Work → Option (Vector Int8 2673)
  | .computed i => some (remote.context i).outputTrytes
  | .answered _ res => res
  | .freed res => res
  | .exited res => res
  | _ => none

def Phase.brought (remote : RemoteImplContext) : Phase Unit → Option (Vector Int8 2673)
  | .working _ work => work.brought remote
  | .returned _ res => res
  | _ => none

theorem Phase.brought_eq {phase : Phase Unit} {remote remote' : RemoteImplContext}
    (h : ∀ i, phase.stageAt () = .owns i → remote'.context i = remote.context i) :
    phase.brought remote' = phase.brought remote := by
  cases phase with
  | working j work =>
      cases work with
      | computed i => simp [brought, Work.brought, h i rfl]
      | _ => rfl
  | _ => rfl

theorem brought_remoteWorkStep {request : Request} {work work' : Work}
    {remote remote' : RemoteImplContext}
    (hstep : remoteWorkStep attempt request work remote = some (work', remote'))
    (hnot : ∀ i, work ≠ .holding i) {res : Vector Int8 2673}
    (hres : work'.brought remote' = some res) : work.brought remote = some res := by
  cases work with
  | admitted =>
      cases htake : takeRemoteSlot remote with
      | none =>
          simp only [remoteWorkStep, htake] at hstep
          cases hstep
          cases hres
      | some found =>
          simp only [remoteWorkStep, htake] at hstep
          cases hstep
          cases hres
  | holding i => exact absurd rfl (hnot i)
  | noContext => cases hstep
  | exited res => cases hstep
  | _ =>
      cases hstep
      exact hres

theorem brought_remoteCallStep {call : Call Unit} {phase : Phase Unit}
    (hstep : remoteCallStep attempt side call = some (phase, side'))
    (hnot : ∀ i, call.phase ≠ .working () (.holding i)) {res : Vector Int8 2673}
    (hres : phase.brought side'.remote = some res) :
    call.phase.brought side.remote = some res := by
  unfold remoteCallStep at hstep
  split at hstep
  · cases hstep
    cases hres
  · split at hstep <;> cases hstep <;> cases hres
  · split at hstep <;> cases hstep
    cases hres
  · rename_i hphase
    cases hstep
    rw [hphase]
    exact hres
  · rename_i j work hphase
    have ⟨_, hwork, heq⟩ := Option.map_eq_some_iff.mp hstep
    cases heq
    rw [hphase]
    refine brought_remoteWorkStep hwork (fun i heq => ?_) hres
    rw [heq] at hphase
    exact hnot i hphase
  · cases hstep
  · cases hstep

theorem brought_holding {request : Request} {i : Nat} {phase : Phase Unit}
    (htrytes : (side.remote.context i).inputTrytes = request.trytes)
    (hmwm : (side.remote.context i).mwm = request.mwm)
    (hstep : remoteCallStep attempt side ⟨request, .working () (.holding i)⟩ =
      some (phase, side')) {res : Vector Int8 2673}
    (hres : phase.brought side'.remote = some res) : attempt.answer request = some res := by
  simp only [remoteCallStep, remoteWorkStep, remoteDoPow_eq request htrytes hmwm] at hstep
  cases hanswer : attempt.answer request with
  | none =>
      simp only [hanswer] at hstep
      cases hstep
      cases hres
  | some answer =>
      simp only [hanswer] at hstep
      cases hstep
      simpa [Phase.brought, Work.brought, RemoteImplContext.putContext] using hres

def RemoteSide.Brought (source : Nat → Request → Vector Int8 2673 → Prop) (side : RemoteSide) :
    Prop :=
  ∀ k call, side.calls[k]? = some call → ∀ res, call.phase.brought side.remote = some res →
    source k call.request res

def RemoteSide.Distinct (side : RemoteSide) : Prop :=
  ∀ (k k' i : Nat) (call call' : Call Unit), side.calls[k]? = some call →
    side.calls[k']? = some call' → call.phase.stageAt () = .owns i →
      call'.phase.stageAt () = .owns i → k = k'

def RemoteSide.Filled (side : RemoteSide) : Prop :=
  ∀ (k : Nat) request i, side.calls[k]? = some ⟨request, .working () (.holding i)⟩ →
    (side.remote.context i).inputTrytes = request.trytes ∧
      (side.remote.context i).mwm = request.mwm

namespace RemoteSide.Brought

variable {source source' : Nat → Request → Vector Int8 2673 → Prop}

theorem mono (h : side.Brought source)
    (hsource : ∀ k request res, source k request res → source' k request res) :
    side.Brought source' :=
  fun k call hk res hres => hsource k call.request res (h k call hk res hres)

theorem enqueue (h : side.Brought source) (request : Request) :
    (side.enqueue request).Brought source := by
  intro k call hk res hres
  by_cases hlt : k < side.calls.length
  · rw [show (side.enqueue request).calls[k]? = side.calls[k]? from
      List.getElem?_append_left hlt] at hk
    exact h k call hk res hres
  · rw [show (side.enqueue request).calls[k]? = _ from
      List.getElem?_append_right (Nat.le_of_not_lt hlt)] at hk
    rw [List.mem_singleton.mp (List.mem_of_getElem? hk)] at hres
    cases hres

theorem step (h : side.Brought source) (hdistinct : side.Distinct) (hfilled : side.Filled)
    (hsource : ∀ k request res, source k request res → source' k request res)
    (hstep : side.step k attempt = some side')
    (hattempt : ∀ request i, side.calls[k]? = some ⟨request, .working () (.holding i)⟩ →
      ∀ res, attempt.answer request = some res → source' k request res) :
    side'.Brought source' := by
  intro k' call' hk' res hres
  obtain ⟨call, hk, hmap⟩ := Option.bind_eq_some_iff.mp hstep
  obtain ⟨⟨phase, shared⟩, hcall, heq⟩ := Option.map_eq_some_iff.mp hmap
  by_cases hsame : k = k'
  · subst hsame
    cases heq
    have hlt := (List.getElem?_eq_some_iff.mp hk).1
    rw [List.getElem?_set_self hlt] at hk'
    cases hk'
    by_cases hholding : ∃ i, call.phase = .working () (.holding i)
    · obtain ⟨i, hphase⟩ := hholding
      obtain ⟨request, _⟩ := call
      cases hphase
      have ⟨htrytes, hmwm⟩ := hfilled k request i hk
      exact hattempt request i hk res (brought_holding htrytes hmwm hcall hres)
    · have hbefore := brought_remoteCallStep hcall (fun i heq => hholding ⟨i, heq⟩) hres
      exact hsource _ _ _ (h k call hk res hbefore)
  · cases heq
    rw [List.getElem?_set_ne hsame] at hk'
    refine hsource _ _ _ (h k' call' hk' res ?_)
    rw [← hres]
    refine (Phase.brought_eq fun i howns => context_remoteCallStep hcall fun howns' => ?_).symm
    exact hsame (hdistinct k k' i call call' hk hk' howns' howns)

end RemoteSide.Brought

end Dcurl
