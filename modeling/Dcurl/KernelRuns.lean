import Dcurl.KernelLaunch

/-! The loop of `pwork` of `pow_cl.c` over the launches of `search`: what each
group has run through at any moment, and which launch is the last. -/
namespace Dcurl.PowKernel

open Library

/-- How the calls of one turn of the loop go: the interleaving of the groups, none
when the launch is refused, and whether `found` can be read. -/
structure Turn (n : Nat) where
  schedule : Option (List (Fin n))
  readsFound : Bool

def Turn.Succeeds {n : Nat} (turn : Turn n) : Prop :=
  turn.schedule.isSome = true ∧ turn.readsFound = true

def Searcher.isDone : Searcher → Bool
  | .done _ => true
  | _ => false

section program

variable {n : Nat} (pass : Group → Group) (loopCount : Nat)

def launch (groups : Fin n → Group) (schedule : List (Fin n)) :
    Option (Pool n Searcher (Found n)) :=
  (Machine.run (Pool.step (search pass loopCount)) (enqueue groups) schedule).bind fun pool =>
    if ∀ g, (pool.threads g).isDone = true then some pool else none

/-- The loop that goes on while `found` is 0, with the launch that it ends with;
`some none` when a call fails, `none` when the turns do not take the loop to its end. -/
def searchLoop : List (Turn n) → (Fin n → Group) → Option (Option (Pool n Searcher (Found n)))
  | [], _ => none
  | turn :: rest, groups =>
      match turn.schedule with
      | none => some none
      | some schedule =>
          (launch pass loopCount groups schedule).bind fun final =>
            if turn.readsFound = false then some none
            else if final.shared.found = 0 then searchLoop rest fun g => (final.threads g).group
            else some (some final)

def loopAfter : List (Turn n) → (Fin n → Group) → Option (Fin n → Group)
  | [], groups => some groups
  | turn :: rest, groups =>
      turn.schedule.bind fun schedule =>
        (launch pass loopCount groups schedule).bind fun final =>
          if turn.readsFound = true ∧ final.shared.found = 0 then
            loopAfter rest fun g => (final.threads g).group
          else none

def Quiet (start : Fin n → Group) (k : Nat) : Prop :=
  ∀ g, ∀ k', 0 < k' → k' ≤ k → (pass^[k'] (start g)).nonceProbe = 0

def HitsAfter (start : Fin n → Group) (launches : Nat) : Prop :=
  Quiet pass start (launches * loopCount) ∧ ¬Quiet pass start ((launches + 1) * loopCount)

end program

section launch

variable {n : Nat} {pass : Group → Group} {loopCount : Nat} {groups start : Fin n → Group}
  {final : Pool n Searcher (Found n)}

theorem launch_of_launch {schedule : List (Fin n)}
    (h : launch pass loopCount groups schedule = some final) :
    Launch pass loopCount groups final := by
  have ⟨pool, hrun, hpool⟩ := Option.bind_eq_some_iff.mp h
  rw [Option.ite_none_right_eq_some, Option.some.injEq] at hpool
  obtain ⟨hall, rfl⟩ := hpool
  refine ⟨⟨schedule, hrun⟩, fun g => ?_⟩
  have hdone := hall g
  cases hsearcher : pool.threads g with
  | done group => exact ⟨group, rfl⟩
  | test group i =>
      rw [hsearcher] at hdone
      cases hdone
  | read group i =>
      rw [hsearcher] at hdone
      cases hdone

def At (loopCount : Nat) (g : Fin n) (shared : Found n) (k : Nat) : Searcher → Prop
  | .test _ i => i = k ∧ g ∉ shared.writers
  | .read _ i => i + 1 = k
  | .done _ => k = loopCount ∧ g ∉ shared.writers ∨ shared.found ≠ 0

structure Swept (pass : Group → Group) (loopCount : Nat) (start : Group) (g : Fin n)
    (searcher : Searcher) (shared : Found n) (k : Nat) : Prop where
  le : k ≤ loopCount
  group_eq : searcher.group = pass^[k] start
  missed : ∀ k', 0 < k' → k' < k → (pass^[k'] start).nonceProbe = 0
  wrote : g ∈ shared.writers ↔ 0 < k ∧ (pass^[k] start).nonceProbe ≠ 0
  position : At loopCount g shared k searcher

def Faithful (shared : Found n) : Prop := shared.found = 0 ↔ shared.writers = []

theorem Swept.missed_all {group : Group} {g : Fin n} {searcher : Searcher} {shared : Found n}
    {k : Nat} (h : Swept pass loopCount group g searcher shared k) (hwrote : g ∉ shared.writers) :
    ∀ k', 0 < k' → k' ≤ k → (pass^[k'] group).nonceProbe = 0 := by
  intro k' hpos hle
  by_cases hlast : k' = k
  · by_contra hprobe
    subst hlast
    exact hwrote (h.wrote.mpr ⟨hpos, hprobe⟩)
  · exact h.missed k' hpos (by omega)

theorem pass_iterate {group group' : Group} {k : Nat} (h : group' = pass^[k] group) :
    pass group' = pass^[k + 1] group := by
  rw [Function.iterate_succ_apply', ← h]

theorem swept_step (hn : n ≤ 127) {group : Group} {g : Fin n} {searcher searcher' : Searcher}
    {shared shared' : Found n} {k : Nat} (hfaithful : Faithful shared)
    (h : Swept pass loopCount group g searcher shared k)
    (hstep : SearchSteps pass loopCount g searcher shared searcher' shared') :
    Faithful shared' ∧ ∃ k', Swept pass loopCount group g searcher' shared' k' := by
  have hposition := h.position
  have hgroup := h.group_eq
  cases hstep with
  | @hit moved i shared hi hprobe =>
      obtain ⟨rfl, hfresh⟩ := hposition
      have hnext : pass moved = pass^[i + 1] group := pass_iterate hgroup
      refine ⟨iff_of_false (name_ne_zero (by omega)) (by simp), i + 1, hi, hnext, ?_, ?_, rfl⟩
      · intro k' hpos hlt
        exact h.missed_all hfresh k' hpos (by omega)
      · rw [← hnext]
        simpa using hprobe
  | @miss moved i shared hi hprobe =>
      obtain ⟨rfl, hfresh⟩ := hposition
      have hnext : pass moved = pass^[i + 1] group := pass_iterate hgroup
      refine ⟨hfaithful, i + 1, hi, hnext, ?_, ?_, rfl⟩
      · intro k' hpos hlt
        exact h.missed_all hfresh k' hpos (by omega)
      · rw [← hnext]
        simpa [hprobe] using hfresh
  | exhaust hi =>
      obtain ⟨rfl, hfresh⟩ := hposition
      exact ⟨hfaithful, _, h.le, hgroup, h.missed, h.wrote, Or.inl ⟨by have := h.le; omega, hfresh⟩⟩
  | leave hfound => exact ⟨hfaithful, k, h.le, hgroup, h.missed, h.wrote, Or.inr hfound⟩
  | again hfound =>
      have hnone : shared.writers = [] := hfaithful.mp hfound
      exact ⟨hfaithful, k, h.le, hgroup, h.missed, h.wrote, hposition, by simp [hnone]⟩

theorem Swept.other {group : Group} {g other : Fin n} {searcher : Searcher}
    {moved moved' : Searcher} {shared shared' : Found n} {k : Nat} (hother : other ≠ g)
    (h : Swept pass loopCount group other searcher shared k)
    (hfaithful : Faithful shared')
    (hstep : SearchSteps pass loopCount g moved shared moved' shared') :
    Swept pass loopCount group other searcher shared' k := by
  have hposition := h.position
  cases hstep with
  | hit hi hprobe =>
      have hset : (⟨Int8.ofNat (g.val + 1), g :: shared.writers⟩ : Found n).found ≠ 0 := by
        intro hzero
        have hnone := hfaithful.mp hzero
        cases hnone
      refine ⟨h.le, h.group_eq, h.missed, ?_, ?_⟩
      · simpa [hother] using h.wrote
      · cases searcher with
        | test group i => simpa [At, hother] using hposition
        | read group i => exact hposition
        | done group => exact Or.inr hset
  | miss _ _ => exact h
  | exhaust _ => exact h
  | leave _ => exact h
  | again _ => exact h

def PoolSwept (pass : Group → Group) (loopCount : Nat) (start : Fin n → Group) (g : Fin n)
    (searcher : Searcher) (shared : Found n) : Prop :=
  Faithful shared ∧ ∃ k, Swept pass loopCount (start g) g searcher shared k

theorem keeps_poolSwept (hn : n ≤ 127) (start : Fin n → Group) :
    Pool.Keeps (search pass loopCount) (PoolSwept pass loopCount start) := by
  intro g searcher shared searcher' shared' ⟨hfaithful, k, hswept⟩ hstep
  have hsteps := searchSteps_of_search hstep
  have hnext := swept_step hn hfaithful hswept hsteps
  refine ⟨hnext, ?_⟩
  intro other searcher hother ⟨_, k, hk⟩
  exact ⟨hnext.1, k, hk.other hother hnext.1 hsteps⟩

theorem poolSwept_enqueue (start : Fin n → Group) (g : Fin n) :
    PoolSwept pass loopCount start g ((enqueue start).threads g) (enqueue start).shared :=
  ⟨iff_of_true rfl rfl, 0, Nat.zero_le _, rfl, by omega, by simp [enqueue], rfl, by simp [enqueue]⟩

theorem poolSwept_of_run (hn : n ≤ 127) {schedule : List (Fin n)}
    {pool : Pool n Searcher (Found n)}
    (hrun : Machine.run (Pool.step (search pass loopCount)) (enqueue start) schedule = some pool) :
    ∀ g, PoolSwept pass loopCount start g (pool.threads g) pool.shared :=
  Machine.run_invariant
    (fun pool => ∀ g, PoolSwept pass loopCount start g (pool.threads g) pool.shared)
    (fun _ _ _ hpool hnext => Pool.step_invariant (keeps_poolSwept hn start) hpool hnext)
    (poolSwept_enqueue start) hrun

def stepsLeft (loopCount : Nat) (_ : Fin n) : Searcher → Nat
  | .test _ i => 2 * (loopCount - i) + 1
  | .read _ i => 2 * (loopCount - i)
  | .done _ => 0

theorem stepsLeft_lt {g : Fin n} {searcher searcher' : Searcher} {shared shared' : Found n}
    (h : PoolSwept pass loopCount start g searcher shared)
    (hstep : search pass loopCount g searcher shared = some (searcher', shared')) :
    stepsLeft loopCount g searcher' < stepsLeft loopCount g searcher := by
  have ⟨_, k, hswept⟩ := h
  have hle := hswept.le
  have hposition := hswept.position
  cases searchSteps_of_search hstep with
  | hit hi _ =>
      simp only [stepsLeft]
      omega
  | miss hi _ =>
      simp only [stepsLeft]
      omega
  | exhaust _ =>
      simp only [stepsLeft]
      omega
  | leave _ =>
      simp only [At] at hposition
      simp only [stepsLeft]
      omega
  | again _ =>
      simp only [At] at hposition
      simp only [stepsLeft]
      omega

theorem isSome_search {g : Fin n} {searcher : Searcher} {shared : Found n}
    (hunfinished : ¬∃ group, searcher = .done group) :
    (search pass loopCount g searcher shared).isSome = true := by
  cases searcher with
  | test group i =>
      simp only [search]
      split
      · split <;> rfl
      · rfl
  | read group i =>
      simp only [search]
      split <;> rfl
  | done group => exact absurd ⟨group, rfl⟩ hunfinished

/-- Whatever the groups have done so far, the launch can come to its end, and no
schedule is longer than their passes take. -/
theorem launch_ends (hn : n ≤ 127) {schedule : List (Fin n)} {pool : Pool n Searcher (Found n)}
    (hrun : Machine.run (Pool.step (search pass loopCount)) (enqueue start) schedule = some pool) :
    schedule.length ≤ n * (2 * loopCount + 1) ∧
      ∃ rest final, launch pass loopCount start (schedule ++ rest) = some final := by
  have hkeeps : Pool.Keeps (search pass loopCount) _ := keeps_poolSwept hn start
  have hrank : ∀ g searcher shared searcher' shared', PoolSwept pass loopCount start g searcher
      shared → search pass loopCount g searcher shared = some (searcher', shared') →
        stepsLeft loopCount g searcher' < stepsLeft loopCount g searcher :=
    fun _ _ _ _ _ h hstep => stepsLeft_lt h hstep
  have hlength := Pool.run_length_le hkeeps _ hrank (poolSwept_enqueue start) hrun
  have hsum : ∑ g, stepsLeft loopCount g ((enqueue start).threads g) =
      n * (2 * loopCount + 1) := by
    simp [enqueue, stepsLeft]
  refine ⟨hsum ▸ hlength, ?_⟩
  obtain ⟨rest, final, hrest, hdone⟩ := Pool.exists_finished_run hkeeps _ hrank
    (fun _ searcher => ∃ group, searcher = .done group)
    (fun _ _ _ _ hunfinished => isSome_search hunfinished) pool (poolSwept_of_run hn hrun)
  refine ⟨rest, final, ?_⟩
  unfold launch
  rw [Machine.run_append_of_eq rest hrun, hrest, Option.bind_some, if_pos]
  intro g
  obtain ⟨group, hgroup⟩ := hdone g
  rw [hgroup]
  rfl

theorem swept_of_launch (hn : n ≤ 127) (h : Launch pass loopCount start final) (g : Fin n) :
    Faithful final.shared ∧ ∃ k,
      Swept pass loopCount (start g) g (final.threads g) final.shared k := by
  have ⟨⟨schedule, hrun⟩, _⟩ := h
  exact poolSwept_of_run hn hrun g

theorem found_eq_zero_iff (hn : n ≤ 127) (h : Launch pass loopCount start final) :
    (final.shared.found = 0 ↔ Quiet pass start loopCount) ∧
      (final.shared.found = 0 → ∀ g, (final.threads g).group = pass^[loopCount] (start g)) := by
  have hall : final.shared.found = 0 → ∀ g, ∃ k, k = loopCount ∧ g ∉ final.shared.writers ∧
      Swept pass loopCount (start g) g (final.threads g) final.shared k := by
    intro hfound g
    have ⟨_, k, hswept⟩ := swept_of_launch hn h g
    have ⟨group, hdone⟩ := h.2 g
    have hposition := hswept.position
    rw [hdone] at hposition
    cases hposition with
    | inl hend => exact ⟨k, hend.1, hend.2, hswept⟩
    | inr hset => exact absurd hfound hset
  refine ⟨⟨?_, ?_⟩, ?_⟩
  · intro hfound g
    have ⟨k, hk, hwrote, hswept⟩ := hall hfound g
    exact hk ▸ hswept.missed_all hwrote
  · intro hquiet
    by_contra hfound
    have hwriters : final.shared.writers ≠ [] := by
      intro hnone
      have hraced := (raced_of_launch hn h).found_eq
      rw [hnone] at hraced
      exact hfound hraced
    have ⟨g, hmem⟩ := List.exists_mem_of_ne_nil _ hwriters
    have ⟨_, k, hswept⟩ := swept_of_launch hn h g
    have ⟨hpos, hprobe⟩ := hswept.wrote.mp hmem
    exact hprobe (hquiet g k hpos hswept.le)
  · intro hfound g
    have ⟨k, hk, _, hswept⟩ := hall hfound g
    exact hk ▸ hswept.group_eq

end launch

section loop

variable {n : Nat} {pass : Group → Group} {loopCount : Nat} {start groups : Fin n → Group}
  {final : Pool n Searcher (Found n)}

theorem quiet_add_iff {k : Nat} (hquiet : Quiet pass start k)
    (hgroups : ∀ g, groups g = pass^[k] (start g)) (more : Nat) :
    Quiet pass groups more ↔ Quiet pass start (k + more) := by
  have hshift : ∀ g k', pass^[k'] (groups g) = pass^[k' + k] (start g) := by
    intro g k'
    rw [Function.iterate_add_apply, hgroups]
  constructor
  · intro h g k' hpos hle
    by_cases hearly : k' ≤ k
    · exact hquiet g k' hpos hearly
    · have hlate := h g (k' - k) (by omega) (by omega)
      rwa [hshift, Nat.sub_add_cancel (by omega)] at hlate
  · intro h g k' hpos hle
    rw [hshift]
    exact h g (k' + k) (by omega) (by omega)

theorem Quiet.mono {k k' : Nat} (h : Quiet pass start k) (hle : k' ≤ k) : Quiet pass start k' :=
  fun g other hpos hother => h g other hpos (Nat.le_trans hother hle)

theorem quiet_zero : Quiet pass start 0 := by
  intro g k hpos hle
  omega

theorem hitsAfter_add_iff {launches : Nat} (hquiet : Quiet pass start (launches * loopCount))
    (hgroups : ∀ g, groups g = pass^[launches * loopCount] (start g)) (more : Nat) :
    HitsAfter pass loopCount groups more ↔ HitsAfter pass loopCount start (launches + more) := by
  have hshift := quiet_add_iff hquiet hgroups
  unfold HitsAfter
  rw [hshift, hshift, ← Nat.add_mul, ← Nat.add_mul, Nat.add_assoc]

theorem HitsAfter.le_of_quiet {launches other : Nat} (h : HitsAfter pass loopCount start launches)
    (hquiet : Quiet pass start (other * loopCount)) : other ≤ launches := by
  by_contra hlt
  exact h.2 (hquiet.mono (Nat.mul_le_mul_right _ (by omega)))

theorem HitsAfter.unique {launches other : Nat} (h : HitsAfter pass loopCount start launches)
    (hother : HitsAfter pass loopCount start other) : launches = other :=
  Nat.le_antisymm (hother.le_of_quiet h.1) (h.le_of_quiet hother.1)

theorem next_of_launch (hn : n ≤ 127) (h : Launch pass loopCount groups final)
    (hfound : final.shared.found = 0) :
    Quiet pass groups (1 * loopCount) ∧
      ∀ g, (final.threads g).group = pass^[1 * loopCount] (groups g) := by
  have ⟨hiff, hnext⟩ := found_eq_zero_iff hn h
  rw [Nat.one_mul]
  exact ⟨hiff.mp hfound, hnext hfound⟩

theorem loopAfter_eq_some (hn : n ≤ 127) {turns : List (Turn n)}
    (h : loopAfter pass loopCount turns start = some groups) :
    (∀ turn ∈ turns, turn.Succeeds) ∧ Quiet pass start (turns.length * loopCount) ∧
      (∀ g, groups g = pass^[turns.length * loopCount] (start g)) ∧
      ∀ more, searchLoop pass loopCount (turns ++ more) start =
        searchLoop pass loopCount more groups := by
  induction turns generalizing start with
  | nil =>
      cases h
      simpa using quiet_zero
  | cons turn rest ih =>
      rw [loopAfter] at h
      have ⟨schedule, hschedule, h⟩ := Option.bind_eq_some_iff.mp h
      have ⟨final, hlaunch, h⟩ := Option.bind_eq_some_iff.mp h
      rw [Option.ite_none_right_eq_some] at h
      obtain ⟨⟨hread, hfound⟩, hrest⟩ := h
      have ⟨hone, hnext⟩ := next_of_launch hn (launch_of_launch hlaunch) hfound
      have ⟨hall, hquiet, hgroups, hloop⟩ := ih hrest
      refine ⟨?_, ?_, ?_, ?_⟩
      · rw [List.forall_mem_cons]
        exact ⟨⟨by rw [hschedule]; rfl, hread⟩, hall⟩
      · rw [List.length_cons, Nat.add_comm, Nat.add_mul]
        exact (quiet_add_iff hone hnext _).mp hquiet
      · intro g
        rw [hgroups, hnext, ← Function.iterate_add_apply, List.length_cons, Nat.add_mul]
      · intro more
        rw [List.cons_append, searchLoop]
        simp [hschedule, hlaunch, hread, hfound, hloop]

/-- The loop ends with the launch in which the first group hits, under every
interleaving. -/
theorem searchLoop_eq_some (hn : n ≤ 127) {turns : List (Turn n)}
    (h : searchLoop pass loopCount turns groups = some (some final)) :
    ∃ launches < turns.length, HitsAfter pass loopCount groups launches ∧
      ∃ groups', (∀ g, groups' g = pass^[launches * loopCount] (groups g)) ∧
        Launch pass loopCount groups' final ∧ final.shared.found ≠ 0 := by
  induction turns generalizing groups with
  | nil => cases h
  | cons turn rest ih =>
      rw [searchLoop] at h
      cases hschedule : turn.schedule with
      | none =>
          rw [hschedule] at h
          cases h
      | some schedule =>
          simp only [hschedule] at h
          have ⟨pool, hpool, h⟩ := Option.bind_eq_some_iff.mp h
          have hlaunch := launch_of_launch hpool
          split at h
          · cases h
          · split at h
            · rename_i hfound
              have ⟨hone, hnext⟩ := next_of_launch hn hlaunch hfound
              have ⟨launches, hlt, hhits, groups', hgroups', hlast⟩ := ih h
              refine ⟨1 + launches, ?_, (hitsAfter_add_iff hone hnext _).mp hhits, groups', ?_,
                hlast⟩
              · rw [List.length_cons]
                omega
              · intro g
                rw [hgroups', hnext, ← Function.iterate_add_apply, Nat.add_mul,
                  Nat.add_comm (1 * loopCount)]
            · rename_i hfound
              cases h
              refine ⟨0, by simp, ⟨?_, ?_⟩, groups, fun g => ?_, hlaunch, hfound⟩
              · rw [Nat.zero_mul]
                exact quiet_zero
              · rw [Nat.zero_add, Nat.one_mul]
                exact fun hquiet => hfound ((found_eq_zero_iff hn hlaunch).1.mpr hquiet)
              · rw [Nat.zero_mul]
                rfl

theorem isSome_of_searchLoop {turns : List (Turn n)} (hall : ∀ turn ∈ turns, turn.Succeeds)
    {result : Option (Pool n Searcher (Found n))}
    (h : searchLoop pass loopCount turns groups = some result) : ∃ final, result = some final := by
  induction turns generalizing groups with
  | nil => cases h
  | cons turn rest ih =>
      have ⟨hsome, hread⟩ := hall turn List.mem_cons_self
      have ⟨schedule, hschedule⟩ := Option.isSome_iff_exists.mp hsome
      rw [searchLoop] at h
      simp only [hschedule, hread] at h
      have ⟨pool, _, h⟩ := Option.bind_eq_some_iff.mp h
      rw [if_neg (by decide)] at h
      split at h
      · exact ih (fun other hmem => hall other (List.mem_cons_of_mem turn hmem)) h
      · exact ⟨pool, (Option.some.inj h).symm⟩

theorem exists_searchLoop (hn : n ≤ 127) {launches : Nat}
    (hhits : HitsAfter pass loopCount groups launches) {schedule : List (Fin n)}
    {pool : Pool n Searcher (Found n)}
    (hrun : Machine.run (Pool.step (search pass loopCount)) (enqueue groups) schedule =
      some pool) :
    ∃ rest turns final, turns.length = launches ∧ (∀ turn ∈ turns, turn.Succeeds) ∧
      searchLoop pass loopCount (⟨some (schedule ++ rest), true⟩ :: turns) groups =
        some (some final) := by
  induction launches generalizing groups schedule pool with
  | zero =>
      have ⟨_, rest, final, hlaunch⟩ := launch_ends hn hrun
      have hiff := (found_eq_zero_iff hn (launch_of_launch hlaunch)).1
      have hfound : final.shared.found ≠ 0 := by
        rw [Ne, hiff]
        simpa using hhits.2
      exact ⟨rest, [], final, rfl, by simp, by simp [searchLoop, hlaunch, hfound]⟩
  | succ launches ih =>
      have ⟨_, rest, next, hlaunch⟩ := launch_ends hn hrun
      have hfound : next.shared.found = 0 := by
        apply (found_eq_zero_iff hn (launch_of_launch hlaunch)).1.mpr
        exact hhits.1.mono (Nat.le_mul_of_pos_left _ (Nat.succ_pos _))
      have ⟨hone, hnext⟩ := next_of_launch hn (launch_of_launch hlaunch) hfound
      rw [Nat.add_comm, ← hitsAfter_add_iff hone hnext] at hhits
      have hempty : Machine.run (Pool.step (search pass loopCount))
          (enqueue fun g => (next.threads g).group) [] = some _ := rfl
      have ⟨first, turns, final, hlength, hall, hloop⟩ := ih hhits hempty
      refine ⟨rest, ⟨some ([] ++ first), true⟩ :: turns, final, by simp [hlength], ?_, ?_⟩
      · rw [List.forall_mem_cons]
        exact ⟨⟨rfl, rfl⟩, hall⟩
      · rw [searchLoop]
        simp only [hlaunch, Option.bind_some, hfound, if_true]
        exact hloop

end loop

end Dcurl.PowKernel
