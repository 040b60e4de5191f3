import Dcurl.KernelSearch

/-! `pwork` of `pow_cl.c`: the launches of `search`, in which the groups race for
the signed char `found`, and what the host reads back after `finalize`. -/
namespace Dcurl.PowKernel

open Library

inductive Searcher where
  /-- About to evaluate `i < *loop_count`. -/
  | test (group : Group) (i : Nat)
  /-- Past the last barrier, about to read `found`. -/
  | read (group : Group) (i : Nat)
  | done (group : Group)

def Searcher.group : Searcher → Group
  | .test group _ => group
  | .read group _ => group
  | .done group => group

/-- The shared byte, and the groups that have written it in this launch, the latest
first. No step reads the list. -/
structure Found (n : Nat) where
  found : Int8
  writers : List (Fin n)

section program

variable {n : Nat} (pass : Group → Group) (loopCount : Nat)

/-- The steps of group `g` in `search`; `pass` is `searchPass`. Every work item reads `found`
itself: in lockstep the items of a group read the same byte. -/
def search (g : Fin n) : Searcher → Found n → Option (Searcher × Found n)
  | .test group i, shared =>
      if i < loopCount then
        let group := pass group
        if group.nonceProbe ≠ 0 then
          some (.read group i, ⟨Int8.ofNat (g.val + 1), g :: shared.writers⟩)
        else some (.read group i, shared)
      else some (.done group, shared)
  | .read group i, shared =>
      if shared.found ≠ 0 then some (.done group, shared) else some (.test group (i + 1), shared)
  | .done _, _ => none

def enqueue (groups : Fin n → Group) : Pool n Searcher (Found n) where
  threads g := .test (groups g) 0
  shared := ⟨0, []⟩

def Launch (groups : Fin n → Group) (final : Pool n Searcher (Found n)) : Prop :=
  (∃ schedule, Machine.run (Pool.step (search pass loopCount)) (enqueue groups) schedule =
      some final) ∧
    ∀ g, ∃ group, final.threads g = .done group

inductive Searching (start : Fin n → Group) : (Fin n → Group) → Prop
  | first : Searching start start
  | next {groups : Fin n → Group} {final : Pool n Searcher (Found n)} :
      Searching start groups → Launch pass loopCount groups final → final.shared.found = 0 →
        Searching start fun g => (final.threads g).group

end program

def initGroups {n : Nat} (state : CurlState) (lSize : Nat) (own : Fin n → Group) (g : Fin n) :
    Group :=
  { own g with mid := init lSize g 0 (initState state) (own g).mid }

def finalizeAll {n : Nat} (lSize : Nat) (found : Int8) (groups : Fin n → Group)
    (tritHash : Vector Int8 243) : Vector Int8 243 :=
  (List.finRange n).foldl (fun tritHash (g : Fin n) =>
    finalize lSize g found (groups g).mid (groups g).nonceProbe tritHash) tritHash

/-- What `pwork` returns after `finalize`; `none` stands for the buffer as `malloc`
gave it. -/
def readBack (found : Int8) (tritHash : Vector Int8 243) : Option (Vector Int8 243) :=
  if 0 < found then some tritHash else none

/-- The host leaves its loop, `found` names a group that hit, and the host returns
the trits that this group writes. -/
def ReadsWinner {n : Nat} (lSize : Nat) (tritHash : Vector Int8 243)
    (final : Pool n Searcher (Found n)) : Prop :=
  final.shared.found ≠ 0 ∧ ∃ g ∈ final.shared.writers,
    (g.val : Int) = final.shared.found.toInt - 1 ∧
      ∃ buf, readBack final.shared.found (finalizeAll lSize final.shared.found
          (fun g => (final.threads g).group) tritHash) = some buf ∧
        ∀ (j : Fin 729) (hj : j.val < 243), buf[j.val] =
          hashTrit (final.threads g).group.mid (final.threads g).group.nonceProbe j

/-- With `n` groups, every launch of every call of `pwork` in which some group hits
ends the search with the trits of such a group. Where the device allows fewer than 243 work
items, `transform` leaves its private arrays. -/
def AlwaysReads (n : Nat) : Prop :=
  ∀ (numWorkGroup m loopCount : Nat) (state : CurlState) (own groups : Fin n → Group)
    (final : Pool n Searcher (Found n)) (tritHash : Vector Int8 243),
    243 ≤ numWorkGroup → m ≤ 243 →
    Searching (searchPass (localWorkSize numWorkGroup) m) loopCount
      (initGroups state (localWorkSize numWorkGroup) own) groups →
    Launch (searchPass (localWorkSize numWorkGroup) m) loopCount groups final →
    final.shared.writers ≠ [] →
      ReadsWinner (localWorkSize numWorkGroup) tritHash final

section steps

variable {n : Nat} {pass : Group → Group} {loopCount : Nat}

inductive SearchSteps (pass : Group → Group) (loopCount : Nat) (g : Fin n) :
    Searcher → Found n → Searcher → Found n → Prop
  | hit {group : Group} {i : Nat} {shared : Found n} (hi : i < loopCount)
      (hprobe : (pass group).nonceProbe ≠ 0) :
      SearchSteps pass loopCount g (.test group i) shared (.read (pass group) i)
        ⟨Int8.ofNat (g.val + 1), g :: shared.writers⟩
  | miss {group : Group} {i : Nat} {shared : Found n} (hi : i < loopCount)
      (hprobe : (pass group).nonceProbe = 0) :
      SearchSteps pass loopCount g (.test group i) shared (.read (pass group) i) shared
  | exhaust {group : Group} {i : Nat} {shared : Found n} (hi : loopCount ≤ i) :
      SearchSteps pass loopCount g (.test group i) shared (.done group) shared
  | leave {group : Group} {i : Nat} {shared : Found n} (hfound : shared.found ≠ 0) :
      SearchSteps pass loopCount g (.read group i) shared (.done group) shared
  | again {group : Group} {i : Nat} {shared : Found n} (hfound : shared.found = 0) :
      SearchSteps pass loopCount g (.read group i) shared (.test group (i + 1)) shared

theorem searchSteps_of_search {g : Fin n} {searcher searcher' : Searcher} {shared shared' : Found n}
    (hstep : search pass loopCount g searcher shared = some (searcher', shared')) :
    SearchSteps pass loopCount g searcher shared searcher' shared' := by
  cases searcher with
  | test group i =>
      simp only [search] at hstep
      split at hstep
      · rename_i hi
        split at hstep
        · rename_i hprobe
          cases hstep
          exact .hit hi hprobe
        · rename_i hprobe
          cases hstep
          exact .miss hi (not_not.mp hprobe)
      · rename_i hi
        cases hstep
        exact .exhaust (by omega)
  | read group i =>
      simp only [search] at hstep
      split at hstep
      · rename_i hfound
        cases hstep
        exact .leave hfound
      · rename_i hfound
        cases hstep
        exact .again (not_not.mp hfound)
  | done group => cases hstep

end steps

section names

/-- Up to group 126 the char is the number plus one. -/
theorem toInt_name {g : Nat} (hg : g < 127) : (Int8.ofNat (g + 1)).toInt = g + 1 := by
  rw [Int8.toInt_ofNat', Int.bmod_eq_of_le]
  · rfl
  · simp [Int8.size]
    omega
  · simp [Int8.size]
    omega

theorem name_ne_zero {g : Nat} (hg : g < 127) : Int8.ofNat (g + 1) ≠ 0 := by
  intro hzero
  have hname := toInt_name hg
  rw [hzero, Int8.toInt_zero] at hname
  omega

theorem name_pos {g : Nat} (hg : g < 127) : 0 < Int8.ofNat (g + 1) := by
  rw [Int8.lt_iff_toInt_lt, toInt_name hg, Int8.toInt_zero]
  omega

end names

section finalize

variable {n : Nat}

variable {lSize : Nat} {found : Int8} {groups : Fin n → Group} {g : Fin n}

theorem finalize_of_ne (hfound : (g.val : Int) = found.toInt - 1) {other : Fin n}
    (hother : other ≠ g) (mid : Words 64) (nonceProbe : BitVec 64) (tritHash : Vector Int8 243) :
    finalize lSize other found mid nonceProbe tritHash = tritHash := by
  unfold finalize
  rw [if_neg]
  intro hnamed
  apply hother
  apply Fin.ext
  omega

theorem getElem_finalizeAll (hpos : 0 < lSize) (hdvd : lSize ∣ 729)
    (hfound : (g.val : Int) = found.toInt - 1) (hprobe : (groups g).nonceProbe ≠ 0)
    (tritHash : Vector Int8 243) {j : Fin 729} (hj : j.val < 243) :
    (finalizeAll lSize found groups tritHash)[j.val] =
      hashTrit (groups g).mid (groups g).nonceProbe j := by
  have hfold : ∀ (order : List (Fin n)) (tritHash : Vector Int8 243),
      (order.foldl (fun tritHash (g : Fin n) =>
        finalize lSize g found (groups g).mid (groups g).nonceProbe tritHash) tritHash)[j.val] =
        if g ∈ order then hashTrit (groups g).mid (groups g).nonceProbe j else tritHash[j.val] := by
    intro order
    induction order with
    | nil =>
        intro tritHash
        rfl
    | cons other rest ih =>
        intro tritHash
        rw [List.foldl_cons, ih]
        by_cases hother : other = g
        · subst hother
          rw [getElem_finalize hpos hdvd hfound hprobe tritHash hj]
          simp
        · rw [finalize_of_ne hfound hother]
          simp [Ne.symm hother]
  unfold finalizeAll
  rw [hfold, if_pos (List.mem_finRange g)]

end finalize

section winner

variable {n : Nat} {pass : Group → Group} {loopCount : Nat}

def Kept : Searcher → Prop
  | .test _ _ => False
  | .read group _ => group.nonceProbe ≠ 0
  | .done group => group.nonceProbe ≠ 0

structure Raced (pool : Pool n Searcher (Found n)) : Prop where
  found_eq : pool.shared.found =
    pool.shared.writers.head?.elim 0 fun g => Int8.ofNat (g.val + 1)
  kept : ∀ g ∈ pool.shared.writers, Kept (pool.threads g)

theorem Raced.found_ne_zero (hn : n ≤ 127) {pool : Pool n Searcher (Found n)} (hpool : Raced pool)
    (hwriters : pool.shared.writers ≠ []) : pool.shared.found ≠ 0 := by
  rw [hpool.found_eq]
  cases hlist : pool.shared.writers with
  | nil => exact absurd hlist hwriters
  | cons g rest => exact name_ne_zero (by omega)

theorem Raced.quiet {pool : Pool n Searcher (Found n)} (hpool : Raced pool) {g : Fin n}
    {searcher : Searcher} (hkept : g ∈ pool.shared.writers → Kept searcher) :
    Raced ⟨Function.update pool.threads g searcher, pool.shared⟩ where
  found_eq := hpool.found_eq
  kept other hmem := by
    by_cases hother : other = g
    · subst hother
      simpa using hkept hmem
    · simpa [hother] using hpool.kept other hmem

theorem Raced.hit {pool : Pool n Searcher (Found n)} (hpool : Raced pool) {g : Fin n}
    {searcher : Searcher} (hkept : Kept searcher) :
    Raced ⟨Function.update pool.threads g searcher,
      ⟨Int8.ofNat (g.val + 1), g :: pool.shared.writers⟩⟩ where
  found_eq := rfl
  kept other hmem := by
    by_cases hother : other = g
    · subst hother
      simpa using hkept
    · simpa [hother] using hpool.kept other (List.mem_of_ne_of_mem hother hmem)

theorem raced_step (hn : n ≤ 127) {pool next : Pool n Searcher (Found n)} {g : Fin n}
    (hpool : Raced pool) (hnext : pool.step (search pass loopCount) g = some next) :
    Raced next := by
  have ⟨searcher, shared, hstep, heq⟩ := Pool.step_eq_some_iff.mp hnext
  subst heq
  have hown : g ∈ pool.shared.writers → Kept (pool.threads g) := hpool.kept g
  have hfound := fun hmem : g ∈ pool.shared.writers =>
    hpool.found_ne_zero hn (List.ne_nil_of_mem hmem)
  generalize pool.threads g = before at hstep hown
  cases searchSteps_of_search hstep with
  | hit hi hprobe => exact hpool.hit hprobe
  | miss hi hprobe => exact hpool.quiet fun hmem => absurd (hown hmem) id
  | exhaust hi => exact hpool.quiet fun hmem => absurd (hown hmem) id
  | leave hset => exact hpool.quiet hown
  | again hzero => exact hpool.quiet fun hmem => absurd hzero (hfound hmem)

theorem raced_of_launch (hn : n ≤ 127) {groups : Fin n → Group}
    {final : Pool n Searcher (Found n)} (hlaunch : Launch pass loopCount groups final) :
    Raced final := by
  have ⟨schedule, hrun⟩ := hlaunch.1
  refine Machine.run_invariant Raced (fun _ _ _ hpool hnext => raced_step hn hpool hnext) ?_ hrun
  exact ⟨rfl, by simp [enqueue]⟩

/-- Whatever a pass computes, up to 127 groups are told apart. -/
theorem readsWinner_of_le (hn : n ≤ 127) {lSize : Nat} (hpos : 0 < lSize) (hdvd : lSize ∣ 729)
    (tritHash : Vector Int8 243) {groups : Fin n → Group} {final : Pool n Searcher (Found n)}
    (hlaunch : Launch pass loopCount groups final) (hwriters : final.shared.writers ≠ []) :
    ReadsWinner lSize tritHash final := by
  have hraced := raced_of_launch hn hlaunch
  have ⟨g, rest, hlist⟩ := List.exists_cons_of_ne_nil hwriters
  have hfound : final.shared.found = Int8.ofNat (g.val + 1) := by
    rw [hraced.found_eq, hlist]
    rfl
  have hg : g.val < 127 := by omega
  have hname : (g.val : Int) = final.shared.found.toInt - 1 := by
    rw [hfound, toInt_name hg]
    omega
  have hmem : g ∈ final.shared.writers := hlist ▸ List.mem_cons_self
  have hprobe : (final.threads g).group.nonceProbe ≠ 0 := by
    have ⟨group, hdone⟩ := hlaunch.2 g
    have hkept := hraced.kept g hmem
    rw [hdone] at hkept ⊢
    exact hkept
  refine ⟨hraced.found_ne_zero hn hwriters, g, hmem, hname, _, if_pos (hfound ▸ name_pos hg), ?_⟩
  intro j hj
  exact getElem_finalizeAll hpos hdvd hname hprobe tritHash hj

end winner

section loser

variable {n : Nat} {pass : Group → Group} {groups : Fin n → Group}

structure AllHit (pass : Group → Group) (groups : Fin n → Group) (order : List (Fin n))
    (pool : Pool n Searcher (Found n)) : Prop where
  hit : ∀ g ∈ order, pool.threads g = .read (pass (groups g)) 0
  waiting : ∀ g ∉ order, pool.threads g = .test (groups g) 0
  writers_eq : pool.shared.writers = order.reverse
  found_eq : pool.shared.found = order.getLast?.elim 0 fun g => Int8.ofNat (g.val + 1)

theorem exists_run_allHit (hhit : ∀ g, (pass (groups g)).nonceProbe ≠ 0) {order : List (Fin n)}
    (hnodup : order.Nodup) : ∃ pool,
      Machine.run (Pool.step (search pass 1)) (enqueue groups) order = some pool ∧
        AllHit pass groups order pool := by
  induction order using List.reverseRecOn with
  | nil => exact ⟨_, rfl, by simp, fun _ _ => rfl, rfl, rfl⟩
  | append_singleton order g ih =>
      rw [List.nodup_append] at hnodup
      have ⟨pool, hrun, hpool⟩ := ih hnodup.1
      have hfresh : g ∉ order := fun hmem => hnodup.2.2 g hmem g (by simp) rfl
      have hstep : search pass 1 g (pool.threads g) pool.shared = some
          (.read (pass (groups g)) 0, ⟨Int8.ofNat (g.val + 1), g :: pool.shared.writers⟩) := by
        rw [hpool.waiting g hfresh]
        simp only [search, Nat.zero_lt_one, if_true]
        rw [if_pos (hhit g)]
      let next : Pool n Searcher (Found n) :=
        ⟨Function.update pool.threads g (.read (pass (groups g)) 0),
          ⟨Int8.ofNat (g.val + 1), g :: pool.shared.writers⟩⟩
      have hnext : pool.step (search pass 1) g = some next :=
        Pool.step_eq_some_iff.mpr ⟨_, _, hstep, rfl⟩
      refine ⟨next, ?_, ?_, ?_, ?_, ?_⟩
      · rw [Machine.run_append_of_eq [g] hrun, Machine.run_cons, hnext]
        rfl
      · intro other hmem
        by_cases hother : other = g
        · subst hother
          exact Function.update_self ..
        · have hin : other ∈ order := by simpa [hother] using hmem
          exact (Function.update_of_ne hother ..).trans (hpool.hit other hin)
      · intro other hmem
        have hother : other ≠ g := fun heq => hmem (by simp [heq])
        have hout : other ∉ order := fun hin => hmem (List.mem_append_left _ hin)
        exact (Function.update_of_ne hother ..).trans (hpool.waiting other hout)
      · simp [next, hpool.writers_eq]
      · simp [next]

def Settled (shared : Found n) (_ : Fin n) (searcher : Searcher) (now : Found n) : Prop :=
  now = shared ∧ ∀ group i, searcher ≠ .test group i

def unread (_ : Fin n) : Searcher → Nat
  | .read _ _ => 1
  | _ => 0

theorem Settled.leave {shared now now' : Found n} (hfound : shared.found ≠ 0) {g : Fin n}
    {searcher searcher' : Searcher} (hsettled : Settled shared g searcher now)
    (hstep : search pass 1 g searcher now = some (searcher', now')) :
    now' = now ∧ (∃ group, searcher' = .done group) ∧ unread g searcher' < unread g searcher := by
  have ⟨hnow, hnot⟩ := hsettled
  cases searchSteps_of_search hstep with
  | hit _ _ => exact absurd rfl (hnot _ _)
  | miss _ _ => exact absurd rfl (hnot _ _)
  | exhaust _ => exact absurd rfl (hnot _ _)
  | leave _ => exact ⟨rfl, ⟨_, rfl⟩, Nat.zero_lt_one⟩
  | again hzero => exact absurd (hnow ▸ hzero) hfound

theorem keeps_settled (pass : Group → Group) {shared : Found n} (hfound : shared.found ≠ 0) :
    Pool.Keeps (search pass 1) (Settled shared) := by
  intro g searcher now searcher' now' hsettled hstep
  have ⟨hnow, ⟨group, hdone⟩, _⟩ := hsettled.leave hfound hstep
  subst hnow hdone
  exact ⟨⟨hsettled.1, by simp⟩, fun _ _ _ hother => hother⟩

theorem isSome_search_of_settled {shared now : Found n} (hfound : shared.found ≠ 0) {g : Fin n}
    {searcher : Searcher} (hsettled : Settled shared g searcher now)
    (hunfinished : ¬∃ group, searcher = .done group) :
    (search pass 1 g searcher now).isSome = true := by
  cases searcher with
  | test group i => exact absurd rfl (hsettled.2 group i)
  | read group i =>
      have hne : now.found ≠ 0 := hsettled.1 ▸ hfound
      simp [search, hne]
  | done group => exact absurd ⟨group, rfl⟩ hunfinished

theorem exists_run_done (pass : Group → Group) {pool : Pool n Searcher (Found n)}
    (hfound : pool.shared.found ≠ 0) (hread : ∀ g, ∃ group i, pool.threads g = .read group i) :
    ∃ schedule final, Machine.run (Pool.step (search pass 1)) pool schedule = some final ∧
      (∀ g, ∃ group, final.threads g = .done group) ∧ final.shared = pool.shared := by
  have hstart : ∀ g, Settled pool.shared g (pool.threads g) pool.shared := by
    intro g
    have ⟨group, i, heq⟩ := hread g
    exact ⟨rfl, by simp [heq]⟩
  have ⟨schedule, final, hrun, hdone⟩ := Pool.exists_finished_run
    (keeps_settled pass hfound) unread
    (fun _ _ _ _ _ hsettled hstep => (hsettled.leave hfound hstep).2.2)
    (fun _ searcher => ∃ group, searcher = .done group)
    (fun _ _ _ hsettled => isSome_search_of_settled hfound hsettled) pool hstart
  have hshared := Machine.run_invariant (fun next : Pool n Searcher (Found n) =>
    (∀ g, Settled pool.shared g (next.threads g) next.shared) ∧ next.shared = pool.shared)
    (by
      intro state g next hstate hnext
      have hsettled := Pool.step_invariant (keeps_settled pass hfound) hstate.1 hnext
      exact ⟨hsettled, (hsettled g).1⟩) ⟨hstart, rfl⟩ hrun
  exact ⟨schedule, final, hrun, hdone, hshared.2⟩

/-- A launch in which group 127 hits last. -/
theorem exists_launch_of_gt (hn : 128 ≤ n) (groups : Fin n → Group)
    (hhit : ∀ g, (pass (groups g)).nonceProbe ≠ 0) :
    ∃ final : Pool n Searcher (Found n), Launch pass 1 groups final ∧
      final.shared.writers ≠ [] ∧ final.shared.found = -128 := by
  let last : Fin n := ⟨127, by omega⟩
  let order := (List.finRange n).filter (· ≠ last) ++ [last]
  have hnodup : order.Nodup := by
    rw [List.nodup_append]
    exact ⟨(List.nodup_finRange n).filter _, by simp, by simp⟩
  have hall : ∀ g, g ∈ order := by
    intro g
    by_cases hg : g = last
    · simp [order, hg]
    · simp [order, hg]
  have ⟨pool, hrun, hpool⟩ := exists_run_allHit hhit hnodup
  have hfound : pool.shared.found = -128 := by
    rw [hpool.found_eq]
    simp [order, last]
  have hne : pool.shared.found ≠ 0 := by
    rw [hfound]
    decide
  have ⟨schedule, final, hrest, hdone, hshared⟩ :=
    exists_run_done pass hne fun g => ⟨_, _, hpool.hit g (hall g)⟩
  refine ⟨final, ⟨⟨order ++ schedule, ?_⟩, hdone⟩, ?_, hshared ▸ hfound⟩
  · rw [Machine.run_append_of_eq schedule hrun]
    exact hrest
  · rw [hshared, hpool.writers_eq]
    simp [order]

theorem not_readsWinner {lSize : Nat} {tritHash : Vector Int8 243}
    {final : Pool n Searcher (Found n)} (hfound : final.shared.found = -128) :
    ¬ReadsWinner lSize tritHash final := by
  intro ⟨_, g, _, hname, _⟩
  rw [hfound] at hname
  have hneg : (-128 : Int8).toInt = -128 := by decide
  omega

end loser

theorem nonceProbe_searchPass_zero (lSize : Nat) (group : Group) :
    (searchPass lSize 0 group).nonceProbe ≠ 0 := by
  intro hzero
  have hprobe : (searchPass lSize 0 group).nonceProbe = highBits := rfl
  rw [hprobe] at hzero
  revert hzero
  decide

theorem not_alwaysReads_of_gt {n : Nat} (hn : 128 ≤ n) : ¬AlwaysReads n := by
  intro hall
  let own (_ : Fin n) : Group := ⟨zeroLanes 0, zeroLanes 0, 0⟩
  have ⟨final, hlaunch, hwriters, hfound⟩ := exists_launch_of_gt hn
    (initGroups (Vector.replicate 729 0) (localWorkSize 729) own)
    fun g => nonceProbe_searchPass_zero (localWorkSize 729) _
  exact not_readsWinner hfound (hall 729 0 1 (Vector.replicate 729 0) own _ final
    (Vector.replicate 243 0) (by decide) (by decide) .first hlaunch hwriters)

/-- The host reads the nonce of a group that hit exactly up to 127 groups. -/
theorem alwaysReads_iff (n : Nat) : AlwaysReads n ↔ n ≤ 127 := by
  constructor
  · intro hall
    by_contra hn
    exact not_alwaysReads_of_gt (by omega) hall
  · intro hn numWorkGroup m loopCount state own groups final tritHash hgroup _ _ hlaunch hwriters
    have ⟨hpos, hdvd⟩ := localWorkSize_dvd (show 0 < numWorkGroup by omega)
    exact readsWinner_of_le hn hpos hdvd tritHash hlaunch hwriters

/-- A device with 128 compute units. -/
theorem not_alwaysReads : ¬∀ n, 1 ≤ n → AlwaysReads n := fun hall =>
  not_alwaysReads_of_gt (le_refl 128) (hall 128 (by decide))

end Dcurl.PowKernel
