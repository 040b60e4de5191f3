import Mathlib.Data.Fintype.Card
import Mathlib.Data.Fintype.EquivFin
import Dcurl.Library.Ring

/-! `impl_list` and `remote_impl_list` as the pointers of their nodes. The nodes
are static, and only `list_add` and `list_del` write to them. -/
namespace Dcurl

open Library

inductive Node (ι : Type) where
  | head
  | entry (impl : ι)
  deriving DecidableEq

structure ContextList (ι : Type) where
  links : Ring.Links (Node ι)
  /-- `initialize` has allocated what `destroy` frees. -/
  live : ι → Bool

namespace ContextList

variable {ι : Type} [DecidableEq ι]

omit [DecidableEq ι] in
/-- `LIST_HEAD`, and nodes that are zero. -/
def pointers : Node ι → Option (Node ι)
  | .head => some .head
  | .entry _ => none

omit [DecidableEq ι] in
def empty : ContextList ι := ⟨⟨pointers, pointers⟩, fun _ => false⟩

def register (starts : Bool) (impl : ι) (list : ContextList ι) : Option (ContextList ι) :=
  if starts then
    (Ring.listAdd (.entry impl) .head list.links).map fun links =>
      ⟨links, Function.update list.live impl true⟩
  else some list

/-- The loop of `dcurl_destroy` from a node on, and what it destroys. To destroy
what is not allocated is undefined, so the contexts bound the steps. -/
def destroyFrom : Nat → Node ι → ContextList ι → Option (List ι × ContextList ι)
  | _, .head, list => some ([], list)
  | 0, .entry _, _ => none
  | fuel + 1, .entry impl, list =>
      if list.live impl then
        (Ring.listDel (.entry impl) list.links).bind fun links =>
          (links.next (.entry impl)).bind fun p =>
            (destroyFrom fuel p ⟨links, Function.update list.live impl false⟩).map
              fun (impls, list) => (impl :: impls, list)
      else none

def destroyAll [Fintype ι] (list : ContextList ι) : Option (List ι × ContextList ι) :=
  (list.links.next .head).bind fun p => destroyFrom (Fintype.card ι) p list

def registerAll (starts : ι → Bool) (impls : List ι) (list : ContextList ι) :
    Option (ContextList ι) :=
  impls.foldlM (fun list impl => list.register (starts impl) impl) list

/-- The nodes of the list are the contexts that are initialized and not destroyed,
each once, and `list_for_each` goes through them and ends. -/
def WellFormed (list : ContextList ι) : Prop :=
  ∃ impls : List ι, Ring.IsRing list.links .head (impls.map .entry) ∧
    (∀ impl, impl ∈ impls ↔ list.live impl = true) ∧
    ∃ fuel, Ring.scan list.links .head fuel = some (impls.map .entry)

def Lost (list : ContextList ι) : Prop := Ring.Lost list.links .head

def Comes (list : ContextList ι) (avoid : ι → Bool) (impl : ι) : Prop :=
  Ring.Comes list.links .head (fun node => ∃ i, avoid i = true ∧ node = .entry i) (.entry impl)

variable {list list' : ContextList ι} {impl : ι} {impls : List ι} {starts : ι → Bool}

theorem WellFormed.of_isRing (impls : List ι)
    (hring : Ring.IsRing list.links .head (impls.map .entry))
    (hlive : ∀ impl, impl ∈ impls ↔ list.live impl = true) : list.WellFormed :=
  ⟨impls, hring, hlive, _, hring.scan (le_refl _)⟩

theorem WellFormed.of_empty (hring : Ring.IsRing list.links .head [])
    (hlive : ∀ impl, list.live impl = false) : list.WellFormed := by
  apply WellFormed.of_isRing [] hring
  intro impl
  simp [hlive]

omit [DecidableEq ι] in
theorem empty_isRing : Ring.IsRing (empty : ContextList ι).links .head [] :=
  ⟨List.nodup_singleton _, rfl, rfl⟩

theorem empty_wellFormed : (empty : ContextList ι).WellFormed :=
  WellFormed.of_empty empty_isRing fun _ => rfl

omit [DecidableEq ι] in
theorem entry_ne_head (impl : ι) : Node.entry impl ≠ .head := by
  intro heq
  cases heq

theorem not_lost (h : list.WellFormed) : ¬list.Lost := by
  intro hlost
  have ⟨_, hring, _⟩ := h
  exact hlost.not_isRing hring

section registration

@[simp] theorem register_false : list.register false impl = some list := rfl

theorem register_wellFormed (h : list.WellFormed) (hnew : list.live impl = false) :
    ∃ list', list.register true impl = some list' ∧ list'.WellFormed ∧
      list'.live = Function.update list.live impl true := by
  have ⟨impls, hring, hlive, _⟩ := h
  have hmem : Node.entry impl ∉ impls.map Node.entry := by
    intro hmem
    have ⟨other, hother, heq⟩ := List.mem_map.mp hmem
    cases heq
    rw [(hlive impl).mp hother] at hnew
    cases hnew
  have ⟨links, hadd, hring'⟩ := hring.listAdd (entry_ne_head _) hmem
  unfold register
  rw [if_pos rfl, hadd, Option.map_some]
  refine ⟨_, rfl, WellFormed.of_isRing (impl :: impls) hring' ?_, rfl⟩
  intro other
  by_cases heq : other = impl
  · subst heq
    simp
  · rw [List.mem_cons, hlive]
    change _ ↔ Function.update list.live impl true other = true
    rw [Function.update_of_ne heq]
    exact or_iff_right heq

theorem register_lost (impl : ι) (h : list.Lost) :
    ∃ list', list.register true impl = some list' ∧ list'.Lost := by
  have ⟨links, hadd, hlost⟩ := Ring.Lost.listAdd h (entry_ne_head impl)
  unfold register
  rw [if_pos rfl, hadd, Option.map_some]
  exact ⟨_, rfl, hlost⟩

theorem register_live (h : list.WellFormed) (hlive : list.live impl = true) :
    ∃ list', list.register true impl = some list' ∧ list'.Lost := by
  have ⟨impls, hring, hmem, _⟩ := h
  have ⟨links, hadd, hlost⟩ :=
    hring.lost_listAdd (List.mem_map_of_mem (f := Node.entry) ((hmem impl).mpr hlive))
  unfold register
  rw [if_pos rfl, hadd, Option.map_some]
  exact ⟨_, rfl, hlost⟩

theorem registerAll_cons (first : ι) :
    list.registerAll starts (first :: impls) =
      (list.register (starts first) first).bind fun list => list.registerAll starts impls := rfl

theorem registerAll_lost (starts : ι → Bool) (impls : List ι) (h : list.Lost) :
    ∃ list', list.registerAll starts impls = some list' ∧ list'.Lost := by
  induction impls generalizing list with
  | nil => exact ⟨list, rfl, h⟩
  | cons first rest ih =>
      rw [registerAll_cons]
      cases starts first with
      | false => exact ih h
      | true =>
          have ⟨middle, hmiddle, hlost⟩ := register_lost first h
          rw [hmiddle]
          exact ih hlost

theorem registerAll_wellFormed (h : list.WellFormed) (hnodup : impls.Nodup)
    (hnew : ∀ impl ∈ impls, starts impl = true → list.live impl = false) :
    ∃ list', list.registerAll starts impls = some list' ∧ list'.WellFormed := by
  induction impls generalizing list with
  | nil => exact ⟨list, rfl, h⟩
  | cons first rest ih =>
      have ⟨hfirst, hrest⟩ := List.nodup_cons.mp hnodup
      rw [registerAll_cons]
      cases hstarts : starts first with
      | false =>
          exact ih h hrest fun impl hmem => hnew impl (List.mem_cons_of_mem _ hmem)
      | true =>
          have ⟨middle, hmiddle, hwell, hlive⟩ :=
            register_wellFormed h (hnew first List.mem_cons_self hstarts)
          rw [hmiddle]
          apply ih hwell hrest
          intro impl hmem himpl
          have hne : impl ≠ first := by
            intro heq
            exact hfirst (heq ▸ hmem)
          rw [hlive, Function.update_of_ne hne]
          exact hnew impl (List.mem_cons_of_mem _ hmem) himpl

theorem isRing_registerAll {old : List ι}
    (hring : Ring.IsRing list.links .head (old.map .entry)) (hnodup : impls.Nodup)
    (hnew : ∀ impl ∈ impls, starts impl = true → impl ∉ old) :
    ∃ list', list.registerAll starts impls = some list' ∧
      Ring.IsRing list'.links .head (((impls.filter starts).reverse ++ old).map .entry) := by
  induction impls generalizing list old with
  | nil => exact ⟨list, rfl, hring⟩
  | cons first rest ih =>
      have ⟨hfirst, hrest⟩ := List.nodup_cons.mp hnodup
      rw [registerAll_cons]
      cases hstarts : starts first with
      | false =>
          rw [List.filter_cons_of_neg (by rw [hstarts]; exact Bool.false_ne_true)]
          exact ih hring hrest fun impl hmem => hnew impl (List.mem_cons_of_mem _ hmem)
      | true =>
          have hmem : Node.entry first ∉ old.map Node.entry := by
            intro hmem
            have ⟨other, hother, heq⟩ := List.mem_map.mp hmem
            cases heq
            exact hnew first List.mem_cons_self hstarts hother
          have ⟨links, hadd, hring'⟩ := hring.listAdd (entry_ne_head _) hmem
          rw [List.filter_cons_of_pos hstarts, List.reverse_cons, List.append_assoc]
          unfold register
          rw [if_pos rfl, hadd, Option.map_some, Option.bind_some]
          have hfront : Ring.IsRing (⟨links, Function.update list.live first true⟩ :
              ContextList ι).links .head ((first :: old).map .entry) := hring'
          apply ih hfront hrest
          intro impl himpl hstarts' hold
          cases List.mem_cons.mp hold with
          | inl heq => exact hfirst (heq ▸ himpl)
          | inr hold => exact hnew impl (List.mem_cons_of_mem _ himpl) hstarts' hold

/-- A context that is registered a second time makes a loop of the list. -/
theorem registerAll_live (starts : ι → Bool) (h : list.WellFormed) (hnodup : impls.Nodup)
    (hlive : ∃ impl ∈ impls, starts impl = true ∧ list.live impl = true) :
    ∃ list', list.registerAll starts impls = some list' ∧ list'.Lost := by
  induction impls generalizing list with
  | nil =>
      have ⟨_, hmem, _⟩ := hlive
      cases hmem
  | cons first rest ih =>
      have ⟨hfirst, hrest⟩ := List.nodup_cons.mp hnodup
      have ⟨impl, hmem, himpl, hold⟩ := hlive
      rw [registerAll_cons]
      cases hstarts : starts first with
      | false =>
          apply ih h hrest
          refine ⟨impl, (List.mem_cons.mp hmem).resolve_left ?_, himpl, hold⟩
          intro heq
          rw [heq, hstarts] at himpl
          cases himpl
      | true =>
          cases hbefore : list.live first with
          | true =>
              have ⟨middle, hmiddle, hlost⟩ := register_live h hbefore
              rw [hmiddle]
              exact registerAll_lost starts rest hlost
          | false =>
              have ⟨middle, hmiddle, hwell, hupdate⟩ := register_wellFormed h hbefore
              have hne : impl ≠ first := by
                intro heq
                rw [heq, hbefore] at hold
                cases hold
              rw [hmiddle]
              apply ih hwell hrest
              refine ⟨impl, (List.mem_cons.mp hmem).resolve_left hne, himpl, ?_⟩
              rw [hupdate, Function.update_of_ne hne]
              exact hold

theorem registerAll_kept (starts : ι → Bool) (h : list.WellFormed ∨ list.Lost)
    (hnodup : impls.Nodup) :
    ∃ list', list.registerAll starts impls = some list' ∧ (list'.WellFormed ∨ list'.Lost) := by
  cases h with
  | inr hlost =>
      have ⟨list', hlist, hlost'⟩ := registerAll_lost starts impls hlost
      exact ⟨list', hlist, Or.inr hlost'⟩
  | inl hwell =>
      by_cases hlive : ∃ impl ∈ impls, starts impl = true ∧ list.live impl = true
      · have ⟨list', hlist, hlost⟩ := registerAll_live starts hwell hnodup hlive
        exact ⟨list', hlist, Or.inr hlost⟩
      · have hnew : ∀ impl ∈ impls, starts impl = true → list.live impl = false := by
          intro impl hmem hstarts
          rw [← Bool.not_eq_true]
          exact fun hold => hlive ⟨impl, hmem, hstarts, hold⟩
        have ⟨list', hlist, hwell'⟩ := registerAll_wellFormed hwell hnodup hnew
        exact ⟨list', hlist, Or.inl hwell'⟩

end registration

section destruction

theorem destroyFrom_isRing {fuel : Nat} {p : Node ι}
    (hring : Ring.IsRing list.links .head (impls.map .entry))
    (hlive : ∀ impl, impl ∈ impls ↔ list.live impl = true)
    (hp : list.links.next .head = some p) (hfuel : impls.length ≤ fuel) :
    ∃ list', destroyFrom fuel p list = some (impls, list') ∧
      Ring.IsRing list'.links .head [] ∧ ∀ impl, list'.live impl = false := by
  induction impls generalizing list fuel p with
  | nil =>
      have hhead : p = .head := by
        rw [hring.2.next] at hp
        exact (Option.some.inj hp).symm
      have hnone : ∀ impl, list.live impl = false := by
        intro impl
        rw [← Bool.not_eq_true, ← hlive]
        exact List.not_mem_nil
      subst hhead
      cases fuel <;> exact ⟨list, rfl, hring, hnone⟩
  | cons impl rest ih =>
      have hentry : p = .entry impl := by
        rw [hring.2.next] at hp
        exact (Option.some.inj hp).symm
      have himpl : list.live impl = true := (hlive impl).mp List.mem_cons_self
      have hnotin : impl ∉ rest := by
        intro hmem
        exact (List.nodup_cons.mp (List.nodup_cons.mp hring.1).2).1 (List.mem_map_of_mem hmem)
      have ⟨links, hdel, hrest, hnext⟩ := hring.listDel
      cases fuel with
      | zero => cases hfuel
      | succ fuel =>
          have hlive' : ∀ other, other ∈ rest ↔
              Function.update list.live impl false other = true := by
            intro other
            by_cases heq : other = impl
            · subst heq
              simp [hnotin]
            · rw [Function.update_of_ne heq, ← hlive, List.mem_cons]
              exact (or_iff_right heq).symm
          have hfirst := hrest.2.next
          have hrest' : Ring.IsRing (⟨links, Function.update list.live impl false⟩ :
              ContextList ι).links .head (rest.map .entry) := hrest
          have ⟨list', hloop, hempty, hnone⟩ := ih hrest' hlive' hfirst
            (Nat.le_of_succ_le_succ hfuel)
          refine ⟨list', ?_, hempty, hnone⟩
          rw [hentry, destroyFrom, if_pos himpl, hdel, Option.bind_some, hnext, hfirst,
            Option.bind_some, hloop, Option.map_some]

/-- In a loop without the head the loop of `dcurl_destroy` never ends. -/
theorem destroyFrom_lost {loop : Set (Node ι)} {fuel : Nat} {p : Node ι} (hhead : .head ∉ loop)
    (hp : p ∈ loop) (hclosed : ∀ node ∈ loop, ∃ q ∈ loop, list.links.next node = some q) :
    destroyFrom fuel p list = none := by
  induction fuel generalizing list p with
  | zero =>
      cases p with
      | head => exact absurd hp hhead
      | entry impl => rfl
  | succ fuel ih =>
      cases p with
      | head => exact absurd hp hhead
      | entry impl =>
          unfold destroyFrom
          split
          · cases hdel : Ring.listDel (.entry impl) list.links with
            | none => rfl
            | some links =>
                have hclosed' := Ring.closed_listDel hclosed hp hdel
                have ⟨q, hq, hnext⟩ := hclosed' _ hp
                rw [Option.bind_some, hnext, Option.bind_some, ih hq hclosed', Option.map_none]
          · rfl

variable [Fintype ι]

theorem destroyAll_wellFormed (h : list.WellFormed) :
    ∃ impls list', list.destroyAll = some (impls, list') ∧ impls.Nodup ∧
      (∀ impl, impl ∈ impls ↔ list.live impl = true) ∧
      Ring.IsRing list'.links .head [] ∧ ∀ impl, list'.live impl = false := by
  have ⟨impls, hring, hlive, _⟩ := h
  have hnodup : impls.Nodup := List.Nodup.of_map _ (List.nodup_cons.mp hring.1).2
  have hnext := hring.2.next
  have ⟨list', hloop, hempty, hnone⟩ := destroyFrom_isRing hring hlive hnext hnodup.length_le_card
  refine ⟨impls, list', ?_, hnodup, hlive, hempty, hnone⟩
  unfold destroyAll
  rw [hnext, Option.bind_some, hloop]

theorem destroyAll_lost (h : list.Lost) : list.destroyAll = none := by
  have ⟨loop, hhead, ⟨p, hp, hnext⟩, hclosed⟩ := h
  unfold destroyAll
  rw [hnext, Option.bind_some, destroyFrom_lost hhead hp hclosed]

theorem destroyAll_kept (h : list.WellFormed ∨ list.Lost)
    (hdestroy : list.destroyAll = some (impls, list')) :
    Ring.IsRing list'.links .head [] ∧ ∀ impl, list'.live impl = false := by
  cases h with
  | inl hwell =>
      have ⟨_, _, hall, _, _, hempty⟩ := destroyAll_wellFormed hwell
      rw [hdestroy] at hall
      cases hall
      exact hempty
  | inr hlost =>
      rw [destroyAll_lost hlost] at hdestroy
      cases hdestroy

end destruction

section scans

theorem comes_register {avoid : ι → Bool} {other : ι}
    (hregister : list.register true impl = some list') :
    list'.Comes avoid other ↔ avoid impl = false ∧
      (other = impl ∨ list.Comes (fun i => avoid i || decide (i = impl)) other) := by
  unfold register at hregister
  rw [if_pos rfl] at hregister
  have ⟨links, hadd, hlist⟩ := Option.map_eq_some_iff.mp hregister
  unfold Comes
  rw [← hlist, Ring.comes_listAdd_iff (entry_ne_head impl) hadd]
  have havoid : (¬∃ i, avoid i = true ∧ Node.entry impl = Node.entry i) ↔
      avoid impl = false := by
    rw [← Bool.not_eq_true]
    simp
  have hnodes : (fun node : Node ι => (∃ i, avoid i = true ∧ node = .entry i) ∨
      node = .entry impl) =
      fun node => ∃ i, (avoid i || decide (i = impl)) = true ∧ node = .entry i := by
    funext node
    apply propext
    constructor
    · rintro (⟨i, hi, rfl⟩ | rfl)
      · exact ⟨i, by simp [hi], rfl⟩
      · exact ⟨impl, by simp, rfl⟩
    · rintro ⟨i, hi, rfl⟩
      rw [Bool.or_eq_true, decide_eq_true_eq] at hi
      cases hi with
      | inl hi => exact Or.inl ⟨i, hi, rfl⟩
      | inr heq => exact Or.inr (heq ▸ rfl)
  rw [havoid, hnodes, Node.entry.injEq]

/-- What a scan comes to after the registrations: what they added, and what a scan
came to before, up to the first node that was added again. -/
theorem comes_registerAll {other : ι} (hnodup : impls.Nodup)
    (hregister : list.registerAll starts impls = some list') :
    list'.Comes (fun _ => false) other ↔
      (other ∈ impls ∧ starts other = true) ∨
        list.Comes (fun i => decide (i ∈ impls) && starts i) other := by
  induction impls generalizing list with
  | nil =>
      cases hregister
      simp
  | cons first rest ih =>
      have ⟨hfirst, hrest⟩ := List.nodup_cons.mp hnodup
      rw [registerAll_cons] at hregister
      have ⟨middle, hmiddle, hlist⟩ := Option.bind_eq_some_iff.mp hregister
      rw [ih hrest hlist]
      cases hstarts : starts first with
      | false =>
          have hmem : ∀ i, i ∈ first :: rest ∧ starts i = true ↔ i ∈ rest ∧ starts i = true := by
            intro i
            by_cases heq : i = first
            · rw [heq, hstarts]
              simp
            · simp [heq]
          have hsame : (fun i => decide (i ∈ first :: rest) && starts i) =
              fun i => decide (i ∈ rest) && starts i := by
            funext i
            rw [Bool.eq_iff_iff]
            simpa using hmem i
          rw [hstarts, register_false] at hmiddle
          cases hmiddle
          rw [hmem, hsame]
      | true =>
          have hsame : (fun i => decide (i ∈ rest) && starts i || decide (i = first)) =
              fun i => decide (i ∈ first :: rest) && starts i := by
            funext i
            by_cases heq : i = first
            · rw [heq, hstarts]
              simp
            · simp [heq]
          rw [hstarts] at hmiddle
          rw [comes_register hmiddle, hsame]
          by_cases heq : other = first
          · rw [heq, hstarts]
            simp [hfirst]
          · simp [heq, hfirst]

end scans

end ContextList

end Dcurl
