import Mathlib.Data.List.Nodup
import Mathlib.Data.Set.Insert
import Mathlib.Logic.Function.Basic

/-! Circular doubly linked lists with a head, as nodes that point to each other.
`none` stands for a pointer that was never written. -/
namespace Dcurl.Library.Ring

structure Links (N : Type*) where
  next : N → Option N
  prev : N → Option N

variable {N : Type*} [DecidableEq N]

def Links.link (links : Links N) (a b : N) : Links N where
  next := Function.update links.next a (some b)
  prev := Function.update links.prev b (some a)

def listAdd (node head : N) (links : Links N) : Option (Links N) :=
  (links.next head).map fun next => (links.link node next).link head node

/-- Make the neighbours of a node follow each other; the node keeps its pointers. -/
def listDel (node : N) (links : Links N) : Option (Links N) :=
  (links.next node).bind fun next => (links.prev node).map fun prev => links.link prev next

def scanFrom (links : Links N) (head : N) : Nat → N → Option (List N)
  | 0, p => if p = head then some [] else none
  | fuel + 1, p =>
      if p = head then some []
      else (links.next p).bind fun next => (scanFrom links head fuel next).map (p :: ·)

def scan (links : Links N) (head : N) (fuel : Nat) : Option (List N) :=
  (links.next head).bind (scanFrom links head fuel)

def Links.Linked (links : Links N) (a b : N) : Prop :=
  links.next a = some b ∧ links.prev b = some a

def IsPath (links : Links N) : N → List N → N → Prop
  | a, [], b => links.Linked a b
  | a, node :: nodes, b => links.Linked a node ∧ IsPath links node nodes b

def IsRing (links : Links N) (head : N) (nodes : List N) : Prop :=
  (head :: nodes).Nodup ∧ IsPath links head nodes head

/-- Following `next` from the head never comes back to it. -/
def Lost (links : Links N) (head : N) : Prop :=
  ∃ loop : Set N, head ∉ loop ∧ (∃ p ∈ loop, links.next head = some p) ∧
    ∀ node ∈ loop, ∃ p ∈ loop, links.next node = some p

/-- A scan from the head comes to the node before any node to avoid. -/
inductive Comes (links : Links N) (head : N) (avoid : N → Prop) : N → Prop
  | first {p : N} (hnext : links.next head = some p) (hhead : p ≠ head) (havoid : ¬avoid p) :
      Comes links head avoid p
  | step {p q : N} (hcomes : Comes links head avoid p) (hnext : links.next p = some q)
      (hhead : q ≠ head) (havoid : ¬avoid q) : Comes links head avoid q

variable {links links' : Links N} {head node a b : N} {nodes : List N} {avoid : N → Prop}

section link

@[simp] theorem link_next_self : (links.link a b).next a = some b := Function.update_self ..

theorem link_next_of_ne {x : N} (hne : x ≠ a) : (links.link a b).next x = links.next x :=
  Function.update_of_ne hne ..

theorem linked_link : (links.link a b).Linked a b :=
  ⟨Function.update_self .., Function.update_self ..⟩

theorem Links.Linked.link {x y : N} (h : links.Linked x y) (hx : x ≠ a) (hy : y ≠ b) :
    (links.link a b).Linked x y :=
  ⟨(Function.update_of_ne hx ..).trans h.1, (Function.update_of_ne hy ..).trans h.2⟩

theorem IsPath.link {x y : N} (h : IsPath links x nodes y) (hfrom : a ∉ x :: nodes)
    (hto : b ∉ nodes) (hend : y ≠ b) : IsPath (links.link a b) x nodes y := by
  induction nodes generalizing x with
  | nil => exact Links.Linked.link h (List.ne_of_not_mem_cons hfrom).symm hend
  | cons node nodes ih =>
      have hnode : node ≠ b := (List.ne_of_not_mem_cons hto).symm
      refine ⟨h.1.link (List.ne_of_not_mem_cons hfrom).symm hnode, ?_⟩
      exact ih h.2 (List.not_mem_of_not_mem_cons hfrom) (List.not_mem_of_not_mem_cons hto)

omit [DecidableEq N] in
theorem IsPath.next {x y : N} (h : IsPath links x nodes y) :
    links.next x = some (nodes.headD y) := by
  cases nodes with
  | nil => exact h.1
  | cons node nodes => exact h.1.1

end link

namespace IsRing

omit [DecidableEq N] in
theorem head_ne (h : IsRing links head nodes) {x : N} (hx : x ∈ nodes) : x ≠ head := by
  intro heq
  exact (List.nodup_cons.mp h.1).1 (heq ▸ hx)

theorem listAdd (h : IsRing links head nodes) (hnode : node ≠ head) (hnew : node ∉ nodes) :
    ∃ links', Ring.listAdd node head links = some links' ∧ IsRing links' head (node :: nodes) := by
  have ⟨hhead, hnodes⟩ := List.nodup_cons.mp h.1
  have hnodup : (head :: node :: nodes).Nodup := by
    refine List.nodup_cons.mpr ⟨?_, List.nodup_cons.mpr ⟨hnew, hnodes⟩⟩
    intro hmem
    cases List.mem_cons.mp hmem with
    | inl heq => exact hnode heq.symm
    | inr hmem => exact hhead hmem
  unfold Ring.listAdd
  rw [h.2.next, Option.map_some]
  refine ⟨_, rfl, hnodup, linked_link, ?_⟩
  cases nodes with
  | nil => exact linked_link.link hnode hnode.symm
  | cons first rest =>
      have hfirst : first ≠ head := h.head_ne List.mem_cons_self
      refine ⟨linked_link.link hnode (List.ne_of_not_mem_cons hnew).symm, ?_⟩
      have hpath : IsPath (links.link node first) first rest head :=
        h.2.2.link hnew (List.nodup_cons.mp hnodes).1 hfirst.symm
      exact hpath.link hhead (List.not_mem_of_not_mem_cons hnew) hnode.symm

theorem listDel (h : IsRing links head (node :: nodes)) :
    ∃ links', Ring.listDel node links = some links' ∧ IsRing links' head nodes ∧
      links'.next node = links'.next head := by
  have ⟨hhead, hnodes⟩ := List.nodup_cons.mp h.1
  have hne : node ≠ head := h.head_ne List.mem_cons_self
  have hrest : (head :: nodes).Nodup :=
    List.nodup_cons.mpr ⟨List.not_mem_of_not_mem_cons hhead, (List.nodup_cons.mp hnodes).2⟩
  unfold Ring.listDel
  rw [h.2.2.next, h.2.1.2, Option.bind_some, Option.map_some]
  refine ⟨_, rfl, ⟨hrest, ?_⟩, ?_⟩
  · cases nodes with
    | nil => exact linked_link
    | cons first rest =>
        have hfirst : first ≠ head := h.head_ne (List.mem_cons_of_mem _ List.mem_cons_self)
        refine ⟨linked_link, h.2.2.2.link (List.not_mem_of_not_mem_cons hhead) ?_ hfirst.symm⟩
        exact (List.nodup_cons.mp (List.nodup_cons.mp hnodes).2).1
  · rw [link_next_of_ne hne, link_next_self]
    exact h.2.2.next

theorem scan (h : IsRing links head nodes) {fuel : Nat} (hfuel : nodes.length ≤ fuel) :
    Ring.scan links head fuel = some nodes := by
  have hfrom : ∀ x fuel, IsPath links x nodes head → nodes.length ≤ fuel →
      (links.next x).bind (scanFrom links head fuel) = some nodes := by
    have hhead := (List.nodup_cons.mp h.1).1
    clear h hfuel
    induction nodes with
    | nil =>
        intro x fuel hpath _
        rw [hpath.next, Option.bind_some]
        cases fuel <;> exact if_pos rfl
    | cons node nodes ih =>
        intro x fuel hpath hfuel
        cases fuel with
        | zero => cases hfuel
        | succ fuel =>
            have hrest := ih (List.not_mem_of_not_mem_cons hhead) node fuel hpath.2
              (Nat.le_of_succ_le_succ hfuel)
            rw [hpath.next, Option.bind_some, List.headD_cons, scanFrom,
              if_neg (List.ne_of_not_mem_cons hhead).symm]
            rw [hpath.2.next, Option.bind_some] at hrest ⊢
            rw [hrest, Option.map_some]
  exact hfrom head fuel h.2 hfuel

end IsRing

namespace Lost

omit [DecidableEq N] in
theorem not_isRing (h : Lost links head) : ¬IsRing links head nodes := by
  intro hring
  have ⟨loop, hhead, ⟨first, hfirst, hnext⟩, hclosed⟩ := h
  have hinside : ∀ x, (∃ p ∈ loop, links.next x = some p) → ¬IsPath links x nodes head := by
    clear hring
    induction nodes with
    | nil =>
        intro x ⟨p, hp, hx⟩ hpath
        rw [hpath.next] at hx
        cases hx
        exact hhead hp
    | cons node nodes ih =>
        intro x ⟨p, hp, hx⟩ hpath
        rw [hpath.next] at hx
        cases hx
        exact ih node (hclosed node hp) hpath.2
  exact hinside head ⟨first, hfirst, hnext⟩ hring.2

theorem listAdd (h : Lost links head) (hnode : node ≠ head) :
    ∃ links', Ring.listAdd node head links = some links' ∧ Lost links' head := by
  have ⟨loop, hhead, ⟨first, hfirst, hnext⟩, hclosed⟩ := h
  unfold Ring.listAdd
  rw [hnext, Option.map_some]
  refine ⟨_, rfl, insert node loop, ?_, ⟨node, Set.mem_insert .., link_next_self⟩, ?_⟩
  · intro hmem
    cases hmem with
    | inl heq => exact hnode heq.symm
    | inr hmem => exact hhead hmem
  · intro x hx
    have hxhead : x ≠ head := by
      rintro rfl
      cases hx with
      | inl heq => exact hnode heq.symm
      | inr hmem => exact hhead hmem
    rw [link_next_of_ne hxhead]
    by_cases hxnode : x = node
    · rw [hxnode, link_next_self]
      exact ⟨first, Set.mem_insert_of_mem _ hfirst, rfl⟩
    · have ⟨p, hp, hpnext⟩ := hclosed x (hx.resolve_left hxnode)
      rw [link_next_of_ne hxnode]
      exact ⟨p, Set.mem_insert_of_mem _ hp, hpnext⟩

end Lost

theorem closed_listDel {loop : Set N}
    (hclosed : ∀ x ∈ loop, ∃ p ∈ loop, links.next x = some p) (hnode : node ∈ loop)
    (hdel : listDel node links = some links') : ∀ x ∈ loop, ∃ p ∈ loop, links'.next x = some p := by
  have ⟨next, hnext, hmap⟩ := Option.bind_eq_some_iff.mp hdel
  have ⟨prev, _, hlinks⟩ := Option.map_eq_some_iff.mp hmap
  have ⟨p, hp, hpnext⟩ := hclosed node hnode
  rw [hnext] at hpnext
  cases hpnext
  intro x hx
  rw [← hlinks]
  by_cases hxprev : x = prev
  · rw [hxprev, link_next_self]
    exact ⟨next, hp, rfl⟩
  · rw [link_next_of_ne hxprev]
    exact hclosed x hx

omit [DecidableEq N] in
theorem IsPath.exists_next {x y : N} (h : IsPath links x nodes y) :
    ∀ z ∈ x :: nodes, ∃ p ∈ nodes ++ [y], links.next z = some p := by
  induction nodes generalizing x with
  | nil =>
      intro z hz
      rw [List.mem_singleton.mp hz]
      exact ⟨y, List.mem_singleton_self y, h.1⟩
  | cons node nodes ih =>
      intro z hz
      cases List.mem_cons.mp hz with
      | inl heq => exact ⟨node, List.mem_cons_self, heq ▸ h.1.1⟩
      | inr hmem =>
          have ⟨p, hp, hnext⟩ := ih h.2 z hmem
          exact ⟨p, List.mem_cons_of_mem _ hp, hnext⟩

omit [DecidableEq N] in
theorem IsPath.left {x y : N} {before after : List N}
    (h : IsPath links x (before ++ node :: after) y) : IsPath links x before node := by
  induction before generalizing x with
  | nil => exact h.1
  | cons first before ih => exact ⟨h.1, ih h.2⟩

/-- Adding a node that is in the list already makes a loop without the head. -/
theorem IsRing.lost_listAdd (h : IsRing links head nodes) (hmem : node ∈ nodes) :
    ∃ links', Ring.listAdd node head links = some links' ∧ Lost links' head := by
  have hnode := h.head_ne hmem
  have hnodup := (List.nodup_cons.mp h.1).2
  obtain ⟨before, after, rfl⟩ := List.append_of_mem hmem
  have hpath := h.2.left
  have hnotbefore : node ∉ before := by
    intro hbefore
    exact List.disjoint_of_nodup_append hnodup hbefore List.mem_cons_self
  have hloop : ∀ x ∈ before ++ [node], x ≠ head := by
    intro x hx
    apply h.head_ne
    rw [List.mem_append, List.mem_singleton] at hx
    rw [List.mem_append, List.mem_cons]
    exact hx.imp_right Or.inl
  have hnext : links.next head = some (before.headD node) := hpath.next
  have hfirst : before.headD node ∈ before ++ [node] := by
    cases before with
    | nil => exact List.mem_singleton_self node
    | cons first before => exact List.mem_cons_self
  unfold Ring.listAdd
  rw [hnext, Option.map_some]
  refine ⟨_, rfl, {x | x ∈ before ++ [node]}, fun hx => hloop head hx rfl,
    ⟨node, List.mem_append_right _ (List.mem_singleton_self node), link_next_self⟩, ?_⟩
  intro x hx
  rw [link_next_of_ne (hloop x hx)]
  by_cases hxnode : x = node
  · rw [hxnode, link_next_self]
    exact ⟨_, hfirst, rfl⟩
  · have hxbefore : x ∈ before := (List.mem_append.mp hx).resolve_right
      fun h => hxnode (List.mem_singleton.mp h)
    rw [link_next_of_ne hxnode]
    exact hpath.exists_next x (List.mem_cons_of_mem _ hxbefore)

section comes

/-- After an addition a scan comes to the new node, then to what it came to before
up to that node. -/
theorem comes_listAdd_iff (hnode : node ≠ head) (hadd : listAdd node head links = some links')
    {x : N} : Comes links' head avoid x ↔
      ¬avoid node ∧ (x = node ∨ Comes links head (fun y => avoid y ∨ y = node) x) := by
  have ⟨first, hfirst, hlinks⟩ := Option.map_eq_some_iff.mp hadd
  have hhead : links'.next head = some node := by
    rw [← hlinks]
    exact link_next_self
  have hself : links'.next node = some first := by
    rw [← hlinks, link_next_of_ne hnode]
    exact link_next_self
  have hother : ∀ y, y ≠ head → y ≠ node → links'.next y = links.next y := by
    intro y hyhead hynode
    rw [← hlinks, link_next_of_ne hyhead, link_next_of_ne hynode]
  constructor
  · intro hcomes
    induction hcomes with
    | first hnext _ havoid =>
        rw [hhead] at hnext
        cases hnext
        exact ⟨havoid, Or.inl rfl⟩
    | @step p q hbefore hnext hqhead havoid ih =>
        refine ⟨ih.1, ?_⟩
        by_cases hqnode : q = node
        · exact Or.inl hqnode
        · have hfree : ¬(avoid q ∨ q = node) := not_or.mpr ⟨havoid, hqnode⟩
          cases ih.2 with
          | inl hp =>
              rw [hp, hself] at hnext
              cases hnext
              exact Or.inr (.first hfirst hqhead hfree)
          | inr hcomes =>
              by_cases hpnode : p = node
              · rw [hpnode, hself] at hnext
                cases hnext
                exact Or.inr (.first hfirst hqhead hfree)
              · have hphead : p ≠ head := by
                  cases hcomes with
                  | first _ hne _ => exact hne
                  | step _ _ hne _ => exact hne
                rw [hother p hphead hpnode] at hnext
                exact Or.inr (.step hcomes hnext hqhead hfree)
  · intro ⟨havoid, hx⟩
    have hnew : Comes links' head avoid node := .first hhead hnode havoid
    cases hx with
    | inl heq => exact heq ▸ hnew
    | inr hcomes =>
        induction hcomes with
        | first hnext hphead hfree =>
            rw [hfirst] at hnext
            cases hnext
            exact .step hnew hself hphead fun h => hfree (Or.inl h)
        | @step p q hbefore hnext hqhead hfree ih =>
            have hp : p ≠ head ∧ p ≠ node := by
              cases hbefore with
              | first _ hne hfree => exact ⟨hne, fun h => hfree (Or.inr h)⟩
              | step _ _ hne hfree => exact ⟨hne, fun h => hfree (Or.inr h)⟩
            rw [← hother p hp.1 hp.2] at hnext
            exact .step ih hnext hqhead fun h => hfree (Or.inl h)

omit [DecidableEq N] in
theorem not_comes_of_isRing_nil (h : IsRing links head []) {x : N} : ¬Comes links head avoid x := by
  intro hcomes
  induction hcomes with
  | first hnext hne _ =>
      rw [h.2.next] at hnext
      cases hnext
      exact hne rfl
  | step _ _ _ _ ih => exact ih

end comes

end Dcurl.Library.Ring
