import Dcurl.Curl
import Dcurl.Library.Heap

/-! `trinary.c` and `curl.c` with their calls of `malloc` and `free`. What a struct holds
is not written after it is made, but for the state of a sponge and the trits that `pow_cl`
writes; so a pointer carries what it points to. -/
namespace Dcurl.Memory

open Library

structure Object where
  self : Nat
  data : Nat
  held : TrinaryObject

def blocks : Option Object → Multiset Nat
  | none => 0
  | some t => {t.self} + {t.data}

def freeTrinaryObject : Option Object → Mem Unit
  | none => pure ()
  | some t => do
      Mem.touch (some t.self)
      Mem.give (some t.data)
      Mem.give (some t.self)

/-- `init_trits` and `init_trytes`; `read` is what the copy touches of the source. -/
def initObject (type : TrinaryType) (validate : TrinaryObject → Bool) (read : Mem Unit)
    (src : List Int8) : Mem (Option Object) := do
  let some self ← Mem.take | return none
  let some data ← Mem.take
    | do
      Mem.give (some self)
      return none
  read
  let t : Object := ⟨self, data, ⟨src, type⟩⟩
  if validate t.held then return some t
  else
    freeTrinaryObject (some t)
    return none

def initTrits (read : Mem Unit) (src : List Int8) : Mem (Option Object) :=
  initObject .trits validateTrits read src

def initTrytes (read : Mem Unit) (src : List Int8) : Mem (Option Object) :=
  initObject .trytes validateTrytes read src

/-- A loop that writes bytes to a block; without a byte it touches nothing. -/
def fill (p : Option Nat) (bytes : List Int8) : Mem Unit :=
  if bytes = [] then pure () else Mem.touch p

/-- A conversion: `src` is allocated without a test, filled, copied and given back. -/
def convert (t : Option Object) (accepts : TrinaryObject → Bool)
    (values : List Int8 → List Int8) (init : Mem Unit → List Int8 → Mem (Option Object)) :
    Mem (Option Object) := do
  let some t := t | return none
  Mem.touch (some t.self)
  Mem.touch (some t.data)
  if !accepts t.held then return none
  let src ← Mem.take
  fill src (values t.held.data)
  let converted ← init (fill src (values t.held.data)) (values t.held.data)
  Mem.give src
  return converted

def trytesFromTrits (trits : Option Object) : Mem (Option Object) :=
  convert trits (fun held => !(held.data.length % 3 ≠ 0 || !validateTrits held)) packTrits
    initTrytes

def tritsFromTrytes (trytes : Option Object) : Mem (Option Object) :=
  convert trytes validateTrytes unpackTrytes initTrits

structure Curl where
  self : Nat
  state : Option Object
  value : CurlState

def Curl.blocks (c : Curl) : Multiset Nat := {c.self} + Memory.blocks c.state

/-- What a pointer points to is read or written. -/
def touchObject : Option Object → Mem Unit
  | none => Mem.wrong
  | some t => do
      Mem.touch (some t.self)
      Mem.touch (some t.data)

/-- The trits of the state are not looked at. -/
def initCurl : Mem (Option Curl) := do
  let some self ← Mem.take | return none
  let state ← initTrits (pure ()) (List.replicate 729 0)
  return some ⟨self, state, Dcurl.initCurl⟩

def freeCurl : Option Curl → Mem Unit
  | none => pure ()
  | some c => do
      freeTrinaryObject c.state
      Mem.give (some c.self)

def fillState (c : Curl) (trits : List Int8) : Mem Unit :=
  if trits = [] then pure () else touchObject c.state

/-- Where the conversion fails, the sponge stays as it is. -/
def absorb (c : Curl) (inn : Option Object) : Mem Curl := do
  let some tr ← tritsFromTrytes inn | return c
  fillState c tr.held.data
  freeTrinaryObject (some tr)
  return { c with value := absorbTrits c.value tr.held.data }

def squeeze (c : Curl) : Mem (Option Object × Curl) := do
  touchObject c.state
  let trits ← initTrits (pure ()) (c.value.toList.take 243)
  let trytes ← trytesFromTrits trits
  touchObject c.state
  freeTrinaryObject trits
  return (trytes, { c with value := transform c.value })

def hashTrytes (t : Object) : Mem (Option Object) := do
  Mem.touch (some t.self)
  if t.held.type ≠ .trytes then return none
  let some c ← initCurl | return none
  let c ← absorb c (some t)
  let (ret, c) ← squeeze c
  freeCurl (some c)
  return ret

section objects

variable {grants : Nat → Bool} {allowed : Prop} {rest : Multiset Nat}

structure Returns (grants : Nat → Bool) (expected : Option TrinaryObject) (t : Option Object)
    (owned : Multiset Nat) : Prop where
  owned_eq : owned = blocks t
  value : t.map Object.held = expected ∨ Mem.Denied grants

theorem triple_freeTrinaryObject (t : Option Object) :
    Mem.Triple grants allowed (blocks t) (freeTrinaryObject t) fun _ owned => owned = 0 := by
  cases t with
  | none => exact .pure rfl
  | some t =>
      apply Mem.Triple.touch (by simp [blocks])
      exact .give (add_comm _ _) (Mem.triple_give (some t.self))

theorem triple_initObject {type : TrinaryType} {validate : TrinaryObject → Bool} {read : Mem Unit}
    (src : List Int8)
    (hread : Mem.Triple grants allowed rest read fun _ owned => owned = rest) :
    Mem.Triple grants allowed rest (initObject type validate read src) fun t owned =>
      ∃ own, Returns grants (if validate ⟨src, type⟩ then some ⟨src, type⟩ else none) t own ∧
        owned = own + rest := by
  apply Mem.Triple.take
  · intro hdenied
    exact .pure ⟨0, ⟨rfl, Or.inr hdenied⟩, (zero_add rest).symm⟩
  intro self
  apply Mem.Triple.take
  · intro hdenied
    exact .give rfl (.pure ⟨0, ⟨rfl, Or.inr hdenied⟩, (zero_add rest).symm⟩)
  intro data
  apply hread.step ({self} + {data}) (by abel)
  intro _ owned howned
  rw [howned]
  apply Mem.Triple.ite
  · intro hvalid
    exact .pure ⟨{self} + {data}, ⟨rfl, Or.inl (if_pos hvalid).symm⟩, add_comm _ _⟩
  · intro hvalid
    apply (triple_freeTrinaryObject (some ⟨self, data, ⟨src, type⟩⟩)).step rest (add_comm _ _)
    rintro _ _ rfl
    exact .pure ⟨0, ⟨rfl, Or.inl (if_neg hvalid).symm⟩, rfl⟩

theorem triple_initTrits {read : Mem Unit} (src : List Int8)
    (hread : Mem.Triple grants allowed rest read fun _ owned => owned = rest) :
    Mem.Triple grants allowed rest (initTrits read src) fun t owned =>
      ∃ own, Returns grants (Dcurl.initTrits src) t own ∧ owned = own + rest :=
  triple_initObject src hread

theorem triple_initTrytes {read : Mem Unit} (src : List Int8)
    (hread : Mem.Triple grants allowed rest read fun _ owned => owned = rest) :
    Mem.Triple grants allowed rest (initTrytes read src) fun t owned =>
      ∃ own, Returns grants (Dcurl.initTrytes src) t own ∧ owned = own + rest :=
  triple_initObject src hread

theorem triple_fill {p : Option Nat} (bytes : List Int8) (hdenied : p = none → allowed)
    (hmem : ∀ q, p = some q → q ∈ rest) :
    Mem.Triple grants allowed rest (fill p bytes) fun _ owned => owned = rest := by
  apply Mem.Triple.ite
  · intro _
    exact .pure rfl
  · intro _
    cases p with
    | none => exact Mem.triple_wrong (hdenied rfl)
    | some q => exact Mem.triple_touch (hmem q rfl)

theorem triple_copy {init : Mem Unit → List Int8 → Mem (Option Object)}
    {expected : Option TrinaryObject} {values : List Int8} (src : Option Nat)
    (hinit : ∀ read rest, Mem.Triple grants allowed rest read (fun _ owned => owned = rest) →
      Mem.Triple grants allowed rest (init read values) fun t owned =>
        ∃ own, Returns grants expected t own ∧ owned = own + rest)
    (hdenied : src = none → allowed) :
    Mem.Triple grants allowed (Mem.block src + rest)
      (do
        fill src values
        let converted ← init (fill src values) values
        Mem.give src
        return converted)
      fun t owned => ∃ own, Returns grants expected t own ∧ owned = own + rest := by
  have hfill : Mem.Triple grants allowed (Mem.block src + rest) (fill src values)
      fun _ owned => owned = Mem.block src + rest := by
    apply triple_fill values hdenied
    rintro q rfl
    simp [Mem.block]
  apply hfill.bind
  intro _ owned howned
  rw [howned]
  apply (hinit _ _ hfill).bind
  rintro t _ ⟨own, hreturns, rfl⟩
  exact .give (add_left_comm _ _ _) (.pure ⟨own, hreturns, rfl⟩)

theorem triple_convert {accepts : TrinaryObject → Bool} {values : List Int8 → List Int8}
    {init : Mem Unit → List Int8 → Mem (Option Object)}
    {expected : List Int8 → Option TrinaryObject} (t : Option Object)
    (hinit : ∀ src read rest,
      Mem.Triple grants (Mem.Denied grants) rest read (fun _ owned => owned = rest) →
      Mem.Triple grants (Mem.Denied grants) rest (init read src) fun t owned =>
        ∃ own, Returns grants (expected src) t own ∧ owned = own + rest) :
    Mem.Triple grants (Mem.Denied grants) (blocks t) (convert t accepts values init) fun r owned =>
      ∃ own, Returns grants ((t.map Object.held).bind fun held =>
          if accepts held then expected (values held.data) else none) r own ∧
        owned = own + blocks t := by
  cases t with
  | none => exact .pure ⟨0, ⟨rfl, Or.inl rfl⟩, rfl⟩
  | some t =>
      apply Mem.Triple.touch (by simp [blocks])
      apply Mem.Triple.touch (by simp [blocks])
      apply Mem.Triple.ite
      · intro hrejects
        have hnone : accepts t.held = false := by simpa using hrejects
        exact .pure ⟨0, ⟨rfl, Or.inl (by simp [hnone])⟩, (zero_add _).symm⟩
      · intro haccepts
        have hsome : accepts t.held = true := by simpa using haccepts
        simp only [Option.map_some, Option.bind_some, hsome, if_true]
        apply Mem.Triple.take
        · intro hdenied
          rw [← zero_add (blocks (some t))]
          exact triple_copy none (hinit (values t.held.data)) fun _ => hdenied
        · intro p
          exact triple_copy (some p) (hinit (values t.held.data)) (by simp)

theorem triple_trytesFromTrits (trits : Option Object) :
    Mem.Triple grants (Mem.Denied grants) (blocks trits) (trytesFromTrits trits) fun t owned =>
      ∃ own, Returns grants (Dcurl.trytesFromTrits (trits.map Object.held)) t own ∧
        owned = own + blocks trits := by
  apply (triple_convert trits fun src _ _ => triple_initTrytes src).mono id
  rintro t _ ⟨own, hreturns, rfl⟩
  refine ⟨own, ?_, rfl⟩
  cases trits with
  | none => exact hreturns
  | some trits =>
      by_cases hlength : trits.held.data.length % 3 = 0 <;>
        cases hvalid : validateTrits trits.held <;>
          simpa [Dcurl.trytesFromTrits, hlength, hvalid] using hreturns

theorem triple_tritsFromTrytes (trytes : Option Object) :
    Mem.Triple grants (Mem.Denied grants) (blocks trytes) (tritsFromTrytes trytes) fun t owned =>
      ∃ own, Returns grants (Dcurl.tritsFromTrytes (trytes.map Object.held)) t own ∧
        owned = own + blocks trytes := by
  apply (triple_convert trytes fun src _ _ => triple_initTrits src).mono id
  rintro t _ ⟨own, hreturns, rfl⟩
  refine ⟨own, ?_, rfl⟩
  cases trytes with
  | none => exact hreturns
  | some trytes =>
      cases haccepts : validateTrytes trytes.held <;>
        simpa [Dcurl.tritsFromTrytes, haccepts] using hreturns

end objects

theorem triple_initTrits_local {grants : Nat → Bool} {allowed : Prop} (src : List Int8) :
    Mem.Triple grants allowed 0 (initTrits (pure ()) src) fun t owned =>
      Returns grants (Dcurl.initTrits src) t owned := by
  apply (triple_initTrits src (.pure rfl)).mono id
  rintro t _ ⟨own, hreturns, rfl⟩
  simpa using hreturns

theorem triple_initTrytes_local {grants : Nat → Bool} {allowed : Prop} (src : List Int8) :
    Mem.Triple grants allowed 0 (initTrytes (pure ()) src) fun t owned =>
      Returns grants (Dcurl.initTrytes src) t owned := by
  apply (triple_initTrytes src (.pure rfl)).mono id
  rintro t _ ⟨own, hreturns, rfl⟩
  simpa using hreturns

section sponge

variable {grants : Nat → Bool} {allowed : Prop} {rest : Multiset Nat}

structure HoldsCurl (grants : Nat → Bool) (expected : CurlState) (c : Curl)
    (owned : Multiset Nat) : Prop where
  owned_eq : owned = c.blocks
  value : c.state.isSome = true ∧ c.value = expected ∨ Mem.Denied grants

theorem triple_touchObject {t : Option Object} (hblocks : blocks t ≤ rest)
    (hnull : t = none → allowed) :
    Mem.Triple grants allowed rest (touchObject t) fun _ owned => owned = rest := by
  cases t with
  | none => exact Mem.triple_wrong (hnull rfl)
  | some t =>
      apply Mem.Triple.touch (Multiset.mem_of_le hblocks (by simp [blocks]))
      exact Mem.triple_touch (Multiset.mem_of_le hblocks (by simp [blocks]))

theorem touchObject_bind {α : Type} {t : Object} {next : Unit → Mem α}
    {post : α → Multiset Nat → Prop} (hblocks : blocks (some t) ≤ rest)
    (hnext : Mem.Triple grants allowed rest (next ()) post) :
    Mem.Triple grants allowed rest (touchObject (some t) >>= next) post := by
  apply (triple_touchObject hblocks (by simp)).bind
  rintro _ _ rfl
  exact hnext

theorem triple_initCurl :
    Mem.Triple grants (Mem.Denied grants) 0 initCurl fun c owned =>
      (c = none → owned = 0 ∧ Mem.Denied grants) ∧
        ∀ curl, c = some curl → HoldsCurl grants Dcurl.initCurl curl owned := by
  apply Mem.Triple.take
  · intro hdenied
    exact .pure ⟨fun _ => ⟨rfl, hdenied⟩, by simp⟩
  intro self
  apply (triple_initTrits_local (List.replicate 729 0)).step {self} (by simp)
  rintro t _ ⟨rfl, hvalue⟩
  have hvalid : (List.replicate 729 (0 : Int8)).all isTrit = true := by
    rw [List.all_replicate]
    rfl
  rw [initTrits_of_valid hvalid] at hvalue
  refine .pure ⟨by simp, ?_⟩
  rintro curl ⟨⟩
  refine ⟨by simp [Curl.blocks, add_comm], hvalue.imp_left fun heq => ⟨?_, rfl⟩⟩
  cases t with
  | none => cases heq
  | some t => rfl

theorem triple_freeCurl (c : Curl) :
    Mem.Triple grants allowed c.blocks (freeCurl (some c)) fun _ owned => owned = 0 := by
  apply (triple_freeTrinaryObject c.state).release (add_comm _ _)
  intro _
  exact Mem.triple_give (some c.self)

theorem HoldsCurl.state_le {expected : CurlState} {c : Curl} {owned : Multiset Nat}
    (hc : HoldsCurl grants expected c owned) (others : Multiset Nat) :
    blocks c.state ≤ others + owned := by
  rw [hc.owned_eq]
  exact (Multiset.le_add_left _ _).trans (Multiset.le_add_left _ _)

theorem HoldsCurl.denied {expected : CurlState} {c : Curl} {owned : Multiset Nat}
    (hc : HoldsCurl grants expected c owned) (hnull : c.state = none) : Mem.Denied grants := by
  obtain ⟨hsome, _⟩ | hdenied := hc.value
  · rw [hnull] at hsome
    cases hsome
  · exact hdenied

/-- Where a block is denied, `absorb` may leave out what it was to take in. -/
theorem triple_absorb {expected : CurlState} {c : Curl} (inn : Object)
    (hc : HoldsCurl grants expected c rest) :
    Mem.Triple grants (Mem.Denied grants) (blocks (some inn) + rest) (absorb c (some inn))
      fun c' owned => ∃ own, HoldsCurl grants (Dcurl.absorb expected inn.held) c' own ∧
        owned = own + blocks (some inn) := by
  apply (triple_tritsFromTrytes (some inn)).step rest rfl
  rintro (_ | tr) _ ⟨_, ⟨rfl, hvalue⟩, rfl⟩
  · refine .pure ⟨rest, ⟨hc.owned_eq, ?_⟩, ?_⟩
    · obtain heq | hdenied := hvalue
      · have hnone : Dcurl.tritsFromTrytes (some inn.held) = none := heq.symm
        simpa [Dcurl.absorb, hnone] using hc.value
      · exact Or.inr hdenied
    · simp [blocks, add_comm]
  have htouch : Mem.Triple grants (Mem.Denied grants)
      (blocks (some tr) + blocks (some inn) + rest)
      (fillState c tr.held.data)
      fun _ owned => owned = blocks (some tr) + blocks (some inn) + rest :=
    .ite (fun _ => .pure rfl) fun _ => triple_touchObject (hc.state_le _) hc.denied
  apply htouch.bind
  intro _ owned howned
  apply (triple_freeTrinaryObject (some tr)).step (blocks (some inn) + rest)
    (howned.trans (add_assoc _ _ _))
  rintro _ _ rfl
  refine .pure ⟨rest, ⟨hc.owned_eq, ?_⟩, ?_⟩
  · obtain heq | hdenied := hvalue
    · have htrits : Dcurl.tritsFromTrytes (some inn.held) = some tr.held := heq.symm
      refine hc.value.imp_left fun hstate => ⟨hstate.1, ?_⟩
      simp [Dcurl.absorb, htrits, hstate.2]
    · exact Or.inr hdenied
  · rw [zero_add, add_comm]

theorem triple_squeeze {expected : CurlState} {c : Curl} (hc : HoldsCurl grants expected c rest) :
    Mem.Triple grants (Mem.Denied grants) rest (squeeze c) fun result owned =>
      ∃ own, Returns grants (Dcurl.squeeze expected).1 result.1 own ∧
        owned = own + result.2.blocks := by
  apply (triple_touchObject (by simpa using hc.state_le 0) hc.denied).bind
  intro _ owned howned
  rw [howned]
  apply (triple_initTrits_local (c.value.toList.take 243)).step rest (zero_add rest).symm
  rintro trits _ ⟨rfl, htrits⟩
  apply (triple_trytesFromTrits trits).step rest rfl
  rintro trytes _ ⟨_, ⟨rfl, htrytes⟩, rfl⟩
  apply (triple_touchObject (hc.state_le _) hc.denied).bind
  intro _ owned howned
  apply (triple_freeTrinaryObject trits).step (blocks trytes + rest) (by
    rw [howned]
    abel)
  rintro _ _ rfl
  refine .pure ⟨blocks trytes, ⟨rfl, ?_⟩, ?_⟩
  · obtain ⟨_, hexpected⟩ | hdenied := hc.value
    · obtain htrits | hdenied := htrits
      · rw [htrits, hexpected] at htrytes
        exact htrytes
      · exact Or.inr hdenied
    · exact Or.inr hdenied
  · simp only [zero_add, hc.owned_eq, Curl.blocks]

theorem triple_hashTrytes (t : Object) :
    Mem.Triple grants (Mem.Denied grants) (blocks (some t)) (hashTrytes t) fun r owned =>
      ∃ own, Returns grants (Dcurl.hashTrytes t.held) r own ∧ owned = own + blocks (some t) := by
  apply Mem.Triple.touch (by simp [blocks])
  apply Mem.Triple.ite
  · intro htype
    exact .pure ⟨0, ⟨rfl, Or.inl (by simp [Dcurl.hashTrytes, htype])⟩, (zero_add _).symm⟩
  intro htype
  apply triple_initCurl.step (blocks (some t)) (zero_add _).symm
  rintro (_ | c) own ⟨hnone, hsome⟩
  · obtain ⟨rfl, hdenied⟩ := hnone rfl
    exact .pure ⟨0, ⟨rfl, Or.inr hdenied⟩, rfl⟩
  have hc := hsome c rfl
  rw [add_comm]
  apply (triple_absorb t hc).bind
  rintro c _ ⟨own, hc, rfl⟩
  apply (triple_squeeze hc).step (blocks (some t)) rfl
  rintro ⟨ret, c⟩ _ ⟨_, ⟨rfl, hret⟩, rfl⟩
  apply (triple_freeCurl c).step (blocks ret + blocks (some t)) (by abel)
  rintro _ _ rfl
  refine .pure ⟨blocks ret, ⟨rfl, ?_⟩, zero_add _⟩
  simpa [Dcurl.hashTrytes, htype] using hret

end sponge

end Dcurl.Memory
