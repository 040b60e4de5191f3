import Mathlib.Algebra.Order.Ring.Nat
import Mathlib.Logic.Function.Basic
import Mathlib.Tactic.Ring

/-! Rows of arrays that are cut out of one chunk of memory. Array `j` of row `i` starts at
`i * width * columns + j * width`; what is written to one array, the others never see. -/
namespace Dcurl.Library.Chunk

def address (width columns i j k : Nat) : Nat := i * width * columns + j * width + k

structure Place where
  row : Nat
  array : Nat
  cell : Nat
  deriving DecidableEq

structure Place.Within (place : Place) (rows columns width : Nat) : Prop where
  row : place.row < rows
  array : place.array < columns
  cell : place.cell < width

def Place.address (place : Place) (width columns : Nat) : Nat :=
  Chunk.address width columns place.row place.array place.cell

variable {α : Type*} {rows columns width : Nat} {place place' : Place}

theorem eq_of_mul_add_eq {first first' last last' : Nat} (h : last < width) (h' : last' < width)
    (heq : first * width + last = first' * width + last') : first = first' ∧ last = last' := by
  have hpos : 0 < width := Nat.zero_lt_of_lt h
  have hmod := congrArg (· % width) heq
  have hdiv := congrArg (· / width) heq
  simp only [Nat.mul_add_mod_of_lt h, Nat.mul_add_mod_of_lt h'] at hmod
  simp only [Nat.mul_comm _ width, Nat.mul_add_div hpos, Nat.div_eq_of_lt h,
    Nat.div_eq_of_lt h', Nat.add_zero] at hdiv
  exact ⟨hdiv, hmod⟩

theorem address_eq (width columns i j k : Nat) :
    address width columns i j k = (i * columns + j) * width + k := by
  unfold address
  ring

theorem address_inj (h : place.Within rows columns width) (h' : place'.Within rows columns width)
    (heq : place.address width columns = place'.address width columns) : place = place' := by
  unfold Place.address at heq
  rw [address_eq, address_eq] at heq
  obtain ⟨hindex, hcell⟩ := eq_of_mul_add_eq h.cell h'.cell heq
  obtain ⟨hrow, harray⟩ := eq_of_mul_add_eq h.array h'.array hindex
  cases place
  cases place'
  simp_all

def store (width columns : Nat) (chunk : Nat → α) (write : Place × α) : Nat → α :=
  Function.update chunk (write.1.address width columns) write.2

def put (arrays : Place → α) (write : Place × α) : Place → α :=
  Function.update arrays write.1 write.2

def Represents (rows columns width : Nat) (chunk : Nat → α) (arrays : Place → α) : Prop :=
  ∀ place : Place, place.Within rows columns width →
    chunk (place.address width columns) = arrays place

theorem Represents.store {chunk : Nat → α} {arrays : Place → α} {write : Place × α}
    (h : Represents rows columns width chunk arrays)
    (hwrite : write.1.Within rows columns width) :
    Represents rows columns width (store width columns chunk write) (put arrays write) := by
  intro place hplace
  unfold Chunk.store put
  by_cases hsame : place = write.1
  · rw [hsame, Function.update_self, Function.update_self]
  · have hne : place.address width columns ≠ write.1.address width columns :=
      fun heq => hsame (address_inj hplace hwrite heq)
    rw [Function.update_of_ne hne, Function.update_of_ne hsame]
    exact h place hplace

/-- Whoever writes in which order: the chunk goes on holding what the rows hold. -/
theorem Represents.foldl {writes : List (Place × α)}
    (hwrites : ∀ write ∈ writes, write.1.Within rows columns width) :
    ∀ {chunk : Nat → α} {arrays : Place → α}, Represents rows columns width chunk arrays →
      Represents rows columns width (writes.foldl (Chunk.store width columns) chunk)
        (writes.foldl put arrays) := by
  induction writes with
  | nil => exact fun h => h
  | cons write writes ih =>
      intro chunk arrays h
      rw [List.foldl_cons, List.foldl_cons]
      exact ih (fun other hmem => hwrites other (List.mem_cons_of_mem _ hmem))
        (h.store (hwrites write List.mem_cons_self))

theorem foldl_put {value : Place → α} {writes : List (Place × α)}
    (hvalue : ∀ write ∈ writes, write.2 = value write.1) (arrays : Place → α) (place : Place) :
    writes.foldl put arrays place =
      if place ∈ writes.map Prod.fst then value place else arrays place := by
  induction writes generalizing arrays with
  | nil => simp
  | cons write writes ih =>
      rw [List.foldl_cons, ih fun other hmem => hvalue other (List.mem_cons_of_mem _ hmem)]
      by_cases hlater : place ∈ writes.map Prod.fst
      · simp [hlater]
      · by_cases hnow : place = write.1
        · simp [hnow, put, hvalue write List.mem_cons_self]
        · simp [hlater, hnow, put]

def read (width : Nat) (chunk : Nat → α) (ptr : Nat) : Vector α width :=
  Vector.ofFn fun k => chunk (ptr + k)

def write (chunk : Nat → α) (ptr : Nat) (array : Vector α width) : Nat → α := fun cell =>
  if ptr ≤ cell then array[cell - ptr]?.getD (chunk cell) else chunk cell

@[simp] theorem read_write_self (chunk : Nat → α) (ptr : Nat) (array : Vector α width) :
    read width (write chunk ptr array) ptr = array := by
  ext k hk
  simp [read, write]

theorem write_of_outside {chunk : Nat → α} {ptr cell : Nat} {array : Vector α width}
    (h : ∀ k < width, cell ≠ ptr + k) : write chunk ptr array cell = chunk cell := by
  unfold write
  split
  · rename_i hle
    have hnone : array[cell - ptr]? = none := by
      apply Vector.getElem?_eq_none
      by_contra hlt
      exact h (cell - ptr) (by omega) (by omega)
    rw [hnone]
    rfl
  · rfl

/-- A write to another array is not seen. -/
theorem read_write_of_apart {chunk : Nat → α} {ptr ptr' : Nat} {array : Vector α width}
    (h : ∀ k < width, ∀ k' < width, ptr + k ≠ ptr' + k') :
    read width (write chunk ptr array) ptr' = read width chunk ptr' := by
  ext k hk
  simp only [read, Vector.getElem_ofFn]
  exact write_of_outside fun k' hk' heq => h k' hk' k hk heq.symm

end Dcurl.Library.Chunk
