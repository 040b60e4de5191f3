import Mathlib.Data.Nat.Init

/-! Vectors that are indexed by `Fin`: such an index needs no proof of its bound. -/
namespace Dcurl.Library

variable {α : Type*} {n : Nat}

instance vectorFin : GetElem (Vector α n) (Fin n) α fun _ _ => True where
  getElem xs i _ := xs[i.val]

@[simp] theorem getElem_fin (xs : Vector α n) (i : Fin n) : xs[i] = xs[i.val] := rfl

end Dcurl.Library
