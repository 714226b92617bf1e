/-
# SstTransports.Lib.Fold — folding the values of consecutive numbers.

`foldFrom op g lo n` combines `g lo`, …, `g (lo + n)` in this order.  There is no neutral element, so
at least one value is taken.  For an associative operation the range may be cut anywhere
(`foldFrom_add`).
-/
import Mathlib.Data.List.Zip
import Mathlib.Data.Nat.Notation

namespace SstTransports.Lib

variable {α : Type} (op : α → α → α) (g : Nat → α)

/-- The values of the numbers from `lo` to `lo + n`, combined from the left. -/
def foldFrom (lo : Nat) : Nat → α
  | 0 => g lo
  | n + 1 => op (foldFrom lo n) (g (lo + (n + 1)))

variable {op g}

@[simp]
theorem foldFrom_zero (lo : Nat) : foldFrom op g lo 0 = g lo := rfl

@[simp]
theorem foldFrom_succ (lo n : Nat) :
    foldFrom op g lo (n + 1) = op (foldFrom op g lo n) (g (lo + (n + 1))) := rfl

theorem foldFrom_add [h : Std.Associative op] (lo m n : Nat) :
    foldFrom op g lo (m + 1 + n) = op (foldFrom op g lo m) (foldFrom op g (lo + (m + 1)) n) := by
  induction n with
  | zero => rfl
  | succ n ih =>
      rw [show m + 1 + (n + 1) = m + 1 + n + 1 by omega, foldFrom_succ, ih, foldFrom_succ,
        h.assoc, show lo + (m + 1) + (n + 1) = lo + (m + 1 + n + 1) by omega]

/-- A property that all the values have and the operation keeps. -/
theorem foldFrom_induction {p : α → Prop} (lo n : Nat) (hg : ∀ i, lo ≤ i → i ≤ lo + n → p (g i))
    (hop : ∀ a b, p a → p b → p (op a b)) : p (foldFrom op g lo n) := by
  induction n with
  | zero => exact hg lo (by omega) (by omega)
  | succ n ih =>
      refine hop _ _ (ih fun i hlo hhi => hg i hlo (by omega)) ?_
      exact hg _ (by omega) (by omega)

/-! ## elementwise -/

instance zipWith_commutative (f : α → α → α) [h : Std.Commutative f] :
    Std.Commutative (List.zipWith f) :=
  ⟨fun _ _ => List.zipWith_comm_of_comm h.comm⟩

instance zipWith_associative (f : α → α → α) [h : Std.Associative f] :
    Std.Associative (List.zipWith f) where
  assoc := by
    intro a b c
    rw [List.zipWith_zipWith_left, List.zipWith_zipWith_right]
    simp only [h.assoc]

end SstTransports.Lib
