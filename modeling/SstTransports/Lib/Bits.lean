/-
# SstTransports.Lib.Bits — the highest and the lowest bit of a number.

`x ||| x >>> w` carries every bit of `x` also `w` places down.  Doing this with `w = 1, 2, 4, …` fills
all places below the highest bit (`Covers.eq_two_pow_sub_one`).

`Lowest v t` says that the lowest bit of `v` is the one of place `t`.  Taking it off gives a number
with more places free, and putting a lower one on gives a number with that one as its lowest: so the
numbers make up a tree.
-/
import Mathlib.Algebra.Group.Nat.Defs
import Mathlib.Data.Nat.Notation

namespace SstTransports.Lib

/-! ## §1 — the highest bit -/

/-- A place of `x` is set if `m` has a bit there or less than `w` places above. -/
def Covers (m w x : Nat) : Prop :=
  ∀ i, x.testBit i = true ↔ ∃ j < w, m.testBit (i + j) = true

theorem Covers.one (m : Nat) : Covers m 1 m := by
  intro i
  constructor
  · intro h
    exact ⟨0, by omega, h⟩
  · rintro ⟨j, hj, h⟩
    obtain rfl : j = 0 := by omega
    exact h

theorem Covers.double {m w x : Nat} (h : Covers m w x) : Covers m (w + w) (x ||| x >>> w) := by
  intro i
  rw [Nat.testBit_or, Nat.testBit_shiftRight, Bool.or_eq_true, h i, h (w + i)]
  constructor
  · rintro (⟨j, hj, hb⟩ | ⟨j, hj, hb⟩)
    · exact ⟨j, by omega, hb⟩
    · exact ⟨w + j, by omega, by rw [show i + (w + j) = w + i + j by omega]; exact hb⟩
  · rintro ⟨j, hj, hb⟩
    by_cases hjw : j < w
    · exact .inl ⟨j, hjw, hb⟩
    · exact .inr ⟨j - w, by omega, by rw [show w + i + (j - w) = i + j by omega]; exact hb⟩

/-- Enough doublings fill everything below the highest bit. -/
theorem Covers.eq_two_pow_sub_one {m w x : Nat} (h : Covers m w x) (hm : m ≠ 0) (hw : m.log2 < w) :
    x = 2 ^ (m.log2 + 1) - 1 := by
  refine Nat.eq_of_testBit_eq fun i => ?_
  rw [Nat.testBit_two_pow_sub_one, Bool.eq_iff_iff, h i, decide_eq_true_eq]
  constructor
  · rintro ⟨j, _, hb⟩
    have hge := (Nat.le_log2 hm).mpr (Nat.ge_two_pow_of_testBit hb)
    omega
  · intro hi
    exact ⟨m.log2 - i, by omega, by rw [show i + (m.log2 - i) = m.log2 by omega]; exact Nat.testBit_log2 hm⟩

/-! ## §2 — the lowest bit -/

/-- The lowest bit of a number is the one of place `t`. -/
def Lowest (v t : Nat) : Prop := v % 2 ^ (t + 1) = 2 ^ t

theorem Lowest.eq {v t : Nat} (h : Lowest v t) : v = 2 ^ (t + 1) * (v / 2 ^ (t + 1)) + 2 ^ t := by
  have := Nat.div_add_mod v (2 ^ (t + 1))
  rw [h] at this
  exact this.symm

theorem Lowest.le {v t : Nat} (h : Lowest v t) : 2 ^ t ≤ v := h ▸ Nat.mod_le _ _

theorem Lowest.testBit {v t : Nat} (h : Lowest v t) (i : Nat) (hi : i ≤ t) :
    v.testBit i = decide (i = t) := by
  have hlt : 2 ^ t < 2 ^ (t + 1) := Nat.pow_lt_pow_right (by omega) (by omega)
  rw [h.eq, Nat.testBit_two_pow_mul_add _ hlt, if_pos (by omega), Nat.testBit_two_pow]
  simp [eq_comm]

/-- The tree: below a number with `t` places free there is one for each of them. -/
theorem lowest_add {v t i : Nat} (hv : 2 ^ t ∣ v) (hi : i < t) : Lowest (v + 2 ^ i) i := by
  obtain ⟨k, rfl⟩ := Nat.dvd_trans (Nat.pow_dvd_pow 2 hi) hv
  unfold Lowest
  rw [Nat.mul_add_mod]
  exact Nat.mod_eq_of_lt (Nat.pow_lt_pow_right (by omega) (by omega))

theorem Lowest.dvd {v t : Nat} (h : Lowest v t) : 2 ^ t ∣ v := by
  rw [h.eq]
  exact Nat.dvd_add (Nat.dvd_mul_right_of_dvd (Nat.pow_dvd_pow 2 (Nat.le_succ t)) _) (Nat.dvd_refl _)

/-- Without its lowest bit a number has the place of it free too. -/
theorem Lowest.dvd_sub {v t : Nat} (h : Lowest v t) : 2 ^ (t + 1) ∣ v - 2 ^ t :=
  ⟨v / 2 ^ (t + 1), by have := h.eq; omega⟩

theorem Lowest.unique {v t u : Nat} (h : Lowest v t) (h' : Lowest v u) : t = u := by
  rcases Nat.lt_trichotomy t u with hlt | rfl | hlt
  · have := h'.testBit t (by omega)
    rw [h.testBit t (Nat.le_refl t)] at this
    simpa using this
  · rfl
  · have := h.testBit u (by omega)
    rw [h'.testBit u (Nat.le_refl u)] at this
    simpa [eq_comm] using this

theorem exists_lowest {v : Nat} (hv : v ≠ 0) : ∃ t, Lowest v t := by
  induction v using Nat.strongRecOn with
  | _ v ih =>
      rcases Nat.mod_two_eq_zero_or_one v with h | h
      · obtain ⟨t, ht⟩ := ih (v / 2) (by omega) (by omega)
        refine ⟨t + 1, ?_⟩
        unfold Lowest at ht ⊢
        rw [Nat.pow_succ 2 (t + 1), Nat.mul_comm, Nat.mod_mul, h, ht, Nat.pow_succ]
        omega
      · exact ⟨0, h⟩

/-- `v & ~(v - 1)` in 64 bits is the lowest bit. -/
theorem Lowest.and_not {v t w : Nat} (h : Lowest v t) (hv : v < 2 ^ w) :
    v &&& (2 ^ w - v) = 2 ^ t := by
  have hle := h.le
  have hpos := Nat.two_pow_pos t
  have hlow : 2 ^ t < 2 ^ (t + 1) := Nat.pow_lt_pow_right (by omega) (by omega)
  have hpred : v - 1 = 2 ^ (t + 1) * (v / 2 ^ (t + 1)) + (2 ^ t - 1) := by
    have := h.eq
    omega
  refine Nat.eq_of_testBit_eq fun i => ?_
  rw [Nat.testBit_and, show 2 ^ w - v = 2 ^ w - (v - 1 + 1) by omega,
    Nat.testBit_two_pow_sub_succ (by omega), Nat.testBit_two_pow, hpred,
    Nat.testBit_two_pow_mul_add _ (by omega), Nat.testBit_two_pow_sub_one]
  by_cases hi : i ≤ t
  · rw [h.testBit i hi, if_pos (by omega)]
    by_cases hit : i = t
    · subst hit
      have : i < w := (Nat.pow_lt_pow_iff_right (a := 2) (by omega)).mp (by omega)
      simp [this]
    · simp [hit, Ne.symm hit]
  · have hti : ¬ t = i := by omega
    have hbit : v.testBit i = (v / 2 ^ (t + 1)).testBit (i - (t + 1)) := by
      refine (congrArg (Nat.testBit · i) h.eq).trans ?_
      rw [Nat.testBit_two_pow_mul_add _ hlow, if_neg (by omega)]
    rw [if_neg (by omega), hbit]
    cases (v / 2 ^ (t + 1)).testBit (i - (t + 1)) <;> simp [hti]

end SstTransports.Lib
