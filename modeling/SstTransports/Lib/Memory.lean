/-
# SstTransports.Lib.Memory — writing consecutive cells of a memory.

A memory gives every address a cell.  `store` writes a list of values from an address on; `store_apply`
says what every cell holds afterwards, those it does not reach included.  Records of one size that are
written one after the other are read back with `records`.

A buffer is a memory with an end, whose cells hold nothing until they are written.  `memcpy` copies
into one and tells when it would leave it; `memcpy_fill` is the rule for parts that are copied one
after the other.
-/
import Mathlib.Data.List.Basic
import Mathlib.Tactic.Ring

namespace SstTransports.Lib

variable {β : Type*}

/-- A cell for each address. -/
abbrev Memory (β : Type*) := Nat → β

/-- Write the values to the cells from `addr` on. -/
def store (mem : Memory β) (addr : Nat) : List β → Memory β
  | [] => mem
  | v :: vs => store (Function.update mem addr v) (addr + 1) vs

/-- What a cell holds after a `store`. -/
theorem store_apply (mem : Memory β) (addr : Nat) (vs : List β) (a : Nat) :
    store mem addr vs a = if addr ≤ a then (vs[a - addr]?).getD (mem a) else mem a := by
  induction vs generalizing mem addr with
  | nil => simp [store]
  | cons v vs ih =>
      rw [store, ih]
      by_cases hlt : a < addr
      · rw [if_neg (by omega), if_neg (by omega), Function.update_of_ne (by omega)]
      · by_cases heq : a = addr
        · subst heq
          rw [if_neg (by omega), if_pos (Nat.le_refl a), Nat.sub_self, Function.update_self]
          rfl
        · obtain ⟨k, rfl⟩ : ∃ k, a = addr + (k + 1) := ⟨a - addr - 1, by omega⟩
          rw [if_pos (by omega), if_pos (by omega), Function.update_of_ne (by omega),
            Nat.add_sub_cancel_left, show addr + (k + 1) - (addr + 1) = k by omega,
            List.getElem?_cons_succ]

/-- Cells before and after the written ones keep what they hold. -/
theorem store_frame (mem : Memory β) (addr : Nat) (vs : List β) {a : Nat}
    (h : a < addr ∨ addr + vs.length ≤ a) : store mem addr vs a = mem a := by
  rw [store_apply]
  rcases h with h | h
  · rw [if_neg (by omega)]
  · rw [if_pos (by omega), List.getElem?_eq_none (by omega)]
    rfl

theorem store_append (mem : Memory β) (addr : Nat) (vs ws : List β) :
    store mem addr (vs ++ ws) = store (store mem addr vs) (addr + vs.length) ws := by
  induction vs generalizing mem addr with
  | nil => simp [store]
  | cons v vs ih =>
      rw [List.cons_append, store, store, ih, List.length_cons, Nat.add_assoc, Nat.add_comm 1]

/-! ## Records -/

/-- `n` records of `w` cells each, from `addr` on. -/
def records (mem : Memory β) (addr w n : Nat) : List (List β) :=
  (List.range n).map fun i => (List.range w).map fun j => mem (addr + i * w + j)

theorem records_succ (mem : Memory β) (addr w n : Nat) :
    records mem addr w (n + 1) =
      ((List.range w).map fun j => mem (addr + j)) :: records mem (addr + w) w n := by
  rw [records, List.range_succ_eq_map, List.map_cons, List.map_map]
  refine congrArg₂ List.cons ?_ ?_
  · simp
  · refine List.map_congr_left fun i _ => ?_
    refine List.map_congr_left fun j _ => ?_
    refine congrArg mem ?_
    show addr + (i + 1) * w + j = addr + w + i * w + j
    ring

/-- The cells that were written, read back. -/
theorem map_store (mem : Memory β) (addr : Nat) (vs : List β) :
    ((List.range vs.length).map fun j => store mem addr vs (addr + j)) = vs := by
  apply List.ext_getElem
  · simp
  · intro j h₁ h₂
    rw [List.getElem_map, List.getElem_range, store_apply, if_pos (by omega),
      Nat.add_sub_cancel_left, List.getElem?_eq_getElem h₂]
    rfl

/-- Records written one after the other are read back as they were. -/
theorem records_store (mem : Memory β) (addr w : Nat) (rs : List (List β))
    (hw : ∀ r ∈ rs, r.length = w) :
    records (store mem addr rs.flatten) addr w rs.length = rs := by
  induction rs generalizing mem addr with
  | nil => rfl
  | cons r rs ih =>
      obtain ⟨hr, hrs⟩ := List.forall_mem_cons.mp hw
      rw [List.length_cons, records_succ, List.flatten_cons, store_append, hr,
        ih (store mem addr r) (addr + w) hrs]
      refine congrArg (· :: rs) ?_
      -- the first record is not touched by those after it
      have hfirst : ∀ j ∈ List.range w,
          store (store mem addr r) (addr + w) rs.flatten (addr + j) = store mem addr r (addr + j) := by
        intro j hj
        exact store_frame _ _ _ (Or.inl (by have := List.mem_range.mp hj; omega))
      rw [List.map_congr_left hfirst, ← hr]
      exact map_store mem addr r

/-! ## Buffers -/

/-- A cell that was never written holds nothing. -/
abbrev Buffer (β : Type*) := List (Option β)

def alloc (size : Nat) : Buffer β := List.replicate size none

/-- Copy the first `n` of the values `src` to `buf + off`; none if that leaves `src` or `buf`. -/
def memcpy (buf : Buffer β) (off : Nat) (src : List β) (n : Nat) : Option (Buffer β) :=
  if src.length < n ∨ buf.length < off + n then none
  else some (buf.take off ++ (src.take n).map some ++ buf.drop (off + n))

theorem memcpy_eq_none {buf : Buffer β} {off n : Nat} (src : List β) (h : buf.length < off + n) :
    memcpy buf off src n = none :=
  if_pos (Or.inr h)

/-- Copying to the end of what is written, with `k` cells left over. -/
theorem memcpy_fill (done src : List β) (k : Nat) :
    memcpy (done.map some ++ alloc (src.length + k)) done.length src src.length =
      some ((done ++ src).map some ++ alloc k) := by
  have hlength : ¬ (src.length < src.length ∨
      (done.map some ++ alloc (src.length + k) : Buffer β).length < done.length + src.length) := by
    simp only [alloc, List.length_append, List.length_map, List.length_replicate]
    omega
  have htake : (done.map some ++ alloc (src.length + k) : Buffer β).take done.length =
      done.map some := List.take_left' (List.length_map _)
  have hdrop : (done.map some ++ alloc (src.length + k) : Buffer β).drop (done.length + src.length) =
      alloc k := by
    rw [← List.drop_drop, List.drop_left' (List.length_map _), alloc, alloc, List.drop_replicate,
      Nat.add_sub_cancel_left]
  rw [memcpy, if_neg hlength, htake, hdrop, List.take_length, List.map_append]

end SstTransports.Lib
