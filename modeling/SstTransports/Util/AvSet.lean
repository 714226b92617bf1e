/-
# SstTransports.Util.AvSet — the address sets of the collective groups.

A `struct util_av_set` is an array with room for all addresses of the address vector, of which the first
`fi_addr_count` are the set.  The functions work in place on this array.  Their counters are `int`: the
vector is taken to have less than 2^31 addresses.  Where there are two sets they are different objects;
`ofi_av_set_diff` of a set and itself, which reads the array it writes, is not covered.

Inserting, removing and uniting do what they say: a run of them is a run of operations on a finite set
and never writes behind the array (`av_set_refines`).  Intersecting and subtracting move a found address
to a place that still holds another one.  `keep` and `cut` are what is left of the set then, and
`intersect_iff` and `diff_iff` say for which sets this is the intersection and the difference.
-/
import Mathlib.Data.Finset.Card
import Mathlib.Data.List.Infix
import SstTransports.Lib.Run

namespace SstTransports.Util

open SstTransports.Lib

variable {α : Type} [DecidableEq α]

/-! ## §1 — the functions -/

/-- `struct util_av_set`: the allocated array and how much of it is used. -/
structure AvSet (α : Type) where
  array : List α
  count : Nat
  deriving DecidableEq, Repr

/-- `FI_SUCCESS` and `-FI_EINVAL`. -/
inductive AvSetRet where
  | success | einval
  deriving DecidableEq, Repr

namespace AvSet

/-- The addresses of the set. -/
def elements (s : AvSet α) : List α := s.array.take s.count

/-- The inner loops: the first place from `lo` on and before `hi` with the address. -/
def findPlace (array : List α) (a : α) (lo hi : Nat) : Option Nat :=
  (List.range' lo (hi - lo)).find? fun j => array[j]? = some a

/-- Write a place of the array; `none` behind its end. -/
def writePlace (array : List α) (i : Nat) (a : α) : Option (List α) :=
  if i < array.length then some (array.set i a) else none

/-- The loop of `ofi_av_set` over the addresses of the whole vector. -/
def avSetLoop (av : List α) (stride : Nat) : Nat → Nat → List α → Option (List α)
  | 0, _, array => some array
  | n + 1, iter, array =>
    match av[iter * stride]? with
    | none => none
    | some a =>
      match writePlace array iter a with
      | none => none
      | some array => avSetLoop av stride n (iter + 1) array

/-- `ofi_av_set`: every so many addresses of the vector; `start_addr` of the attributes is not read.
`av` is the set of all addresses, and `calloc` fills the new array with `zero`. -/
def ofiAvSet (av : AvSet α) (zero : α) (count stride : Nat) : Option (AvSet α) :=
  (avSetLoop av.array stride count 0 (List.replicate av.array.length zero)).map fun array => ⟨array, count⟩

/-- The loop of `ofi_av_set_union`; the count of the set stays as it was till the end. -/
def unionLoop (count : Nat) : List α → List α × Nat → Option (List α × Nat)
  | [], st => some st
  | a :: src, (array, temp) =>
    match findPlace array a 0 count with
    | some _ => unionLoop count src (array, temp)
    | none =>
      match writePlace array temp a with
      | none => none
      | some array => unionLoop count src (array, temp + 1)

def ofiAvSetUnion (dst src : AvSet α) : Option (AvSet α) :=
  (unionLoop dst.count src.elements (dst.array, dst.count)).map fun st => ⟨st.1, st.2⟩

/-- The loop of `ofi_av_set_intersect`: what is found is copied to the front, and the search goes on
behind it. -/
def intersectLoop (count : Nat) : List α → List α × Nat → List α × Nat
  | [], st => st
  | a :: src, (array, temp) =>
    match findPlace array a temp count with
    | some _ => intersectLoop count src (array.set temp a, temp + 1)
    | none => intersectLoop count src (array, temp)

def ofiAvSetIntersect (dst src : AvSet α) : AvSet α :=
  let (array, temp) := intersectLoop dst.count src.elements (dst.array, 0)
  ⟨array, temp⟩

/-- The loop of `ofi_av_set_diff`: what is found is copied to the end, which is cut off.  The addresses
of `src` do not change in the meantime, as they would if it were the same set. -/
def diffLoop : List α → List α × Nat → List α × Nat
  | [], st => st
  | a :: src, (array, temp) =>
    match findPlace array a 0 temp with
    | some _ => diffLoop src (array.set (temp - 1) a, temp - 1)
    | none => diffLoop src (array, temp)

def ofiAvSetDiff (dst src : AvSet α) : AvSet α :=
  let (array, temp) := diffLoop src.elements (dst.array, dst.count)
  ⟨array, temp⟩

/-- `ofi_av_set_insert`; `none` where it writes behind the array. -/
def ofiAvSetInsert (s : AvSet α) (addr : α) : Option (AvSet α × AvSetRet) :=
  match findPlace s.array addr 0 s.count with
  | some _ => some (s, .einval)
  | none => (writePlace s.array s.count addr).map fun array => (⟨array, s.count + 1⟩, .success)

/-- `ofi_av_set_remove`: the last address takes the place. -/
def ofiAvSetRemove (s : AvSet α) (addr : α) : AvSet α × AvSetRet :=
  match findPlace s.array addr 0 s.count with
  | some i =>
    match s.array[s.count - 1]? with
    | some last => (⟨s.array.set i last, s.count - 1⟩, .success)
    | none => (s, .einval)
  | none => (s, .einval)

/-- A set whose count is within the array and which has no address twice. -/
structure WellFormed (s : AvSet α) : Prop where
  room : s.count ≤ s.array.length
  nodup : s.elements.Nodup

/-! ## §2 — searching -/

variable {array : List α} {a : α} {lo hi : Nat}

theorem findPlace_eq_some {j : Nat} (h : findPlace array a lo hi = some j) :
    lo ≤ j ∧ j < hi ∧ array[j]? = some a := by
  have hmem := List.mem_range'_1.mp (List.mem_of_find?_eq_some h)
  have hval := List.find?_some h
  simp only [decide_eq_true_eq] at hval
  exact ⟨hmem.1, by omega, hval⟩

theorem findPlace_eq_none : findPlace array a lo hi = none ↔ a ∉ (array.take hi).drop lo := by
  unfold findPlace
  rw [List.find?_eq_none]
  constructor
  · intro h hmem
    obtain ⟨j, hj⟩ := List.mem_iff_getElem?.mp hmem
    rw [List.getElem?_drop] at hj
    have hlt : lo + j < hi := by
      have := (List.getElem?_eq_some_iff.mp hj).1
      rw [List.length_take] at this
      omega
    rw [List.getElem?_take_of_lt hlt] at hj
    exact h (lo + j) (List.mem_range'_1.mpr ⟨by omega, by omega⟩) (by simpa using hj)
  · intro h j hj hval
    have hj := List.mem_range'_1.mp hj
    simp only [decide_eq_true_eq] at hval
    refine h (List.mem_iff_getElem?.mpr ⟨j - lo, ?_⟩)
    rw [List.getElem?_drop, show lo + (j - lo) = j by omega, List.getElem?_take_of_lt (by omega)]
    exact hval

theorem mem_of_findPlace {j : Nat} (h : findPlace array a lo hi = some j) :
    a ∈ (array.take hi).drop lo := by
  by_contra hno
  rw [findPlace_eq_none.mpr hno] at h
  cases h

omit [DecidableEq α] in
/-- Writing the place behind the first ones. -/
theorem take_set_succ (a : α) {i : Nat} (hi : i < array.length) :
    (array.set i a).take (i + 1) = array.take i ++ [a] := by
  rw [List.take_set, List.take_succ_eq_append_getElem hi, List.set_append_right _ _ (by simp)]
  simp [Nat.min_eq_left (Nat.le_of_lt hi)]

/-! ## §3 — intersecting -/

/-- What `ofi_av_set_intersect` keeps of the addresses `rest`: every address that it finds costs it the
first one that is left. -/
def keep : List α → List α → List α
  | _, [] => []
  | rest, a :: src => if a ∈ rest then a :: keep rest.tail src else keep rest src

theorem keep_cons (rest src : List α) (a : α) :
    keep rest (a :: src) = if a ∈ rest then a :: keep rest.tail src else keep rest src := rfl

theorem take_intersectLoop {count : Nat} (src : List α) {temp : Nat} (hcount : count ≤ array.length)
    (htemp : temp ≤ count) :
    (intersectLoop count src (array, temp)).1.take (intersectLoop count src (array, temp)).2 =
      array.take temp ++ keep ((array.take count).drop temp) src := by
  induction src generalizing array temp with
  | nil => simp [intersectLoop, keep]
  | cons a src ih =>
      unfold intersectLoop keep
      cases hfind : findPlace array a temp count with
      | none => rw [if_neg (findPlace_eq_none.mp hfind), ih hcount htemp]
      | some j =>
          obtain ⟨hlo, hhi, _⟩ := findPlace_eq_some hfind
          have hmem := mem_of_findPlace hfind
          have hfront := take_set_succ a (show temp < array.length by omega)
          have hback : ((array.set temp a).take count).drop (temp + 1) =
              ((array.take count).drop temp).tail := by
            rw [List.take_set, List.drop_set_of_lt (by omega), List.tail_drop]
          simp only
          rw [if_pos hmem, ih (by simpa using hcount) (by omega), hfront, hback, List.append_assoc]
          rfl

theorem elements_intersect {dst : AvSet α} (src : AvSet α) (h : dst.count ≤ dst.array.length) :
    (dst.ofiAvSetIntersect src).elements = keep dst.elements src.elements := by
  show (intersectLoop _ _ _).1.take (intersectLoop _ _ _).2 = _
  rw [take_intersectLoop src.elements h (Nat.zero_le _)]
  simp [elements]

theorem keep_subset {rest src : List α} (h : a ∈ keep rest src) : a ∈ rest ∧ a ∈ src := by
  induction src generalizing rest with
  | nil => simp [keep] at h
  | cons b src ih =>
      unfold keep at h
      split at h
      · rename_i hb
        rcases List.mem_cons.mp h with rfl | h
        · exact ⟨hb, by simp⟩
        · obtain ⟨hrest, hsrc⟩ := ih h
          exact ⟨List.mem_of_mem_tail hrest, by simp [hsrc]⟩
      · obtain ⟨hrest, hsrc⟩ := ih h
        exact ⟨hrest, by simp [hsrc]⟩

theorem mem_drop_iff {D : List α} (hD : D.Nodup) (ha : a ∈ D) (t : Nat) : a ∈ D.drop t ↔ t ≤ D.idxOf a := by
  have htake := List.mem_take_iff_idxOf_lt (n := t) ha
  have hdisj : a ∈ D.take t → a ∉ D.drop t := by
    rw [← List.take_append_drop t D] at hD
    exact fun h h' => (List.nodup_append.mp hD).2.2 a h a h' rfl
  have hor : a ∈ D.take t ∨ a ∈ D.drop t := by
    rw [← List.mem_append, List.take_append_drop]
    exact ha
  constructor
  · intro h
    by_contra hlt
    exact hdisj (htake.mpr (by omega)) h
  · intro hle
    exact hor.resolve_left fun h => by have := htake.mp h; omega

/-- Addresses that were found before count as the first ones of the set. -/
theorem keep_complete_iff {D src : List α} (hD : D.Nodup) (hsrc : src.Nodup) (t : Nat) :
    (∀ a ∈ src, a ∈ D → a ∈ keep (D.drop t) src) ↔
      ∀ a ∈ src.filter (· ∈ D), (src.filter (· ∈ D)).idxOf a + t ≤ D.idxOf a := by
  induction src generalizing t with
  | nil => simp
  | cons a src ih =>
      obtain ⟨ha, hsrc⟩ := List.nodup_cons.mp hsrc
      rw [keep_cons]
      by_cases haD : a ∈ D
      · rw [List.filter_cons_of_pos (by simpa using haD)]
        by_cases hat : a ∈ D.drop t
        · -- it is found, and everything else is one place further on
          have hle := (mem_drop_iff hD haD t).mp hat
          rw [if_pos hat, List.tail_drop]
          have hshift : (∀ b ∈ a :: src.filter (· ∈ D), (a :: src.filter (· ∈ D)).idxOf b + t ≤ D.idxOf b) ↔
              ∀ b ∈ src.filter (· ∈ D), (src.filter (· ∈ D)).idxOf b + (t + 1) ≤ D.idxOf b := by
            rw [List.forall_mem_cons]
            have hne : ∀ b ∈ src.filter (· ∈ D), a ≠ b := by
              rintro b hb rfl
              exact ha (List.mem_filter.mp hb).1
            constructor
            · rintro ⟨_, h⟩ b hb
              have := h b hb
              rw [List.idxOf_cons_ne _ (hne b hb)] at this
              omega
            · intro h
              refine ⟨by simpa using hle, fun b hb => ?_⟩
              have := h b hb
              rw [List.idxOf_cons_ne _ (hne b hb)]
              omega
          rw [hshift, ← ih hsrc (t + 1)]
          constructor
          · intro h b hb hbD
            rcases List.mem_cons.mp (h b (List.mem_cons_of_mem _ hb) hbD) with rfl | hk
            · exact absurd hb ha
            · exact hk
          · intro h b hb hbD
            rcases List.mem_cons.mp hb with rfl | hb
            · exact List.mem_cons_self
            · exact List.mem_cons_of_mem _ (h b hb hbD)
        · -- its place was overwritten, and it is lost
          rw [if_neg hat]
          refine iff_of_false (fun h => ?_) fun h => ?_
          · exact hat (keep_subset (h a List.mem_cons_self haD)).1
          · have := h a List.mem_cons_self
            rw [List.idxOf_cons_self] at this
            exact hat ((mem_drop_iff hD haD t).mpr (by omega))
      · rw [List.filter_cons_of_neg (by simpa using haD), ← ih hsrc t,
          if_neg fun h => haD (List.mem_of_mem_drop h)]
        constructor
        · intro h b hb hbD
          exact h b (List.mem_cons_of_mem _ hb) hbD
        · intro h b hb hbD
          rcases List.mem_cons.mp hb with rfl | hb
          · exact absurd hbD haD
          · exact h b hb hbD

/-- The addresses of `src` that are also in `dst`, in the order of `src`. -/
def common (dst src : AvSet α) : List α := src.elements.filter (· ∈ dst.elements)

/-- **Intersecting.**  The result is the intersection if and only if no common address stands further
back among the common ones of `src` than it stands in `dst`; otherwise one of them is overwritten before
it is looked for. -/
theorem intersect_iff {dst src : AvSet α} (hdst : dst.WellFormed) (hsrc : src.WellFormed) :
    (∀ a, a ∈ (dst.ofiAvSetIntersect src).elements ↔ a ∈ dst.elements ∧ a ∈ src.elements) ↔
      ∀ a ∈ dst.common src, (dst.common src).idxOf a ≤ dst.elements.idxOf a := by
  have hiff := keep_complete_iff hdst.nodup hsrc.nodup 0
  simp only [List.drop_zero, Nat.add_zero] at hiff
  unfold common
  rw [elements_intersect src hdst.room, ← hiff]
  constructor
  · intro h a ha had
    exact (h a).mpr ⟨had, ha⟩
  · intro h a
    exact ⟨keep_subset, fun ha => h a ha.2 ha.1⟩

/-- In this order an address gets lost. -/
theorem intersect_loses : ¬ ∀ a, a ∈ ((⟨[1, 2], 2⟩ : AvSet Nat).ofiAvSetIntersect ⟨[2, 1], 2⟩).elements ↔
    a ∈ (⟨[1, 2], 2⟩ : AvSet Nat).elements ∧ a ∈ (⟨[2, 1], 2⟩ : AvSet Nat).elements := by
  rw [intersect_iff ⟨by decide, by decide⟩ ⟨by decide, by decide⟩]
  decide

/-! ## §4 — subtracting -/

/-- What `ofi_av_set_diff` leaves of the addresses: every address that it finds costs it the last one. -/
def cut : List α → List α → List α
  | rest, [] => rest
  | rest, a :: src => if a ∈ rest then cut rest.dropLast src else cut rest src

theorem take_diffLoop (src : List α) {temp : Nat} (htemp : temp ≤ array.length) :
    (diffLoop src (array, temp)).1.take (diffLoop src (array, temp)).2 = cut (array.take temp) src := by
  induction src generalizing array temp with
  | nil => rfl
  | cons a src ih =>
      unfold diffLoop cut
      cases hfind : findPlace array a 0 temp with
      | none => rw [if_neg (by simpa using findPlace_eq_none.mp hfind), ih htemp]
      | some j =>
          have hmem : a ∈ array.take temp := mem_of_findPlace hfind
          have hend : (array.set (temp - 1) a).take (temp - 1) = (array.take temp).dropLast := by
            rw [List.take_set, List.set_eq_of_length_le (by simp), List.dropLast_eq_take, List.length_take,
              List.take_take, Nat.min_eq_left htemp, Nat.min_eq_left (Nat.sub_le temp 1)]
          simp only
          rw [if_pos hmem, ih (by simp; omega), hend]

theorem elements_diff {dst : AvSet α} (src : AvSet α) (h : dst.count ≤ dst.array.length) :
    (dst.ofiAvSetDiff src).elements = cut dst.elements src.elements := take_diffLoop src.elements h

theorem cut_cons (rest src : List α) (a : α) :
    cut rest (a :: src) = if a ∈ rest then cut rest.dropLast src else cut rest src := rfl

theorem cut_sublist (rest src : List α) : (cut rest src).Sublist rest := by
  induction src generalizing rest with
  | nil => exact List.Sublist.refl rest
  | cons a src ih =>
      rw [cut_cons]
      split
      · exact (ih _).trans (List.dropLast_sublist rest)
      · exact ih rest

/-- Not more is cut off than there are common addresses. -/
theorem length_le_cut (rest src : List α) :
    rest.length ≤ (cut rest src).length + (src.filter (· ∈ rest)).length := by
  induction src generalizing rest with
  | nil => simp [cut]
  | cons a src ih =>
      rw [cut_cons]
      by_cases ha : a ∈ rest
      · have hfilter : (src.filter (· ∈ rest.dropLast)).length ≤ (src.filter (· ∈ rest)).length := by
          refine (List.monotone_filter_right src fun b hb => ?_).length_le
          simp only [decide_eq_true_eq] at hb ⊢
          exact List.mem_of_mem_dropLast hb
        have := ih rest.dropLast
        rw [if_pos ha, List.filter_cons_of_pos (by simpa using ha), List.length_cons]
        rw [List.length_dropLast] at this
        omega
      · rw [if_neg ha, List.filter_cons_of_neg (by simpa using ha)]
        exact ih rest

/-- An address that is found and is not the last one costs the set another one; in the end too many are
left. -/
theorem exists_mem_cut {D src : List α} (hD : D.Nodup) (hsrc : (a :: src).Nodup) (ha : a ∈ D) :
    ∃ b ∈ cut D src, b ∈ a :: src := by
  by_contra hno
  have hdisj : ∀ b ∈ cut D src, b ∉ a :: src := fun b hb hmem => hno ⟨b, hb, hmem⟩
  have hnodup : (cut D src ++ a :: src.filter (· ∈ D)).Nodup := by
    refine List.nodup_append.mpr ⟨(cut_sublist D src).nodup hD, ?_, fun b hb c hc => ?_⟩
    · exact (List.filter_sublist.cons_cons a).nodup hsrc
    · rintro rfl
      exact hdisj b hb ((List.filter_sublist.cons_cons a).subset hc)
  have hsub : cut D src ++ a :: src.filter (· ∈ D) ⊆ D := by
    intro b hb
    rcases List.mem_append.mp hb with hb | hb
    · exact (cut_sublist D src).subset hb
    · rcases List.mem_cons.mp hb with rfl | hb
      · exact ha
      · simpa using (List.mem_filter.mp hb).2
  have hle := (List.subperm_of_subset hnodup hsub).length_le
  have hge := length_le_cut D src
  rw [List.length_append, List.length_cons] at hle
  omega

omit [DecidableEq α] in
theorem concat_suffix_concat {l l' : List α} {z : α} : l ++ [a] <:+ l' ++ [z] ↔ l <:+ l' ∧ a = z := by
  constructor
  · rintro ⟨t, ht⟩
    rw [← List.append_assoc] at ht
    obtain ⟨hl, hz⟩ := List.append_inj' ht rfl
    exact ⟨⟨t, hl⟩, List.singleton_inj.mp hz⟩
  · rintro ⟨⟨t, rfl⟩, rfl⟩
    exact ⟨t, by rw [List.append_assoc]⟩

theorem cut_iff {D src : List α} (hD : D.Nodup) (hsrc : src.Nodup) :
    (∀ a, a ∈ cut D src ↔ a ∈ D ∧ a ∉ src) ↔ (src.filter (· ∈ D)).reverse <:+ D := by
  induction src generalizing D with
  | nil => simp [cut]
  | cons a src ih =>
      obtain ⟨ha, hsrc'⟩ := List.nodup_cons.mp hsrc
      rw [cut_cons]
      by_cases haD : a ∈ D
      · rw [if_pos haD, List.filter_cons_of_pos (by simpa using haD), List.reverse_cons]
        obtain ⟨D, z, rfl⟩ : ∃ D' z, D = D' ++ [z] :=
          ⟨D.dropLast, D.getLast (List.ne_nil_of_mem haD), (List.dropLast_append_getLast _).symm⟩
        obtain ⟨hD', _, hz⟩ := List.nodup_append.mp hD
        rw [List.dropLast_concat, concat_suffix_concat]
        by_cases haz : a = z
        · -- the last address is cut off, as it should be
          subst haz
          have hfilter : src.filter (· ∈ D ++ [a]) = src.filter (· ∈ D) := by
            refine List.filter_congr fun b hb => ?_
            have : b ≠ a := by
              rintro rfl
              exact ha hb
            simp [this]
          rw [hfilter, and_iff_left rfl, ← ih hD' hsrc']
          have hsame : ∀ b, b ∈ D ++ [a] ∧ b ∉ a :: src ↔ b ∈ D ∧ b ∉ src := by
            intro b
            have : b ∈ D → b ≠ a := fun hb => hz b hb a (by simp)
            simp only [List.mem_append, List.mem_cons]
            tauto
          simp only [hsame]
        · refine iff_of_false (fun h => ?_) fun h => haz h.2
          have haD' : a ∈ D := by simpa [haz] using haD
          obtain ⟨b, hb, hmem⟩ := exists_mem_cut hD' hsrc haD'
          exact ((h b).mp hb).2 hmem
      · rw [if_neg haD, List.filter_cons_of_neg (by simpa using haD), ← ih hD hsrc']
        have hsame : ∀ b, b ∈ D ∧ b ∉ a :: src ↔ b ∈ D ∧ b ∉ src := by
          intro b
          have : b ∈ D → b ≠ a := by
            rintro hb rfl
            exact haD hb
          simp only [List.mem_cons]
          tauto
        simp only [hsame]

/-- **Subtracting.**  The result is the difference if and only if the common addresses are the end of
`dst`, in the opposite order of `src`; otherwise an address is cut off that is not the one found. -/
theorem diff_iff {dst src : AvSet α} (hdst : dst.WellFormed) (hsrc : src.WellFormed) :
    (∀ a, a ∈ (dst.ofiAvSetDiff src).elements ↔ a ∈ dst.elements ∧ a ∉ src.elements) ↔
      (dst.common src).reverse <:+ dst.elements := by
  rw [elements_diff src hdst.room]
  exact cut_iff hdst.nodup hsrc.nodup

theorem diff_loses : ¬ ∀ a, a ∈ ((⟨[1, 2], 2⟩ : AvSet Nat).ofiAvSetDiff ⟨[1], 1⟩).elements ↔
    a ∈ (⟨[1, 2], 2⟩ : AvSet Nat).elements ∧ a ∉ (⟨[1], 1⟩ : AvSet Nat).elements := by
  rw [diff_iff ⟨by decide, by decide⟩ ⟨by decide, by decide⟩]
  decide

/-! ## §5 — runs of the other functions -/

theorem unionLoop_eq (array : List α) {count : Nat} (src : List α) {temp : Nat} (hcount : count ≤ temp)
    (hroom : temp + (src.filter (· ∉ array.take count)).length ≤ array.length) :
    ∃ array', unionLoop count src (array, temp) =
        some (array', temp + (src.filter (· ∉ array.take count)).length) ∧
      array'.length = array.length ∧
      array'.take (temp + (src.filter (· ∉ array.take count)).length) =
        array.take temp ++ src.filter (· ∉ array.take count) := by
  induction src generalizing array temp with
  | nil => exact ⟨array, rfl, rfl, by simp⟩
  | cons a src ih =>
      unfold unionLoop
      cases hfind : findPlace array a 0 count with
      | some j =>
          have hmem : a ∈ array.take count := mem_of_findPlace hfind
          rw [List.filter_cons_of_neg (by simpa using hmem)] at hroom ⊢
          exact ih array hcount hroom
      | none =>
          have hmem : a ∉ array.take count := findPlace_eq_none.mp hfind
          rw [List.filter_cons_of_pos (by simpa using hmem)] at hroom ⊢
          rw [List.length_cons] at hroom
          have htake : (array.set temp a).take count = array.take count := by
            rw [List.take_set, List.set_eq_of_length_le (by simp; omega)]
          have hfront := take_set_succ a (show temp < array.length by omega)
          obtain ⟨array', heq, hlen, helems⟩ := ih (array.set temp a)
            (show count ≤ temp + 1 by omega) (by rw [htake, List.length_set]; omega)
          rw [htake] at heq helems
          rw [List.length_set] at hlen
          simp only [writePlace, if_pos (show temp < array.length by omega)]
          refine ⟨array', ?_, hlen, ?_⟩
          · rw [heq, List.length_cons, Nat.add_right_comm, Nat.add_assoc]
          · rw [hfront] at helems
            rw [List.length_cons, ← Nat.add_assoc, Nat.add_right_comm, helems, List.append_assoc]
            rfl

/-- The place of a removed address is taken by the last one. -/
theorem take_set_perm {D : List α} {z : α} {i : Nat} (hD : (D ++ [z]).Nodup) (hi : (D ++ [z])[i]? = some a) :
    (D.set i z).Perm ((D ++ [z]).erase a) := by
  rcases Nat.lt_or_ge i D.length with hlt | hge
  · rw [List.getElem?_append_left hlt] at hi
    obtain ⟨X, Y, rfl, rfl⟩ : ∃ X Y, D = X ++ a :: Y ∧ i = X.length := by
      obtain ⟨hlt', hval⟩ := List.getElem?_eq_some_iff.mp hi
      refine ⟨D.take i, D.drop (i + 1), ?_, by simp; omega⟩
      rw [← hval, List.getElem_cons_drop, List.take_append_drop]
    have hX : a ∉ X := by
      intro hmem
      rw [List.append_assoc] at hD
      exact (List.nodup_append.mp hD).2.2 a hmem a (by simp) rfl
    rw [List.set_append_right _ _ (Nat.le_refl _), Nat.sub_self, List.set_cons_zero, List.append_assoc,
      List.erase_append_right _ hX, List.cons_append, List.erase_cons_head]
    exact (List.perm_append_singleton z Y).symm.append_left X
  · -- it is the last one
    rw [List.getElem?_append_right hge] at hi
    obtain ⟨_, rfl⟩ : i = D.length ∧ z = a := by
      have := (List.getElem?_eq_some_iff.mp hi).1
      simp only [List.length_singleton] at this
      obtain rfl : i = D.length := by omega
      exact ⟨rfl, by simpa using hi⟩
    have hz : z ∉ D := fun hmem => (List.nodup_append.mp hD).2.2 z hmem z (by simp) rfl
    rw [List.set_eq_of_length_le hge, List.erase_append_right _ hz, List.erase_cons_head, List.append_nil]

theorem insert_spec {s : AvSet α} (h : s.WellFormed) (hroom : a ∉ s.elements → s.count < s.array.length) :
    ∃ s' ret, s.ofiAvSetInsert a = some (s', ret) ∧ s'.WellFormed ∧ s'.array.length = s.array.length ∧
      s'.elements.toFinset = insert a s.elements.toFinset ∧ (ret = .einval ↔ a ∈ s.elements) := by
  unfold ofiAvSetInsert
  cases hfind : findPlace s.array a 0 s.count with
  | some j =>
      have hmem : a ∈ s.elements := mem_of_findPlace hfind
      exact ⟨s, .einval, rfl, h, rfl, by simp [hmem], by simp [hmem]⟩
  | none =>
      have hmem : a ∉ s.elements := findPlace_eq_none.mp hfind
      have hlt := hroom hmem
      have helems : (⟨s.array.set s.count a, s.count + 1⟩ : AvSet α).elements = s.elements ++ [a] :=
        take_set_succ a hlt
      refine ⟨⟨s.array.set s.count a, s.count + 1⟩, .success, by simp [writePlace, hlt], ⟨?_, ?_⟩, by simp, ?_,
        by simp [hmem]⟩
      · simp only [List.length_set]
        omega
      · rw [helems]
        exact List.nodup_append.mpr ⟨h.nodup, by simp, by simpa using fun b hb => by rintro rfl; exact hmem hb⟩
      · rw [helems]
        ext b
        simp

theorem remove_spec {s : AvSet α} (h : s.WellFormed) (a : α) :
    (s.ofiAvSetRemove a).1.WellFormed ∧ (s.ofiAvSetRemove a).1.array.length = s.array.length ∧
      (s.ofiAvSetRemove a).1.elements.toFinset = s.elements.toFinset.erase a ∧
      ((s.ofiAvSetRemove a).2 = .einval ↔ a ∉ s.elements) := by
  unfold ofiAvSetRemove
  cases hfind : findPlace s.array a 0 s.count with
  | none =>
      have hmem : a ∉ s.elements := findPlace_eq_none.mp hfind
      exact ⟨h, rfl, by simp [hmem], by simp [hmem]⟩
  | some i =>
      obtain ⟨_, hi, hval⟩ := findPlace_eq_some hfind
      have hmem : a ∈ s.elements := mem_of_findPlace hfind
      have hroom := h.room
      have hlast : s.array[s.count - 1]? = some s.array[s.count - 1] := List.getElem?_eq_getElem (by omega)
      simp only [hlast]
      generalize s.array[s.count - 1] = z at hlast
      have hD : s.elements = s.array.take (s.count - 1) ++ [z] := by
        obtain ⟨hlt, hz⟩ := List.getElem?_eq_some_iff.mp hlast
        rw [elements, ← hz, ← List.take_succ_eq_append_getElem, Nat.sub_add_cancel (by omega)]
      have helems : (⟨s.array.set i z, s.count - 1⟩ : AvSet α).elements = (s.array.take (s.count - 1)).set i z :=
        List.take_set
      have hperm : ((s.array.take (s.count - 1)).set i z).Perm (s.elements.erase a) := by
        rw [hD]
        refine take_set_perm (hD ▸ h.nodup) ?_
        rw [← hD, elements, List.getElem?_take_of_lt hi]
        exact hval
      refine ⟨⟨?_, ?_⟩, by simp, ?_, by simp [hmem]⟩
      · simp only [List.length_set]
        omega
      · rw [helems, hperm.nodup_iff]
        exact h.nodup.erase a
      · rw [helems, List.toFinset_eq_of_perm _ _ hperm]
        ext b
        simp [h.nodup.mem_erase_iff]

omit [DecidableEq α] in
theorem WellFormed.length {s : AvSet α} (h : s.WellFormed) : s.elements.length = s.count := by
  rw [elements, List.length_take, Nat.min_eq_left h.room]

theorem union_spec {s src : AvSet α} (h : s.WellFormed) (hsrc : src.WellFormed)
    (hroom : s.count + (src.elements.filter (· ∉ s.elements)).length ≤ s.array.length) :
    ∃ s', s.ofiAvSetUnion src = some s' ∧ s'.WellFormed ∧ s'.array.length = s.array.length ∧
      s'.elements.toFinset = s.elements.toFinset ∪ src.elements.toFinset := by
  obtain ⟨array, heq, hlen, helems⟩ := unionLoop_eq s.array src.elements (Nat.le_refl s.count) hroom
  refine ⟨⟨array, _⟩, by rw [ofiAvSetUnion, heq]; rfl, ⟨?_, ?_⟩, hlen, ?_⟩
  · rw [hlen]
    exact hroom
  · show (array.take _).Nodup
    rw [helems]
    refine List.nodup_append.mpr ⟨h.nodup, hsrc.nodup.filter _, ?_⟩
    rintro a ha b hb rfl
    exact (by simpa using (List.mem_filter.mp hb).2 : a ∉ s.array.take s.count) ha
  · show (array.take _).toFinset = _
    rw [helems]
    ext a
    simp only [elements, List.mem_toFinset, List.mem_append, List.mem_filter, decide_eq_true_eq,
      Finset.mem_union]
    tauto

/-- The calls that change a set. -/
inductive Op (α : Type) where
  | insert (addr : α)
  | remove (addr : α)
  | union (src : AvSet α)

/-- The addresses that are used are in the vector. -/
def Op.Of (av : AvSet α) : Op α → Prop
  | .insert addr => addr ∈ av.elements
  | .remove _ => True
  | .union src => src.WellFormed ∧ src.elements ⊆ av.elements

/-- A call, with what the calls have returned; there is no next state when it writes behind the array. -/
def step (st : AvSet α × List AvSetRet) : Op α → Except Unit (AvSet α × List AvSetRet)
  | .insert addr =>
    match st.1.ofiAvSetInsert addr with
    | none => .error ()
    | some (s, ret) => .ok (s, st.2 ++ [ret])
  | .remove addr => .ok ((st.1.ofiAvSetRemove addr).1, st.2 ++ [(st.1.ofiAvSetRemove addr).2])
  | .union src =>
    match st.1.ofiAvSetUnion src with
    | none => .error ()
    | some s => .ok (s, st.2 ++ [.success])

/-- The same on a finite set. -/
def Op.onFinset (st : Finset α × List AvSetRet) : Op α → Finset α × List AvSetRet
  | .insert addr => (Insert.insert addr st.1, st.2 ++ [if addr ∈ st.1 then .einval else .success])
  | .remove addr => (st.1.erase addr, st.2 ++ [if addr ∈ st.1 then .success else .einval])
  | .union src => (st.1 ∪ src.elements.toFinset, st.2 ++ [.success])

theorem ret_eq_ite {p : Prop} [Decidable p] {ret : AvSetRet} (h : ret = .einval ↔ p) :
    ret = if p then .einval else .success := by
  split
  · rename_i hp
    exact h.mpr hp
  · rename_i hp
    cases ret with
    | success => rfl
    | einval => exact absurd (h.mp rfl) hp

/-- A set within the addresses of the vector. -/
structure InVector (av s : AvSet α) : Prop where
  wellFormed : s.WellFormed
  capacity : s.array.length = av.array.length
  subset : s.elements ⊆ av.elements

omit [DecidableEq α] in
/-- There is room for what is not in the set yet. -/
theorem InVector.room {av s : AvSet α} (h : InVector av s) (hav : av.WellFormed) {l : List α} (hl : l.Nodup)
    (hsub : l ⊆ av.elements) (hnew : ∀ a ∈ l, a ∉ s.elements) : s.count + l.length ≤ s.array.length := by
  have hnodup : (s.elements ++ l).Nodup :=
    List.nodup_append.mpr ⟨h.wellFormed.nodup, hl, fun a ha b hb => by rintro rfl; exact hnew a hb ha⟩
  have hle := (List.subperm_of_subset hnodup (List.append_subset.mpr ⟨h.subset, hsub⟩)).length_le
  rw [List.length_append, h.wellFormed.length, hav.length] at hle
  have := hav.room
  rw [h.capacity]
  omega

/-- One call does what it does on the finite set. -/
theorem InVector.step {av s : AvSet α} (h : InVector av s) (hav : av.WellFormed) {op : Op α} (hop : op.Of av)
    (rets : List AvSetRet) :
    ∃ s' rets', AvSet.step (s, rets) op = .ok (s', rets') ∧ InVector av s' ∧
      (s'.elements.toFinset, rets') = op.onFinset (s.elements.toFinset, rets) := by
  cases op with
  | insert addr =>
      have hroom : addr ∉ s.elements → s.count < s.array.length := by
        intro hnew
        exact h.room hav (List.nodup_singleton addr) (by simpa using (show addr ∈ av.elements from hop)) (by simpa using hnew)
      obtain ⟨s', ret, heq, hwf, hlen, helems, hret⟩ := insert_spec h.wellFormed hroom
      refine ⟨s', rets ++ [ret], by simp only [AvSet.step, heq], ⟨hwf, hlen.trans h.capacity, ?_⟩, ?_⟩
      · intro b hb
        have hb := List.mem_toFinset.mpr hb
        rw [helems, Finset.mem_insert, List.mem_toFinset] at hb
        rcases hb with rfl | hb
        · exact hop
        · exact h.subset hb
      · simp only [Op.onFinset, helems, List.mem_toFinset, ret_eq_ite hret]
  | remove addr =>
      obtain ⟨hwf, hlen, helems, hret⟩ := remove_spec h.wellFormed addr
      refine ⟨_, _, rfl, ⟨hwf, hlen.trans h.capacity, ?_⟩, ?_⟩
      · intro b hb
        have hb := List.mem_toFinset.mpr hb
        rw [helems, Finset.mem_erase, List.mem_toFinset] at hb
        exact h.subset hb.2
      · simp only [Op.onFinset, helems, List.mem_toFinset, ret_eq_ite hret, ite_not]
  | union src =>
      obtain ⟨hsrc, hsub⟩ := hop
      have hroom := h.room hav (hsrc.nodup.filter (· ∉ s.elements))
        (fun a ha => hsub (List.mem_filter.mp ha).1) (fun a ha => by simpa using (List.mem_filter.mp ha).2)
      obtain ⟨s', heq, hwf, hlen, helems⟩ := union_spec h.wellFormed hsrc hroom
      refine ⟨s', rets ++ [.success], by simp only [AvSet.step, heq], ⟨hwf, hlen.trans h.capacity, ?_⟩, ?_⟩
      · intro b hb
        have hb := List.mem_toFinset.mpr hb
        rw [helems, Finset.mem_union, List.mem_toFinset, List.mem_toFinset] at hb
        rcases hb with hb | hb
        · exact h.subset hb
        · exact hsub hb
      · simp only [Op.onFinset, helems]

theorem InVector.run {av s : AvSet α} (h : InVector av s) (hav : av.WellFormed) {ops : List (Op α)}
    (hops : ∀ op ∈ ops, op.Of av) (rets : List AvSetRet) :
    ∃ s' rets', Lib.run AvSet.step (s, rets) ops = .ok (s', rets') ∧ InVector av s' ∧
      (s'.elements.toFinset, rets') = ops.foldl Op.onFinset (s.elements.toFinset, rets) := by
  induction ops generalizing s rets with
  | nil => exact ⟨s, rets, rfl, h, rfl⟩
  | cons op ops ih =>
      obtain ⟨s₁, rets₁, hstep, h₁, heq₁⟩ := h.step hav (hops op List.mem_cons_self) rets
      obtain ⟨s', rets', hrun, h', heq⟩ := ih h₁ (fun o ho => hops o (List.mem_cons_of_mem _ ho)) rets₁
      refine ⟨s', rets', run_cons_ok.mpr ⟨_, hstep, hrun⟩, h', ?_⟩
      rw [heq, List.foldl_cons, ← heq₁]

omit [DecidableEq α] in
theorem avSetLoop_eq (av array : List α) (stride n iter : Nat) (hlen : iter + n ≤ array.length)
    (hread : ∀ j < n, (iter + j) * stride < av.length) :
    ∃ array', avSetLoop av stride n iter array = some array' ∧ array'.length = array.length ∧
      array'.take iter = array.take iter ∧
      ∀ j < n, array'[iter + j]? = av[(iter + j) * stride]? := by
  induction n generalizing iter array with
  | zero => exact ⟨array, rfl, rfl, rfl, fun j hj => absurd hj (Nat.not_lt_zero j)⟩
  | succ n ih =>
      have hfirst := hread 0 (by omega)
      rw [Nat.add_zero] at hfirst
      unfold avSetLoop
      rw [List.getElem?_eq_getElem hfirst]
      simp only [writePlace, if_pos (show iter < array.length by omega)]
      obtain ⟨array', heq, hlen', htake, hvals⟩ := ih (array.set iter av[iter * stride])
        (iter + 1) (by rw [List.length_set]; omega)
        (fun j hj => by have := hread (j + 1) (by omega); rwa [← Nat.add_assoc, Nat.add_right_comm] at this)
      rw [take_set_succ _ (by omega)] at htake
      have hiter : array'[iter]? = some av[iter * stride] := by
        have := congrArg (·[iter]?) htake
        simp only [List.getElem?_take_of_lt (Nat.lt_succ_self iter)] at this
        rw [this, List.getElem?_append_right (by simp)]
        simp [Nat.min_eq_left (show iter ≤ array.length by omega)]
      refine ⟨array', heq, by rw [hlen', List.length_set], ?_, fun j hj => ?_⟩
      · have := congrArg (·.take iter) htake
        simp only [List.take_take, Nat.min_eq_left (Nat.le_succ iter)] at this
        rw [this, List.take_append_of_le_length (by simp; omega), List.take_take, Nat.min_self]
      · cases j with
        | zero => rw [Nat.add_zero, hiter, List.getElem?_eq_getElem hfirst]
        | succ j =>
            have := hvals j (by omega)
            rwa [Nat.add_right_comm iter 1 j] at this

omit [DecidableEq α] in
/-- A new set has every so many addresses of the vector. -/
theorem ofiAvSet_spec {av : AvSet α} (hav : av.WellFormed) (zero : α) {count stride : Nat}
    (hstride : stride ≠ 0) (hcount : count = 0 ∨ (count - 1) * stride < av.count) :
    ∃ s, av.ofiAvSet zero count stride = some s ∧ InVector av s ∧ s.count = count ∧
      ∀ j < count, s.elements[j]? = av.elements[j * stride]? := by
  have hread : ∀ j < count, j * stride < av.count := by
    intro j hj
    have : j * stride ≤ (count - 1) * stride := Nat.mul_le_mul_right stride (by omega)
    omega
  have hroom := hav.room
  have hle : count ≤ av.array.length := by
    have hmul : (count - 1) * 1 ≤ (count - 1) * stride := Nat.mul_le_mul_left _ (by omega)
    omega
  obtain ⟨array, heq, hlen, _, hvals⟩ := avSetLoop_eq av.array
    (List.replicate av.array.length zero) stride count 0
    (by simpa using hle) (fun j hj => by have := hread j hj; rw [Nat.zero_add]; omega)
  rw [List.length_replicate] at hlen
  have helems : ∀ j < count, (⟨array, count⟩ : AvSet α).elements[j]? = av.elements[j * stride]? := by
    intro j hj
    have := hvals j hj
    rw [Nat.zero_add] at this
    rw [elements, elements, List.getElem?_take_of_lt hj, List.getElem?_take_of_lt (hread j hj), this]
  have hlength : (⟨array, count⟩ : AvSet α).elements.length = count := by
    show (array.take count).length = count
    rw [List.length_take]
    omega
  refine ⟨⟨array, count⟩, by rw [ofiAvSet, heq]; rfl, ⟨⟨by rw [hlen]; exact hle, ?_⟩, hlen, ?_⟩, rfl, helems⟩
  · -- different places are different places of the vector
    rw [List.nodup_iff_getElem?_ne_getElem?]
    intro i j hij hj
    rw [helems i (by omega), helems j (by omega)]
    refine List.nodup_iff_getElem?_ne_getElem?.mp hav.nodup _ _ ?_ ?_
    · exact Nat.mul_lt_mul_of_pos_right hij (Nat.pos_of_ne_zero hstride)
    · rw [hav.length]
      exact hread j (by omega)
  · intro a ha
    obtain ⟨j, hj⟩ := List.mem_iff_getElem?.mp ha
    have := (List.getElem?_eq_some_iff.mp hj).1
    rw [helems j (by omega)] at hj
    exact List.mem_of_getElem? hj

/-- **The sets.**  From a set made of addresses of the vector on, any calls that insert, remove and unite
addresses of the vector stay within the array, never have an address twice, and have the effects and
return values of the same calls on a finite set. -/
theorem av_set_refines {av : AvSet α} (hav : av.WellFormed) (zero : α) {count stride : Nat}
    (hstride : stride ≠ 0) (hcount : count = 0 ∨ (count - 1) * stride < av.count) {ops : List (Op α)}
    (hops : ∀ op ∈ ops, op.Of av) :
    ∃ s₀ s rets, av.ofiAvSet zero count stride = some s₀ ∧ run step (s₀, []) ops = .ok (s, rets) ∧
      s.WellFormed ∧ s.elements ⊆ av.elements ∧
      (s.elements.toFinset, rets) = ops.foldl Op.onFinset (s₀.elements.toFinset, []) := by
  obtain ⟨s₀, hs₀, h, _⟩ := ofiAvSet_spec hav zero hstride hcount
  obtain ⟨s, rets, hrun, h', heq⟩ := h.run hav hops []
  exact ⟨s₀, s, rets, hs₀, hrun, h'.wellFormed, h'.subset, heq⟩

theorem av_set_refines_four : ∃ s₀ s rets,
    (⟨[10, 11, 12, 13], 4⟩ : AvSet Nat).ofiAvSet 0 2 2 = some s₀ ∧
    run step (s₀, []) [.insert 11, .insert 10, .remove 12, .union ⟨[13, 10], 2⟩] = .ok (s, rets) ∧
    s.WellFormed ∧ s.elements.toFinset = {10, 11, 13} ∧ rets = [.success, .einval, .success, .success] := by
  have hav : (⟨[10, 11, 12, 13], 4⟩ : AvSet Nat).WellFormed := ⟨by decide, by decide⟩
  have hops : ∀ op ∈ ([.insert 11, .insert 10, .remove 12, .union ⟨[13, 10], 2⟩] : List (Op Nat)),
      op.Of ⟨[10, 11, 12, 13], 4⟩ := by
    simp only [List.forall_mem_cons]
    exact ⟨by show _ ∈ _; decide, by show _ ∈ _; decide, trivial, ⟨⟨by decide, by decide⟩, by decide⟩, by simp⟩
  obtain ⟨s₀, s, rets, hs₀, hrun, hwf, _, heq⟩ := av_set_refines hav 0 (show 2 ≠ 0 by decide)
    (show 2 = 0 ∨ (2 - 1) * 2 < 4 by decide) hops
  refine ⟨s₀, s, rets, hs₀, hrun, hwf, ?_⟩
  cases hs₀
  exact Prod.mk.inj (heq.trans (by decide))

end AvSet

end SstTransports.Util
