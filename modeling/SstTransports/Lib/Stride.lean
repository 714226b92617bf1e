/-
# SstTransports.Lib.Stride — a list scan whose loop advances its iterator twice a round.

The loop

    for (it = begin(); it != end(); ++it) { tmp = it++; if (test(*tmp)) … }

examines position 0, then position 2, then position 4: the body's own `it++` already moved past the
element, and the loop header moves once more.  On a list of odd length without a match the last
`it++` reaches `end()` and the header advances past it, which no iterator may do; `strideScan`
reports that as the fault `pastEnd`.

`everyOther` names the elements such a scan looks at; `strideScan_ok_none`, `split_of_strideScan` and
`strideScan_of_split` say when it returns and what it has found.  `strideLoop` is the same loop with a
record of the positions it dereferences, and `strideLoop_inOrder_iff` says when these are the positions
a loop that advances once would dereference.
-/
import Mathlib.Algebra.Group.Nat.Even
import Mathlib.Tactic.Cases

namespace SstTransports.Lib

variable {α ε : Type*}

/-- The elements at the positions 0, 2, 4, … -/
def everyOther : List α → List α
  | [] => []
  | [x] => [x]
  | x :: _ :: xs => x :: everyOther xs

theorem mem_of_mem_everyOther {x : α} : ∀ {l : List α}, x ∈ everyOther l → x ∈ l := by
  intro l
  induction l using everyOther.induct with
  | case1 => exact id
  | case2 y => exact id
  | case3 y z l ih =>
      intro h
      simp only [everyOther, List.mem_cons] at h ⊢
      rcases h with rfl | h
      · exact Or.inl rfl
      · exact Or.inr (Or.inr (ih h))

/-- After a stretch of even length the scan is in step with the rest of the list. -/
theorem everyOther_append {pre : List α} (h : Even pre.length) (l : List α) :
    everyOther (pre ++ l) = everyOther pre ++ everyOther l := by
  induction pre using everyOther.induct with
  | case1 => rfl
  | case2 y => simp at h
  | case3 y z pre ih =>
      have hpre : Even pre.length := by
        simpa [List.length_cons, Nat.even_add_one] using h
      simp only [List.cons_append, everyOther, ih hpre]

theorem mem_everyOther_middle {pre post : List α} {x : α} (h : Even pre.length) :
    x ∈ everyOther (pre ++ x :: post) := by
  rw [everyOther_append h]
  cases post <;> simp [everyOther]

theorem everyOther_map {β : Type*} (f : α → β) (l : List α) :
    everyOther (l.map f) = (everyOther l).map f := by
  induction l using everyOther.induct with
  | case1 => rfl
  | case2 y => rfl
  | case3 y z l ih => simp only [List.map_cons, everyOther, ih]

/-- The scan: the first examined element that passes the test, with its position, or `none` when the
iterator meets `end()` exactly. -/
def strideScan (pastEnd : ε) (test : α → Except ε Bool) : List α → Except ε (Option (Nat × α))
  | [] => .ok none                                   -- `it == end()`
  | x :: rest =>
    match test x with                                -- `*tmp`, after `it++`
    | .error e => .error e
    | .ok true => .ok (some (0, x))
    | .ok false =>
      match rest with                                -- the header's `++it`
      | [] => .error pastEnd
      | _ :: rest => (strideScan pastEnd test rest).map (Option.map (Prod.map (· + 2) id))

variable {pastEnd : ε} {test : α → Except ε Bool}

/-- A scan finds nothing exactly if the list has even length and no examined element passes. -/
theorem strideScan_ok_none {l : List α} :
    strideScan pastEnd test l = .ok none ↔
      Even l.length ∧ ∀ y ∈ everyOther l, test y = .ok false := by
  induction l using everyOther.induct with
  | case1 => simp [strideScan, everyOther]
  | case2 y =>
      simp only [strideScan]
      cases test y with
      | error e => simp
      | ok b => cases b <;> simp
  | case3 y z l ih =>
      simp only [strideScan, everyOther, List.forall_mem_cons]
      cases hy : test y with
      | error e => simp
      | ok b =>
          cases b with
          | true => simp
          | false =>
              have hlen : Even (y :: z :: l).length ↔ Even l.length := by
                simp [List.length_cons, Nat.even_add_one]
              rw [hlen]
              cases hs : strideScan pastEnd test l with
              | error e => simp_all [Except.map]
              | ok r => cases r <;> simp_all [Except.map]

theorem strideScan_cons_of_true {x : α} {l : List α} (h : test x = .ok true) :
    strideScan pastEnd test (x :: l) = .ok (some (0, x)) := by
  cases l <;> simp [strideScan, h]

theorem strideScan_cons_cons_of_false {x y : α} {l : List α} (h : test x = .ok false) :
    strideScan pastEnd test (x :: y :: l) =
      (strideScan pastEnd test l).map (Option.map (Prod.map (· + 2) id)) := by
  simp [strideScan, h]

/-- What a scan returns, it has found: an element at an even position that passes, with no
examined element before it passing. -/
theorem split_of_strideScan {l : List α} {k : Nat} {z : α}
    (h : strideScan pastEnd test l = .ok (some (k, z))) :
    ∃ pre post, l = pre ++ z :: post ∧ pre.length = k ∧ Even k ∧ test z = .ok true ∧
      ∀ y ∈ everyOther pre, test y = .ok false := by
  induction l using everyOther.induct generalizing k with
  | case1 => simp [strideScan] at h
  | case2 x =>
      cases hx : test x with
      | error e => simp [strideScan, hx] at h
      | ok b =>
          cases b with
          | false => simp [strideScan, hx] at h
          | true =>
              rw [strideScan_cons_of_true hx] at h
              cases h
              exact ⟨[], [], rfl, rfl, ⟨0, rfl⟩, hx, by simp [everyOther]⟩
  | case3 x y l ih =>
      cases hx : test x with
      | error e => simp [strideScan, hx] at h
      | ok b =>
          cases b with
          | true =>
              rw [strideScan_cons_of_true hx] at h
              cases h
              exact ⟨[], y :: l, rfl, rfl, ⟨0, rfl⟩, hx, by simp [everyOther]⟩
          | false =>
              rw [strideScan_cons_cons_of_false hx] at h
              cases hs : strideScan pastEnd test l with
              | error e => simp [hs, Except.map] at h
              | ok r =>
                  cases r with
                  | none => simp [hs, Except.map] at h
                  | some found =>
                      obtain ⟨j, w⟩ := found
                      obtain ⟨rfl, rfl⟩ : j + 2 = k ∧ w = z := by simpa [hs, Except.map] using h
                      obtain ⟨pre, post, rfl, rfl, heven, hz, hpre⟩ := ih hs
                      refine ⟨x :: y :: pre, post, rfl, rfl, heven.add ⟨1, rfl⟩, hz, ?_⟩
                      simpa [everyOther, hx] using hpre

/-- A scan does return the first examined element that passes. -/
theorem strideScan_of_split {pre post : List α} {x : α} (heven : Even pre.length)
    (hx : test x = .ok true) (hpre : ∀ y ∈ everyOther pre, test y = .ok false) :
    strideScan pastEnd test (pre ++ x :: post) = .ok (some (pre.length, x)) := by
  induction pre using everyOther.induct with
  | case1 => exact strideScan_cons_of_true hx
  | case2 y => simp at heven
  | case3 y z pre ih =>
      simp only [everyOther, List.forall_mem_cons] at hpre
      have hlen : Even pre.length := by
        simpa [List.length_cons, Nat.even_add_one] using heven
      rw [List.cons_append, List.cons_append, strideScan_cons_cons_of_false hpre.1,
        ih hlen hpre.2]
      rfl

/-! ## The positions a scan examines -/

/-- How a scan ended, and the positions it dereferenced on the way. -/
structure Scanned (ε α : Type*) where
  examined : List Nat
  outcome : Except ε (Option (Nat × α))

/-- The scan with its record.  `it` is the stretch of the list from the iterator on, so that `[]` is
`end()`, and `pos` the number of elements before it. -/
def strideLoop (pastEnd : ε) (test : α → Except ε Bool) (pos : Nat) : (it : List α) → Scanned ε α
  | [] => ⟨[], .ok none⟩
  | x :: it =>
    match test x with
    | .error e => ⟨[pos], .error e⟩
    | .ok true => ⟨[pos], .ok (some (pos, x))⟩
    | .ok false =>
      match it with
      | [] => ⟨[pos], .error pastEnd⟩
      | _ :: it =>
        let r := strideLoop pastEnd test (pos + 2) it
        { r with examined := pos :: r.examined }

theorem strideLoop_outcome (pos : Nat) (l : List α) :
    (strideLoop pastEnd test pos l).outcome =
      (strideScan pastEnd test l).map (Option.map (Prod.map (· + pos) id)) := by
  induction l using everyOther.induct generalizing pos with
  | case1 => rfl
  | case2 x =>
      unfold strideLoop strideScan
      cases test x with
      | error e => rfl
      | ok b => cases b <;> simp [Except.map]
  | case3 x y l ih =>
      cases hx : test x with
      | error e => simp [strideLoop, strideScan, hx, Except.map]
      | ok b =>
          cases b with
          | true => simp [strideLoop, strideScan, hx, Except.map]
          | false =>
              rw [strideScan_cons_cons_of_false hx]
              simp only [strideLoop, hx, ih]
              cases strideScan pastEnd test l with
              | error e => rfl
              | ok r => cases r <;> simp [Except.map, Prod.map, Nat.add_comm, Nat.add_left_comm]

/-- A scan never looks back. -/
theorem le_of_mem_examined {pos k : Nat} {l : List α}
    (h : k ∈ (strideLoop pastEnd test pos l).examined) : pos ≤ k := by
  induction l using everyOther.induct generalizing pos with
  | case1 => simp [strideLoop] at h
  | case2 x =>
      unfold strideLoop at h
      cases hx : test x with
      | error e => simp_all
      | ok b => cases b <;> simp_all
  | case3 x y l ih =>
      unfold strideLoop at h
      cases hx : test x with
      | error e => simp_all
      | ok b =>
          cases b with
          | true => simp_all
          | false =>
              simp only [hx, List.mem_cons] at h
              rcases h with rfl | h
              · exact le_refl k
              · have := ih h
                omega

/-- The positions up to the first element that passes, or all of them. -/
def positionsInOrder (p : α → Bool) (l : List α) : List Nat :=
  List.range (min (l.findIdx p + 1) l.length)

/-- **When nothing is skipped.** A scan returns, and has examined every position up to the first
element that passes, exactly if the list is empty or its first element passes: without a match at
position 0 the scan leaves out position 1, and if there is none it runs past the end. -/
theorem strideLoop_inOrder_iff {p : α → Bool} (hp : ∀ x b, test x = .ok b → b = p x)
    (l : List α) :
    ((∃ found, strideScan pastEnd test l = .ok found) ∧
        (strideLoop pastEnd test 0 l).examined = positionsInOrder p l) ↔
      ∀ x ∈ l.head?, test x = .ok true := by
  cases l with
  | nil => simp [strideScan, strideLoop, positionsInOrder]
  | cons x l =>
      simp only [List.head?_cons, Option.mem_some_iff, forall_eq']
      cases hx : test x with
      | error e =>
          unfold strideScan
          simp [hx]
      | ok b =>
          cases b with
          | true =>
              have hpx : p x = true := (hp x true hx).symm
              refine iff_of_true ⟨⟨_, strideScan_cons_of_true hx⟩, ?_⟩ rfl
              unfold strideLoop
              simp [hx, positionsInOrder, List.findIdx_cons, hpx]
          | false =>
              have hpx : p x = false := (hp x false hx).symm
              refine iff_of_false ?_ (by simp)
              rintro ⟨⟨found, hfound⟩, hexamined⟩
              cases l with
              | nil => simp [strideScan, hx] at hfound
              | cons y l =>
                  have hone : 1 ∈ positionsInOrder p (x :: y :: l) := by
                    simp [positionsInOrder, List.findIdx_cons, hpx]
                  rw [← hexamined] at hone
                  simp only [strideLoop, hx, List.mem_cons] at hone
                  rcases hone with hone | hone
                  · cases hone
                  · have := le_of_mem_examined hone
                    omega

end SstTransports.Lib
