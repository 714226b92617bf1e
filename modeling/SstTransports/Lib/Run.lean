/-
# SstTransports.Lib.Run — finite runs of a step function that can fault.

A component is a step function `step : σ → α → Except ε σ`: from a state and an action it returns
the next state, or a fault after which there is no next state.  A run is a list of actions; it
reaches a state exactly when none of its steps faults.

Three kinds of statement about runs recur, and each has its rule here:

* an invariant of the history and the state, carried by one step lemma (`run_induction`);
* a condition on the steps which is not only enough for an invariant but exact, because every step
  that breaks the condition also breaks the invariant (`everyState_iff_stepsMeet`, and with a
  stronger invariant to carry along `everyState_iff_stepsMeet_of_invariant`; for two conditions on
  the steps `stepsMeet_iff_of_invariant`);
* a second run which takes only some of the actions and is simulated by the first
  (`run_filter_simulation`), or takes others in their place (`run_eq_of_stepsMeet`).
-/
import Mathlib.Data.List.Infix

namespace SstTransports.Lib

universe u v

variable {σ α ε : Type*}

/-- A computation that returns has returned from its first part. -/
theorem bind_eq_ok {ε : Type u} {α β : Type v} {x : Except ε α} {f : α → Except ε β} {b : β} :
    x >>= f = .ok b ↔ ∃ a, x = .ok a ∧ f a = .ok b := by
  cases x with
  | ok a =>
      constructor
      · intro h
        exact ⟨a, rfl, h⟩
      · rintro ⟨a', ha, h⟩
        cases ha
        exact h
  | error e =>
      constructor
      · intro h
        cases h
      · rintro ⟨a, ha, _⟩
        cases ha

/-! ## §1 — runs -/

/-- Take the actions in order, stopping at the first fault. -/
def run (step : σ → α → Except ε σ) : σ → List α → Except ε σ
  | s, [] => .ok s
  | s, a :: as =>
    match step s a with
    | .ok s' => run step s' as
    | .error e => .error e

variable {step : σ → α → Except ε σ}

@[simp] theorem run_nil (s : σ) : run step s [] = .ok s := rfl

theorem run_cons_ok {s t : σ} {a : α} {as : List α} :
    run step s (a :: as) = .ok t ↔ ∃ s', step s a = .ok s' ∧ run step s' as = .ok t := by
  simp only [run]
  cases step s a with
  | ok s' => simp
  | error e => simp

theorem run_append_ok {s t : σ} {as bs : List α} :
    run step s (as ++ bs) = .ok t ↔ ∃ s', run step s as = .ok s' ∧ run step s' bs = .ok t := by
  induction as generalizing s with
  | nil => simp
  | cons a as ih =>
      simp only [List.cons_append, run_cons_ok, ih]
      constructor
      · rintro ⟨s₁, h₁, s₂, h₂, h₃⟩
        exact ⟨s₂, ⟨s₁, h₁, h₂⟩, h₃⟩
      · rintro ⟨s₂, ⟨s₁, h₁, h₂⟩, h₃⟩
        exact ⟨s₁, h₁, s₂, h₂, h₃⟩

theorem run_snoc_ok {s t : σ} {as : List α} {a : α} :
    run step s (as ++ [a]) = .ok t ↔ ∃ s', run step s as = .ok s' ∧ step s' a = .ok t := by
  rw [run_append_ok]
  simp only [run_cons_ok, run_nil]
  constructor
  · rintro ⟨s', h, t', ht, heq⟩
    cases heq
    exact ⟨s', h, ht⟩
  · rintro ⟨s', h, ht⟩
    exact ⟨s', h, t, ht, rfl⟩

/-- **The invariant rule.** What holds at the start and is kept by every step holds in the state a
run ends in.  The invariant may speak of the actions taken so far. -/
theorem run_induction {P : List α → σ → Prop} {s₀ : σ} (start : P [] s₀)
    (keep : ∀ as s a s', run step s₀ as = .ok s → P as s → step s a = .ok s' → P (as ++ [a]) s') :
    ∀ {as : List α} {s : σ}, run step s₀ as = .ok s → P as s := by
  intro as
  induction as using List.reverseRecOn with
  | nil =>
      intro s h
      cases h
      exact start
  | append_singleton as a ih =>
      intro s h
      obtain ⟨s', hs', ha⟩ := run_snoc_ok.mp h
      exact keep as s' a s hs' (ih hs') ha

/-! ## §2 — conditions on the steps of a run -/

/-- Every step of the run is taken from a state in which `C` holds of the state and the action. -/
def StepsMeet (step : σ → α → Except ε σ) (C : σ → α → Prop) : σ → List α → Prop
  | _, [] => True
  | s, a :: as => C s a ∧ ∀ s', step s a = .ok s' → StepsMeet step C s' as

instance StepsMeet.decidable (C : σ → α → Prop) [∀ s a, Decidable (C s a)] :
    ∀ (s : σ) (as : List α), Decidable (StepsMeet step C s as)
  | _, [] => .isTrue trivial
  | s, a :: as =>
    match h : step s a with
    | .ok s' =>
      have := StepsMeet.decidable C s' as
      decidable_of_iff (C s a ∧ StepsMeet step C s' as) (by simp [StepsMeet, h])
    | .error _ => decidable_of_iff (C s a) (by simp [StepsMeet, h])

theorem stepsMeet_snoc {C : σ → α → Prop} {s : σ} {as : List α} {a : α} :
    StepsMeet step C s (as ++ [a]) ↔
      StepsMeet step C s as ∧ ∀ s', run step s as = .ok s' → C s' a := by
  induction as generalizing s with
  | nil => simp [StepsMeet]
  | cons b as ih =>
      simp only [List.cons_append, StepsMeet, ih, run_cons_ok]
      constructor
      · rintro ⟨hb, h⟩
        refine ⟨⟨hb, fun s' hs' => (h s' hs').1⟩, ?_⟩
        rintro t ⟨s', hs', ht⟩
        exact (h s' hs').2 t ht
      · rintro ⟨⟨hb, h⟩, ht⟩
        exact ⟨hb, fun s' hs' => ⟨h s' hs', fun t hr => ht t ⟨s', hs', hr⟩⟩⟩

/-- The next step's condition, in the state the run has reached. -/
theorem stepsMeet_snoc_of_run {C : σ → α → Prop} {s t : σ} {as : List α} {a : α}
    (h : run step s as = .ok t) :
    StepsMeet step C s (as ++ [a]) ↔ StepsMeet step C s as ∧ C t a := by
  rw [stepsMeet_snoc, h]
  simp

theorem stepsMeet_append_of_run {C : σ → α → Prop} {s t : σ} {as bs : List α}
    (h : run step s as = .ok t) :
    StepsMeet step C s (as ++ bs) ↔ StepsMeet step C s as ∧ StepsMeet step C t bs := by
  induction as generalizing s with
  | nil =>
      cases h
      simp [StepsMeet]
  | cons a as ih =>
      obtain ⟨s', hs', hrun⟩ := run_cons_ok.mp h
      simp only [List.cons_append, StepsMeet, hs', Except.ok.injEq, forall_eq', ih hrun, and_assoc]

theorem StepsMeet.of_prefix {C : σ → α → Prop} {s : σ} {as bs : List α} (h : as <+: bs)
    (hbs : StepsMeet step C s bs) : StepsMeet step C s as := by
  obtain ⟨cs, rfl⟩ := h
  induction as generalizing s with
  | nil => trivial
  | cons a as ih => exact ⟨hbs.1, fun s' hs' => ih (hbs.2 s' hs')⟩

/-- `P` holds, of the actions taken and of the state, at every point the run passes through. -/
def EveryState (step : σ → α → Except ε σ) (P : List α → σ → Prop) (s : σ) (as : List α) : Prop :=
  ∀ pre, pre <+: as → ∀ t, run step s pre = .ok t → P pre t

theorem everyState_nil {P : List α → σ → Prop} {s : σ} : EveryState step P s [] ↔ P [] s := by
  constructor
  · intro h
    exact h [] (List.prefix_refl []) s rfl
  · intro h pre hpre t ht
    obtain rfl := List.prefix_nil.mp hpre
    cases ht
    exact h

theorem everyState_snoc {P : List α → σ → Prop} {s t : σ} {as : List α} {a : α}
    (h : run step s (as ++ [a]) = .ok t) :
    EveryState step P s (as ++ [a]) ↔ EveryState step P s as ∧ P (as ++ [a]) t := by
  constructor
  · intro hall
    refine ⟨?_, hall _ (List.prefix_refl _) t h⟩
    intro pre hpre u hu
    exact hall pre (hpre.trans (List.prefix_append as [a])) u hu
  · rintro ⟨hall, hlast⟩ pre hpre u hu
    rcases List.prefix_concat_iff.mp hpre with rfl | hpre
    · rw [h] at hu
      cases hu
      exact hlast
    · exact hall pre hpre u hu

/-- **The exactness rule.** When every step from a state satisfying `P` leads to a state satisfying
`P` exactly if the step meets `C`, a run satisfies `P` throughout exactly if all its steps meet
`C`. -/
theorem everyState_iff_stepsMeet {P : List α → σ → Prop} {C : σ → α → Prop} {s₀ : σ}
    (start : P [] s₀)
    (exact_step : ∀ as s a s', run step s₀ as = .ok s → EveryState step P s₀ as →
      step s a = .ok s' → (P (as ++ [a]) s' ↔ C s a)) :
    ∀ {as : List α} {s : σ}, run step s₀ as = .ok s →
      (EveryState step P s₀ as ↔ StepsMeet step C s₀ as) := by
  intro as
  induction as using List.reverseRecOn with
  | nil =>
      intro s _
      simp [everyState_nil, StepsMeet, start]
  | append_singleton as a ih =>
      intro t h
      obtain ⟨s, hs, ha⟩ := run_snoc_ok.mp h
      rw [everyState_snoc h, stepsMeet_snoc_of_run hs, ← ih hs]
      constructor
      · rintro ⟨hall, hlast⟩
        exact ⟨hall, (exact_step as s a t hs hall ha).mp hlast⟩
      · rintro ⟨hall, hC⟩
        exact ⟨hall, (exact_step as s a t hs hall ha).mpr hC⟩

/-- The invariant rule for runs whose steps all meet a condition.  `H` is what is known of the list of
actions as a whole. -/
theorem run_induction_of_stepsMeet {P : List α → σ → Prop} {C : σ → α → Prop}
    {H : List α → Prop} {s₀ : σ} (closed : ∀ as a, H (as ++ [a]) → H as) (start : P [] s₀)
    (keep : ∀ as s a s', H (as ++ [a]) → P as s → C s a → step s a = .ok s' → P (as ++ [a]) s') :
    ∀ {as : List α} {s : σ}, H as → run step s₀ as = .ok s → StepsMeet step C s₀ as → P as s := by
  intro as
  induction as using List.reverseRecOn with
  | nil =>
      intro s _ h _
      cases h
      exact start
  | append_singleton as a ih =>
      intro t hH h hC
      obtain ⟨s, hs, ha⟩ := run_snoc_ok.mp h
      obtain ⟨hbefore, hlast⟩ := (stepsMeet_snoc_of_run hs).mp hC
      exact keep as s a t hH (ih (closed as a hH) hs hbefore) hlast ha

theorem stepsMeet_of_forall {C : σ → α → Prop} (h : ∀ s a, C s a) (s : σ) (as : List α) :
    StepsMeet step C s as := by
  induction as generalizing s with
  | nil => trivial
  | cons a as ih => exact ⟨h s a, fun s' _ => ih s'⟩

theorem stepsMeet_and {C D : σ → α → Prop} {s : σ} {as : List α} :
    StepsMeet step (fun s a => C s a ∧ D s a) s as ↔
      StepsMeet step C s as ∧ StepsMeet step D s as := by
  induction as generalizing s with
  | nil => simp [StepsMeet]
  | cons a as ih =>
      simp only [StepsMeet, ih]
      constructor
      · rintro ⟨⟨hc, hd⟩, h⟩
        exact ⟨⟨hc, fun s' hs' => (h s' hs').1⟩, hd, fun s' hs' => (h s' hs').2⟩
      · rintro ⟨⟨hc, h₁⟩, hd, h₂⟩
        exact ⟨⟨hc, hd⟩, fun s' hs' => ⟨h₁ s' hs', h₂ s' hs'⟩⟩

/-- **The exactness rule with a stronger invariant.** `P` is what is asked, `J` what the proof
carries: steps that meet `C` keep `J`, and a step from a `J` state that leads to `P` meets `C`.
`V` is what the environment promises of every step, and `H` what it promises of the list of
actions. -/
theorem everyState_iff_stepsMeet_of_invariant {P J : List α → σ → Prop} {V C : σ → α → Prop}
    {H : List α → Prop} {s₀ : σ} (closed : ∀ as a, H (as ++ [a]) → H as) (start : J [] s₀)
    (weaken : ∀ as s, J as s → P as s)
    (keep : ∀ as s a s', H (as ++ [a]) → J as s → V s a → C s a → step s a = .ok s' →
      J (as ++ [a]) s')
    (needed : ∀ as s a s', H (as ++ [a]) → J as s → V s a → step s a = .ok s' →
      P (as ++ [a]) s' → C s a) :
    ∀ {as : List α} {s : σ}, H as → run step s₀ as = .ok s → StepsMeet step V s₀ as →
      (EveryState step P s₀ as ↔ StepsMeet step C s₀ as) := by
  intro as
  induction as using List.reverseRecOn with
  | nil =>
      intro s _ _ _
      simp [everyState_nil, StepsMeet, weaken [] s₀ start]
  | append_singleton as a ih =>
      intro t hH h hV
      obtain ⟨s, hs, ha⟩ := run_snoc_ok.mp h
      obtain ⟨hVs, hVa⟩ := (stepsMeet_snoc_of_run hs).mp hV
      have hJ : StepsMeet step C s₀ as → J as s := fun hC =>
        run_induction_of_stepsMeet closed start
          (fun as s a s' hh hj hvc => keep as s a s' hh hj hvc.1 hvc.2) (closed as a hH) hs
          (stepsMeet_and.mpr ⟨hVs, hC⟩)
      rw [everyState_snoc h, stepsMeet_snoc_of_run hs, ih (closed as a hH) hs hVs]
      constructor
      · rintro ⟨hC, hP⟩
        exact ⟨hC, needed as s a t hH (hJ hC) hVa ha hP⟩
      · rintro ⟨hC, hCa⟩
        exact ⟨hC, weaken _ _ (keep as s a t hH (hJ hC) hVa hCa ha)⟩

/-- When meeting `C` is what makes a step return, a run that meets `C` returns. -/
theorem run_returns_of_stepsMeet {J : List α → σ → Prop} {C : σ → α → Prop} {s₀ : σ}
    (start : J [] s₀) (returns : ∀ as s a, J as s → C s a → ∃ s', step s a = .ok s')
    (keep : ∀ as s a s', J as s → C s a → step s a = .ok s' → J (as ++ [a]) s') :
    ∀ {as : List α}, StepsMeet step C s₀ as → ∃ s, run step s₀ as = .ok s := by
  intro as
  induction as using List.reverseRecOn with
  | nil => exact fun _ => ⟨s₀, rfl⟩
  | append_singleton as a ih =>
      intro hC
      obtain ⟨s, hs⟩ := ih (hC.of_prefix (List.prefix_append as [a]))
      obtain ⟨hCs, hCa⟩ := (stepsMeet_snoc_of_run hs).mp hC
      have hJ : J as s :=
        run_induction_of_stepsMeet (H := fun _ => True) (fun _ _ h => h) start
          (fun as s a s' _ => keep as s a s') trivial hs hCs
      obtain ⟨s', hs'⟩ := returns as s a hJ hCa
      exact ⟨s', run_snoc_ok.mpr ⟨s, hs, hs'⟩⟩

/-- When no step that meets `C` ends in a certain fault, no run of such steps does. -/
theorem run_ne_error_of_stepsMeet {J : σ → Prop} {C : σ → α → Prop} {bad : ε}
    (safe : ∀ s a, J s → C s a → step s a ≠ .error bad)
    (keep : ∀ s a s', J s → C s a → step s a = .ok s' → J s') {s : σ} {as : List α} (hJ : J s)
    (hC : StepsMeet step C s as) : run step s as ≠ .error bad := by
  induction as generalizing s with
  | nil => simp
  | cons a as ih =>
      have hsafe := safe s a hJ hC.1
      simp only [run]
      cases ha : step s a with
      | ok s' => exact ih (keep s a s' hJ hC.1 ha) (hC.2 s' ha)
      | error e =>
          rw [ha] at hsafe
          exact hsafe

/-- **The exactness rule for runs that must return.** As before, when meeting `C` is also what makes
a step return. -/
theorem run_ok_and_everyState_iff_stepsMeet {P J : List α → σ → Prop} {V C : σ → α → Prop}
    {s₀ : σ} (start : J [] s₀) (weaken : ∀ as s, J as s → P as s)
    (returns : ∀ as s a, J as s → V s a → C s a → ∃ s', step s a = .ok s')
    (keep : ∀ as s a s', J as s → V s a → C s a → step s a = .ok s' → J (as ++ [a]) s')
    (needed : ∀ as s a s', J as s → V s a → step s a = .ok s' → P (as ++ [a]) s' → C s a)
    {as : List α} (hV : StepsMeet step V s₀ as) :
    ((∃ s, run step s₀ as = .ok s) ∧ EveryState step P s₀ as) ↔ StepsMeet step C s₀ as := by
  have hexact : ∀ s, run step s₀ as = .ok s →
      (EveryState step P s₀ as ↔ StepsMeet step C s₀ as) := fun s hs =>
    everyState_iff_stepsMeet_of_invariant (H := fun _ => True) (fun _ _ h => h) start weaken
      (fun as s a s' _ => keep as s a s') (fun as s a s' _ => needed as s a s') trivial hs hV
  constructor
  · rintro ⟨⟨s, hs⟩, hP⟩
    exact (hexact s hs).mp hP
  · intro hC
    obtain ⟨s, hs⟩ := run_returns_of_stepsMeet start
      (fun as s a hj hvc => returns as s a hj hvc.1 hvc.2)
      (fun as s a s' hj hvc => keep as s a s' hj hvc.1 hvc.2) (stepsMeet_and.mpr ⟨hV, hC⟩)
    exact ⟨⟨s, hs⟩, (hexact s hs).mpr hC⟩

theorem StepsMeet.mono {C D : σ → α → Prop} (h : ∀ s a, C s a → D s a) {s : σ} {as : List α}
    (hC : StepsMeet step C s as) : StepsMeet step D s as := by
  induction as generalizing s with
  | nil => trivial
  | cons a as ih => exact ⟨h s a hC.1, fun s' hs' => ih (hC.2 s' hs')⟩

/-- **The exactness rule for conditions on steps.** Where the invariant holds, a promised step meets
`C` exactly if it meets `D`, and steps that meet `D` keep the invariant. -/
theorem stepsMeet_iff_of_invariant {J : σ → Prop} {V C D : σ → α → Prop}
    (keep : ∀ s a s', J s → V s a → D s a → step s a = .ok s' → J s')
    (exact_step : ∀ s a, J s → V s a → (C s a ↔ D s a)) {s : σ} (hJ : J s) {as : List α}
    (hV : StepsMeet step V s as) : StepsMeet step C s as ↔ StepsMeet step D s as := by
  induction as generalizing s with
  | nil => exact Iff.rfl
  | cons a as ih =>
      obtain ⟨hVa, hVs⟩ := hV
      constructor
      · rintro ⟨hC, hCs⟩
        have hD := (exact_step s a hJ hVa).mp hC
        exact ⟨hD, fun s' hs' => (ih (keep s a s' hJ hVa hD hs') (hVs s' hs')).mp (hCs s' hs')⟩
      · rintro ⟨hD, hDs⟩
        refine ⟨(exact_step s a hJ hVa).mpr hD, fun s' hs' => ?_⟩
        exact (ih (keep s a s' hJ hVa hD hs') (hVs s' hs')).mpr (hDs s' hs')

/-! ## §3 — a run that takes only some of the actions, or others -/

/-- **The projection rule.** If dropped actions do not disturb the relation and kept actions are
simulated, a run is simulated by the run of its kept actions. -/
theorem run_filter_simulation {R : σ → σ → Prop} (keep : α → Bool)
    (drop_step : ∀ s t a s', keep a = false → R s t → step s a = .ok s' → R s' t)
    (keep_step : ∀ s t a s', keep a = true → R s t → step s a = .ok s' →
      ∃ t', step t a = .ok t' ∧ R s' t') :
    ∀ {as : List α} {s s' t : σ}, R s t → run step s as = .ok s' →
      ∃ t', run step t (as.filter keep) = .ok t' ∧ R s' t' := by
  intro as
  induction as with
  | nil =>
      intro s s' t hR h
      cases h
      exact ⟨t, rfl, hR⟩
  | cons a as ih =>
      intro s s' t hR h
      obtain ⟨s₁, ha, has⟩ := run_cons_ok.mp h
      cases hk : keep a with
      | false =>
          rw [List.filter_cons_of_neg (by simp [hk])]
          exact ih (drop_step s t a s₁ hk hR ha) has
      | true =>
          obtain ⟨t₁, ht₁, hR₁⟩ := keep_step s t a s₁ hk hR ha
          obtain ⟨t', ht', hR'⟩ := ih hR₁ has
          rw [List.filter_cons_of_pos hk]
          exact ⟨t', run_cons_ok.mpr ⟨t₁, ht₁, ht'⟩, hR'⟩

/-- **The replacement rule.** If from where `C` holds an action can be replaced by another, then all
the actions of a run can whose steps meet `C`. -/
theorem run_eq_of_stepsMeet {R : α → α → Prop} {C : σ → α → Prop}
    (replace : ∀ s a b, R a b → C s a → step s b = step s a) {as bs : List α}
    (h : List.Forall₂ R as bs) {s : σ} (hC : StepsMeet step C s as) :
    run step s bs = run step s as := by
  induction h generalizing s with
  | nil => rfl
  | @cons a b as bs hab _ ih =>
      rw [run, run, replace s a b hab hC.1]
      cases hs : step s a with
      | ok s' => exact ih (hC.2 s' hs)
      | error e => rfl

end SstTransports.Lib
