import Mathlib.Data.Nat.Notation

/-!
# `ProcessAnalyzer.Lib.Run`: runs of a transition function

A system is a step function `σ → α → Option σ`: `none` means that the action is not
enabled. A run is a list of actions.

`Along step P s as` says that every step of the run meets `P`, a condition on the state
before the step and the action. `exec_invariant` is the induction over runs: an invariant
that every step under `P` preserves holds at the end of every run along `P`, and so in
every state that such a run reaches. `safe_iff_along` is the rule with the exact condition: a
property holds in all states of a run exactly when every step meets `P`. `exec_simulates` is
forward simulation: a system that answers every step of another one answers its runs, and
`exec_stutters` is the same when some actions have no counterpart. `exec_rel` is bisimulation:
two systems that stop together and are related until then.
-/

set_option autoImplicit false

namespace ProcessAnalyzer.Lib.Run

variable {σ α : Type} (step : σ → α → Option σ)

/-- The state after a sequence of actions, when all of them are enabled. -/
def exec (s : σ) : List α → Option σ
  | [] => some s
  | a :: as => (step s a).bind fun s' => exec s' as

/-- Every step of the run meets the condition. -/
def Along (P : σ → α → Prop) (s : σ) : List α → Prop
  | [] => True
  | a :: as => P s a ∧ match step s a with
      | some s' => Along P s' as
      | none => True

instance decidableAlong (P : σ → α → Prop) [∀ s a, Decidable (P s a)] :
    ∀ (s : σ) (as : List α), Decidable (Along step P s as)
  | _, [] => inferInstanceAs (Decidable True)
  | s, a :: as =>
      match h : step s a with
      | some s' =>
          have := decidableAlong P s' as
          decidable_of_iff (P s a ∧ Along step P s' as) (by simp [Along, h])
      | none => decidable_of_iff (P s a) (by simp [Along, h])

variable {step}

/-- A run of two parts. -/
theorem exec_append (s : σ) (as bs : List α) :
    exec step s (as ++ bs) = (exec step s as).bind fun s' => exec step s' bs := by
  induction as generalizing s with
  | nil => rfl
  | cons a as ih =>
      rw [List.cons_append, exec, exec]
      cases step s a with
      | none => rfl
      | some s' => exact ih s'

/-- The condition that every run meets. -/
theorem along_true (s : σ) (as : List α) : Along step (fun _ _ => True) s as := by
  induction as generalizing s with
  | nil => trivial
  | cons a as ih =>
      rw [Along]
      refine ⟨trivial, ?_⟩
      cases step s a with
      | none => trivial
      | some s' => exact ih s'

/-- The invariant rule: what every step under the condition preserves holds at the end of
every run along the condition. -/
theorem exec_invariant {P : σ → α → Prop} {I : σ → Prop}
    (hstep : ∀ s a s', I s → P s a → step s a = some s' → I s') {s s' : σ} {as : List α}
    (hI : I s) (hP : Along step P s as) (hrun : exec step s as = some s') : I s' := by
  induction as generalizing s with
  | nil => exact Option.some.inj hrun ▸ hI
  | cons a as ih =>
      rw [exec] at hrun
      rw [Along] at hP
      cases h : step s a with
      | none => rw [h] at hrun; cases hrun
      | some s₁ =>
          rw [h] at hrun hP
          exact ih (hstep s a s₁ hI hP.1 h) hP.2 hrun

/-- The safety rule with its exact condition. `J` is kept by every step under the condition and
implies the property, and a step that does not meet the condition leads to a state without the
property. Then the property holds in all states of a run exactly when all its steps meet the
condition. `I` is what every step keeps. -/
theorem safe_iff_along {P : σ → α → Prop} {I J Q : σ → Prop}
    (hI : ∀ s a s', I s → step s a = some s' → I s')
    (hJ : ∀ s a s', I s → J s → P s a → step s a = some s' → J s')
    (hQ : ∀ s, I s → J s → Q s)
    (hbad : ∀ s a, I s → ¬ P s a → ∃ s', step s a = some s' ∧ ¬ Q s')
    {s : σ} (hIs : I s) (hJs : J s) (as : List α) :
    (∀ bs, bs <+: as → ∀ s', exec step s bs = some s' → Q s') ↔ Along step P s as := by
  induction as generalizing s with
  | nil =>
      refine ⟨fun _ => trivial, fun _ bs hbs s' hrun => ?_⟩
      rw [List.prefix_nil.mp hbs, exec, Option.some.injEq] at hrun
      exact hrun ▸ hQ s hIs hJs
  | cons a as ih =>
      rw [Along]
      constructor
      · intro h
        have hP : P s a := by
          refine Classical.byContradiction fun hnot => ?_
          obtain ⟨s', hstep, hno⟩ := hbad s a hIs hnot
          have hone : [a] <+: a :: as := ⟨as, rfl⟩
          exact hno (h [a] hone s' (by rw [exec, hstep]; rfl))
        refine ⟨hP, ?_⟩
        cases hstep : step s a with
        | none => trivial
        | some s₁ =>
            refine (ih (hI s a s₁ hIs hstep) (hJ s a s₁ hIs hJs hP hstep)).mp ?_
            intro bs hbs s' hrun
            refine h (a :: bs) (List.cons_prefix_cons.mpr ⟨rfl, hbs⟩) s' ?_
            rw [exec, hstep]
            exact hrun
      · rintro ⟨hP, hrest⟩ bs hbs s' hrun
        cases bs with
        | nil =>
            rw [exec, Option.some.injEq] at hrun
            exact hrun ▸ hQ s hIs hJs
        | cons b bs =>
            obtain ⟨rfl, hbs'⟩ := List.cons_prefix_cons.mp hbs
            rw [exec] at hrun
            cases hstep : step s b with
            | none =>
                rw [hstep] at hrun
                cases hrun
            | some s₁ =>
                rw [hstep] at hrun hrest
                exact (ih (hI s b s₁ hIs hstep) (hJ s b s₁ hIs hJs hP hstep)).mpr hrest bs hbs' s'
                  hrun

/-- Forward simulation: when every step of one system is answered by the same action of another
one, between related states, then so is every run. -/
theorem exec_simulates {τ : Type} {step' : τ → α → Option τ} {R : σ → τ → Prop}
    (hstep : ∀ s t a t', R s t → step' t a = some t' → ∃ s', step s a = some s' ∧ R s' t')
    {s : σ} {t t' : τ} {as : List α} (hR : R s t) (hrun : exec step' t as = some t') :
    ∃ s', exec step s as = some s' ∧ R s' t' := by
  induction as generalizing s t with
  | nil =>
      obtain rfl := Option.some.inj hrun
      exact ⟨s, rfl, hR⟩
  | cons a as ih =>
      rw [exec] at hrun
      obtain ⟨t₁, ht, hrest⟩ := Option.bind_eq_some_iff.mp hrun
      obtain ⟨s₁, hs, hR₁⟩ := hstep s t a t₁ hR ht
      obtain ⟨s', hexec, hR'⟩ := ih hR₁ hrest
      refine ⟨s', ?_, hR'⟩
      rw [exec, hs]
      exact hexec

/-- Bisimulation: when the steps of two systems that meet the condition have related results or
none, then so have the runs. -/
theorem exec_rel {τ : Type} {step' : τ → α → Option τ} {R : σ → τ → Prop} {P : σ → α → Prop}
    (hstep : ∀ s t a, R s t → P s a → Option.Rel R (step s a) (step' t a)) {s : σ} {t : τ}
    {as : List α} (hR : R s t) (hP : Along step P s as) :
    Option.Rel R (exec step s as) (exec step' t as) := by
  induction as generalizing s t with
  | nil => exact .some hR
  | cons a as ih =>
      rw [Along] at hP
      rw [exec, exec]
      have hrel := hstep s t a hR hP.1
      cases hs : step s a with
      | none =>
          rw [hs] at hrel
          cases ht : step' t a with
          | none => exact .none
          | some t₁ => rw [ht] at hrel; cases hrel
      | some s₁ =>
          rw [hs] at hrel hP
          cases ht : step' t a with
          | none => rw [ht] at hrel; cases hrel
          | some t₁ =>
              rw [ht] at hrel
              cases hrel with
              | some hR₁ => exact ih hR₁ hP.2

/-- Forward simulation with other actions, some of which are not answered. The answer meets a
condition where the run meets another one. -/
theorem exec_stutters {τ β : Type} {step' : τ → β → Option τ} {R : σ → τ → Prop}
    {act : α → Option β} {P : σ → α → Prop} {Q : τ → β → Prop}
    (hsome : ∀ s t a s' b, R s t → step s a = some s' → act a = some b →
      ∃ t', step' t b = some t' ∧ R s' t')
    (hnone : ∀ s t a s', R s t → step s a = some s' → act a = none → R s' t)
    (hPQ : ∀ s t a s' b, R s t → step s a = some s' → act a = some b → P s a → Q t b)
    {s s' : σ} {t : τ} {as : List α} (hR : R s t) (hP : Along step P s as)
    (hrun : exec step s as = some s') :
    ∃ t', exec step' t (as.filterMap act) = some t' ∧ R s' t' ∧
      Along step' Q t (as.filterMap act) := by
  induction as generalizing s t with
  | nil =>
      obtain rfl := Option.some.inj hrun
      exact ⟨t, rfl, hR, trivial⟩
  | cons a as ih =>
      rw [exec] at hrun
      rw [Along] at hP
      obtain ⟨s₁, hs, hrest⟩ := Option.bind_eq_some_iff.mp hrun
      rw [hs] at hP
      cases hact : act a with
      | none =>
          rw [List.filterMap_cons_none hact]
          exact ih (hnone s t a s₁ hR hs hact) hP.2 hrest
      | some b =>
          obtain ⟨t₁, ht, hR₁⟩ := hsome s t a s₁ b hR hs hact
          obtain ⟨t', hexec, hR', hQ⟩ := ih hR₁ hP.2 hrest
          refine ⟨t', ?_, hR', ?_⟩
          · rw [List.filterMap_cons_some hact, exec, ht]
            exact hexec
          · rw [List.filterMap_cons_some hact, Along, ht]
            exact ⟨hPQ s t a s₁ b hR hs hact hP.1, hQ⟩

/-- Two conditions that mean the same in the states of an invariant, which one of them keeps,
are met by the same runs. -/
theorem along_congr {P Q : σ → α → Prop} {I : σ → Prop} (hiff : ∀ s a, I s → (P s a ↔ Q s a))
    (hstep : ∀ s a s', I s → P s a → step s a = some s' → I s') {s : σ} (hI : I s) (as : List α) :
    Along step P s as ↔ Along step Q s as := by
  induction as generalizing s with
  | nil => rfl
  | cons a as ih =>
      rw [Along, Along]
      cases h : step s a with
      | none => simp only [hiff s a hI]
      | some s' =>
          constructor
          · rintro ⟨hP, hrest⟩
            exact ⟨(hiff s a hI).mp hP, (ih (hstep s a s' hI hP h)).mp hrest⟩
          · rintro ⟨hQ, hrest⟩
            have hP := (hiff s a hI).mpr hQ
            exact ⟨hP, (ih (hstep s a s' hI hP h)).mpr hrest⟩

/-- The counting rule: when the actions of one kind, and no others, raise a measure by one,
the measure counts them. -/
theorem exec_countP {P : σ → α → Prop} {I : σ → Prop}
    (hstep : ∀ s a s', I s → P s a → step s a = some s' → I s') {f : σ → ℕ} {p : α → Bool}
    (hf : ∀ s a s', I s → P s a → step s a = some s' → f s' = f s + if p a then 1 else 0)
    {s s' : σ} {as : List α} (hI : I s) (hP : Along step P s as)
    (hrun : exec step s as = some s') : f s' = f s + as.countP p := by
  induction as generalizing s with
  | nil =>
      obtain rfl := Option.some.inj hrun
      rfl
  | cons a as ih =>
      rw [exec] at hrun
      rw [Along] at hP
      cases h : step s a with
      | none => rw [h] at hrun; cases hrun
      | some s₁ =>
          rw [h] at hrun hP
          rw [ih (hstep s a s₁ hI hP.1 h) hP.2 hrun, hf s a s₁ hI hP.1 h, List.countP_cons]
          omega

end ProcessAnalyzer.Lib.Run
