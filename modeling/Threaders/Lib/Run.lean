import Mathlib.Data.List.Induction

/-!
# Runs of a labelled transition system

A run is a sequence of labelled steps.  A property of states that every step
preserves holds in every state of a run that starts in it: this is the induction
`Run.invariant`, and every safety result of a system is the step lemma handed to it.

## Main definitions

* `Run step s es t` — the labels `es` lead from `s` to `t`.
* `Run.invariant`, `Run.history` — the induction along a run.
* `Run.weakSimulation` — a simulation with stuttering, along a run.
* `Run.linearization` — calls that take effect at one moment each, along a run.
* `Along`, `EachStep` — what holds at every moment, and of every step, of a run.
* `Along.of_steps`, `EachStep.along` — the induction along a run whose steps meet a condition.
* `along_iff` — a property that each step keeps exactly when it meets a condition.
-/

namespace Threaders.Lib

variable {σ ε : Type*}

/-- The labels `es`, taken in order, lead from the first state to the second. -/
inductive Run (step : σ → ε → σ → Prop) : σ → List ε → σ → Prop
  | nil (s : σ) : Run step s [] s
  | cons {s t u : σ} {e : ε} {es : List ε} (hstep : step s e t) (hrun : Run step t es u) :
      Run step s (e :: es) u

namespace Run

variable {step step' : σ → ε → σ → Prop} {s t u : σ} {e : ε} {es fs : List ε}

theorem single (h : step s e t) : Run step s [e] t := cons h (nil t)

theorem append (h : Run step s es t) (h' : Run step t fs u) : Run step s (es ++ fs) u := by
  induction h with
  | nil s => exact h'
  | cons hstep _ ih => exact cons hstep (ih h')

theorem snoc (h : Run step s es t) (h' : step t e u) : Run step s (es ++ [e]) u :=
  h.append (single h')

/-- The first step of a run. -/
theorem cons_iff : Run step s (e :: es) u ↔ ∃ t, step s e t ∧ Run step t es u := by
  constructor
  · rintro ⟨⟩
    exact ⟨_, ‹_›, ‹_›⟩
  · rintro ⟨t, h, h'⟩
    exact cons h h'

theorem nil_iff : Run step s [] u ↔ s = u := by
  constructor
  · rintro ⟨⟩
    rfl
  · rintro rfl
    exact nil s

/-- A run can be cut anywhere. -/
theorem append_iff : Run step s (es ++ fs) u ↔ ∃ t, Run step s es t ∧ Run step t fs u := by
  constructor
  · intro h
    induction es generalizing s with
    | nil => exact ⟨s, nil s, h⟩
    | cons e es ih =>
        cases h with
        | cons hstep hrun =>
            obtain ⟨t, h, h'⟩ := ih hrun
            exact ⟨t, cons hstep h, h'⟩
  · rintro ⟨t, h, h'⟩
    exact h.append h'

/-- What every step preserves holds at the end of every run. -/
theorem invariant {P : σ → Prop} (hstep : ∀ s e t, P s → step s e t → P t)
    (h : Run step s es t) (hs : P s) : P t := by
  induction h with
  | nil s => exact hs
  | cons h _ ih => exact ih (hstep _ _ _ hs h)

/-- The same of what speaks of the labels so far. -/
theorem history {P : List ε → σ → Prop}
    (hstep : ∀ es s e t, P es s → step s e t → P (es ++ [e]) t)
    (h : Run step s es t) (hs : P [] s) : P es t := by
  induction es using List.reverseRecOn generalizing t with
  | nil => exact nil_iff.1 h ▸ hs
  | append_singleton es e ih =>
      obtain ⟨u, hrun, hlast⟩ := append_iff.1 h
      obtain ⟨t', he, hnil⟩ := cons_iff.1 hlast
      obtain rfl := nil_iff.1 hnil
      exact hstep es u e t' (ih hrun) he

/-- Steps that can be computed make a run. -/
theorem of_foldlM {f : σ → ε → Option σ} (hf : ∀ s e t, f s e = some t → step s e t)
    (h : es.foldlM f s = some t) : Run step s es t := by
  induction es generalizing s with
  | nil =>
      obtain rfl : s = t := by simpa using h
      exact nil s
  | cons e es ih =>
      rw [List.foldlM_cons, Option.bind_eq_bind, Option.bind_eq_some_iff] at h
      obtain ⟨s', hs', h⟩ := h
      exact cons (hf s e s' hs') (ih h)

/-- A simulation of steps is a simulation of runs. -/
theorem simulation {τ φ : Type*} {step' : τ → φ → τ → Prop} {R : σ → τ → Prop} {f : ε → φ}
    (hstep : ∀ s e s' t, R s t → step s e s' → ∃ t', step' t (f e) t' ∧ R s' t')
    {t : τ} (h : Run step s es u) (hR : R s t) : ∃ t', Run step' t (es.map f) t' ∧ R u t' := by
  induction h generalizing t with
  | nil s => exact ⟨t, .nil t, hR⟩
  | cons hs _ ih =>
      obtain ⟨t₁, ht, hR⟩ := hstep _ _ _ _ hR hs
      obtain ⟨t', hrun, hR⟩ := ih hR
      exact ⟨t', .cons ht hrun, hR⟩

theorem filterMap_cons_eq {ω : Type*} (f : ε → Option ω) (e : ε) (es : List ε) :
    (e :: es).filterMap f = (f e).toList ++ es.filterMap f := by
  rw [List.filterMap_cons]
  cases f e <;> rfl

/-- A step may be met by any number of steps, or by none, that show what it shows. -/
theorem weakSimulation {τ φ ω : Type*} {step' : τ → φ → τ → Prop} {R : σ → τ → Prop}
    {f : ε → Option ω} {g : φ → Option ω}
    (hstep : ∀ s e s' t, R s t → step s e s' →
      ∃ fs t', Run step' t fs t' ∧ fs.filterMap g = (f e).toList ∧ R s' t')
    {t : τ} (h : Run step s es u) (hR : R s t) :
    ∃ fs t', Run step' t fs t' ∧ fs.filterMap g = es.filterMap f ∧ R u t' := by
  induction h generalizing t with
  | nil s => exact ⟨[], t, .nil t, rfl, hR⟩
  | @cons _ _ _ e _ hs _ ih =>
      obtain ⟨fs, t₁, hfirst, hshown, hR⟩ := hstep _ _ _ _ hR hs
      obtain ⟨gs, t', hrest, hshown', hR⟩ := ih hR
      refine ⟨fs ++ gs, t', hfirst.append hrest, ?_, hR⟩
      rw [List.filterMap_append, hshown, hshown', filterMap_cons_eq]

/-- Linearization: what is asked takes effect at a moment of its own, before which it waits in
`as`, and what comes of it is handed out later still, until when it waits in `bs`. -/
theorem linearization {τ φ α β : Type*} {step' : τ → φ → τ → Prop}
    {R : σ → τ → List α → List β → Prop} {asks : ε → Option α} {tells : ε → Option β}
    {call : φ → α} {result : φ → Option β}
    (hstep : ∀ s e s' t as bs, R s t as bs → step s e s' → ∃ fs t' as' bs', Run step' t fs t' ∧
      as ++ (asks e).toList = fs.map call ++ as' ∧
      bs ++ fs.filterMap result = (tells e).toList ++ bs' ∧ R s' t' as' bs')
    {t : τ} {as : List α} {bs : List β} (h : Run step s es u) (hR : R s t as bs) :
    ∃ fs t' as' bs', Run step' t fs t' ∧ as ++ es.filterMap asks = fs.map call ++ as' ∧
      bs ++ fs.filterMap result = es.filterMap tells ++ bs' ∧ R u t' as' bs' := by
  induction h generalizing t as bs with
  | nil s => exact ⟨[], t, as, bs, .nil t, by simp, by simp, hR⟩
  | @cons _ _ _ e es hs _ ih =>
      obtain ⟨fs, t₁, as₁, bs₁, hfirst, hasked, htold, hR⟩ := hstep _ _ _ _ _ _ hR hs
      obtain ⟨gs, t', as', bs', hrest, hasked', htold', hR⟩ := ih hR
      refine ⟨fs ++ gs, t', as', bs', hfirst.append hrest, ?_, ?_, hR⟩
      · rw [filterMap_cons_eq, ← List.append_assoc, hasked, List.append_assoc, hasked',
          List.map_append, List.append_assoc]
      · rw [filterMap_cons_eq, List.filterMap_append, ← List.append_assoc, htold,
          List.append_assoc, htold', List.append_assoc]

end Run

/-! ## What holds all along a run -/

/-- `P` holds at every moment of the run: of the labels so far and the state they led to. -/
def Along (step : σ → ε → σ → Prop) (P : List ε → σ → Prop) (s : σ) (es : List ε) : Prop :=
  ∀ fs gs t, es = fs ++ gs → Run step s fs t → P fs t

/-- `C` holds of every step of the run, in the state before it. -/
def EachStep (step : σ → ε → σ → Prop) (C : σ → ε → Prop) (s : σ) (es : List ε) : Prop :=
  ∀ fs e gs t, es = fs ++ e :: gs → Run step s fs t → C t e

/-- A step leads to one state only. -/
def Deterministic (step : σ → ε → σ → Prop) : Prop :=
  ∀ s e t t', step s e t → step s e t' → t = t'

section Along

variable {step : σ → ε → σ → Prop} {P I : List ε → σ → Prop} {C : σ → ε → Prop}
  {s t u : σ} {e : ε} {es : List ε}

theorem Run.unique (hdet : Deterministic step) (h : Run step s es t) (h' : Run step s es u) :
    t = u := by
  induction h with
  | nil s => exact Run.nil_iff.1 h'
  | cons hstep _ ih =>
      obtain ⟨t', hstep', hrun⟩ := Run.cons_iff.1 h'
      exact ih (hdet _ _ _ _ hstep hstep' ▸ hrun)

theorem along_nil : Along step P s [] ↔ P [] s := by
  constructor
  · intro h
    exact h [] [] s rfl (.nil s)
  · intro h fs gs t hes hrun
    obtain ⟨rfl, rfl⟩ := List.append_eq_nil_iff.1 hes.symm
    exact Run.nil_iff.1 hrun ▸ h

theorem eachStep_nil : EachStep step C s [] := by
  intro fs e gs t hes
  simp at hes

theorem along_snoc (hdet : Deterministic step) (h : Run step s es t) (h' : step t e u) :
    Along step P s (es ++ [e]) ↔ Along step P s es ∧ P (es ++ [e]) u := by
  constructor
  · intro hP
    constructor
    · intro fs gs t' hes hrun
      exact hP fs (gs ++ [e]) t' (by rw [hes, List.append_assoc]) hrun
    · exact hP (es ++ [e]) [] u (List.append_nil _).symm (h.snoc h')
  · rintro ⟨hP, hu⟩ fs gs t' hes hrun
    rcases List.eq_nil_or_concat gs with rfl | ⟨gs, e', rfl⟩
    · rw [List.append_nil] at hes
      subst hes
      exact (h.snoc h').unique hdet hrun ▸ hu
    · rw [List.concat_eq_append, ← List.append_assoc] at hes
      exact hP fs gs t' (List.append_inj_left' hes rfl) hrun

theorem eachStep_snoc (hdet : Deterministic step) (h : Run step s es t) :
    EachStep step C s (es ++ [e]) ↔ EachStep step C s es ∧ C t e := by
  constructor
  · intro hC
    constructor
    · intro fs e' gs t' hes hrun
      exact hC fs e' (gs ++ [e]) t' (by rw [hes]; simp) hrun
    · exact hC es e [] t rfl h
  · rintro ⟨hC, ht⟩ fs e' gs t' hes hrun
    rcases List.eq_nil_or_concat gs with rfl | ⟨gs, e'', rfl⟩
    · obtain ⟨rfl, he⟩ := List.append_inj' hes rfl
      obtain rfl : e = e' := by simpa using he
      exact h.unique hdet hrun ▸ ht
    · rw [List.concat_eq_append, ← List.cons_append, ← List.append_assoc] at hes
      exact hC fs e' gs t' (List.append_inj_left' hes rfl) hrun

/-- Of a step that is a function, a condition on every step can be checked along the run. -/
theorem eachStep_of_foldlM {f : σ → ε → Option σ} [∀ s e, Decidable (C s e)]
    (hf : ∀ s e t, step s e t → f s e = some t)
    (h : es.foldlM (fun s e => if C s e then f s e else none) s = some u) : EachStep step C s es := by
  induction es generalizing s with
  | nil => exact eachStep_nil
  | cons e es ih =>
      rw [List.foldlM_cons, Option.bind_eq_bind, Option.bind_eq_some_iff] at h
      obtain ⟨s', hs', h⟩ := h
      obtain ⟨hC, hs'⟩ := Option.ite_none_right_eq_some.1 hs'
      intro fs e' gs t hes hrun
      cases fs with
      | nil =>
          obtain ⟨rfl, -⟩ := List.cons.inj hes
          exact Run.nil_iff.1 hrun ▸ hC
      | cons d fs =>
          obtain ⟨rfl, htail⟩ := List.cons.inj hes
          obtain ⟨t', hstep, hrun⟩ := Run.cons_iff.1 hrun
          obtain rfl := Option.some.inj ((hf s e t' hstep).symm.trans hs')
          exact ih h fs e' gs t htail hrun

/-- A condition on the label alone holds of every step if and only if it holds of every
label. -/
theorem eachStep_label {Q : ε → Prop} (h : Run step s es t) :
    EachStep step (fun _ e => Q e) s es ↔ ∀ e ∈ es, Q e := by
  constructor
  · intro hQ e he
    obtain ⟨fs, gs, rfl⟩ := List.append_of_mem he
    obtain ⟨t', hrun, -⟩ := Run.append_iff.1 h
    exact hQ fs e gs t' rfl hrun
  · rintro hQ fs e gs t' rfl -
    exact hQ e (by simp)

/-- What each step of a run preserves, of the labels so far and the state, holds all along. -/
theorem Along.of_steps (hs : I [] s)
    (hstep : ∀ fs e gs t t', es = fs ++ e :: gs → Run step s fs t → I fs t → step t e t' →
      I (fs ++ [e]) t') : Along step I s es := by
  intro fs gs t hes hrun
  induction fs using List.reverseRecOn generalizing gs t with
  | nil => exact Run.nil_iff.1 hrun ▸ hs
  | append_singleton fs e ih =>
      obtain ⟨t', hrun', hlast⟩ := Run.append_iff.1 hrun
      obtain ⟨u, hu, hnil⟩ := Run.cons_iff.1 hlast
      obtain rfl := Run.nil_iff.1 hnil
      rw [List.append_assoc] at hes
      exact hstep fs e gs t' u hes hrun' (ih ([e] ++ gs) t' hes hrun') hu

/-- What a step that meets `C` preserves holds all along a run whose steps meet it. -/
theorem EachStep.along {J : σ → Prop} (hC : EachStep step C s es)
    (hstep : ∀ t e t', J t → C t e → step t e t' → J t') (hs : J s) :
    Along step (fun _ t => J t) s es :=
  Along.of_steps hs fun fs e gs t t' hes hrun h hu => hstep t e t' h (hC fs e gs t hes hrun) hu

/-- Where the invariant `I` gives `P`, a step that meets `C` keeps `I` and one after which `P`
holds meets `C`, the property `P` holds all along a run if and only if it holds at its start
and every step meets `C`. -/
theorem along_iff (hdet : Deterministic step) (hIP : ∀ fs t, I fs t → P fs t)
    (hstart : P [] s → I [] s)
    (hstep : ∀ fs e t t', I fs t → step t e t' →
      (C t e → I (fs ++ [e]) t') ∧ (P (fs ++ [e]) t' → C t e))
    (h : Run step s es u) : Along step P s es ↔ P [] s ∧ EachStep step C s es := by
  suffices H : (Along step P s es ↔ P [] s ∧ EachStep step C s es) ∧
      (P [] s ∧ EachStep step C s es → I es u) from H.1
  induction es using List.reverseRecOn generalizing u with
  | nil =>
      obtain rfl := Run.nil_iff.1 h
      exact ⟨along_nil.trans ⟨fun hP => ⟨hP, eachStep_nil⟩, fun hP => hP.1⟩,
        fun hP => hstart hP.1⟩
  | append_singleton es e ih =>
      obtain ⟨t, hrun, hlast⟩ := Run.append_iff.1 h
      obtain ⟨u', hu, hnil⟩ := Run.cons_iff.1 hlast
      obtain rfl := Run.nil_iff.1 hnil
      obtain ⟨ihiff, ihI⟩ := ih hrun
      rw [along_snoc hdet hrun hu, eachStep_snoc hdet hrun, ihiff]
      constructor
      · constructor
        · rintro ⟨hes, hP⟩
          exact ⟨hes.1, hes.2, (hstep es e t u' (ihI hes) hu).2 hP⟩
        · rintro ⟨hs, hes, hC⟩
          exact ⟨⟨hs, hes⟩, hIP _ _ ((hstep es e t u' (ihI ⟨hs, hes⟩) hu).1 hC)⟩
      · rintro ⟨hs, hes, hC⟩
        exact (hstep es e t u' (ihI ⟨hs, hes⟩) hu).1 hC

end Along

/-- The states that some run reaches from a given one. -/
def Reachable (step : σ → ε → σ → Prop) (s t : σ) : Prop := ∃ es, Run step s es t

namespace Reachable

variable {step : σ → ε → σ → Prop} {s t u : σ} {e : ε}

theorem refl (s : σ) : Reachable step s s := ⟨[], .nil s⟩

theorem step_right (h : Reachable step s t) (h' : step t e u) : Reachable step s u :=
  let ⟨es, h⟩ := h
  ⟨es ++ [e], h.snoc h'⟩

theorem invariant {P : σ → Prop} (hstep : ∀ s e t, P s → step s e t → P t)
    (h : Reachable step s t) (hs : P s) : P t :=
  let ⟨_, h⟩ := h
  h.invariant hstep hs

end Reachable

end Threaders.Lib
