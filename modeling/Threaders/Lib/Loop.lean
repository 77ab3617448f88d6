import Mathlib.Data.Fintype.Card
import Mathlib.Logic.Function.Iterate
import Mathlib.Logic.Relation
import Mathlib.Order.Basic
import Mathlib.Order.Nat
import Mathlib.Tactic.Common

/-!
# Loops that may not end

A round of a loop either goes on with a new state, stops with a result, or fails.
`loop body fuel` runs at most `fuel` rounds; a loop ends if some fuel is enough, and
then all larger ones give the same result.

## Main definitions

* `loop` — at most the given number of rounds.
* `Ends` — some number of rounds is enough.
* `Visits` — the states a loop comes to.
* `ends_iff_not_again` — a loop over finitely many states ends if it comes to none twice.
* `whileBody` — the round of a loop with a guard, and the states such a loop comes to.
-/

namespace Threaders.Lib

variable {σ ρ : Type*}

/-- Run a loop for at most `fuel` rounds. -/
def loop (body : σ → Option (σ ⊕ ρ)) : ℕ → σ → Option ρ
  | 0, _ => none
  | fuel + 1, s =>
      match body s with
      | none => none
      | some (.inl s') => loop body fuel s'
      | some (.inr r) => some r

section Loop
variable {body : σ → Option (σ ⊕ ρ)} {s s' : σ} {r r' : ρ} {n k : ℕ}

theorem loop_next (h : body s = some (.inl s')) : loop body (n + 1) s = loop body n s' := by
  rw [loop, h]

theorem loop_stop (h : body s = some (.inr r)) : loop body (n + 1) s = some r := by
  rw [loop, h]

/-- More fuel gives the same result. -/
theorem loop_mono (h : loop body n s = some r) (hle : n ≤ k) : loop body k s = some r := by
  induction n generalizing s k with
  | zero => cases h
  | succ n ih =>
      obtain ⟨k, rfl⟩ : ∃ j, k = j + 1 := ⟨k - 1, by omega⟩
      rw [loop] at h ⊢
      split at h
      · cases h
      · next s' hs => simpa [hs] using ih h (by omega)
      · next r' hr => simpa [hr] using h

theorem loop_unique (h : loop body n s = some r) (h' : loop body k s = some r') : r = r' := by
  have hmax := loop_mono h (le_max_left n k)
  rw [loop_mono h' (le_max_right n k)] at hmax
  exact (Option.some.inj hmax).symm

/-- A loop over the images of the states of another works on its results. -/
theorem loop_bind {σ' ρ' : Type*} {body' : σ' → Option (σ' ⊕ ρ')} {f : σ → σ'} {g : ρ → Option ρ'}
    (h : ∀ s, body' (f s) = (body s).bind
      (Sum.elim (fun s' => some (.inl (f s'))) fun r => (g r).map .inr)) :
    loop body' n (f s) = (loop body n s).bind g := by
  induction n generalizing s with
  | zero => rfl
  | succ n ih =>
      rw [loop, loop, h]
      cases body s with
      | none => rfl
      | some next =>
          cases next with
          | inl s' => exact ih
          | inr r =>
              simp only [Option.bind_some, Sum.elim_inr]
              cases g r <;> rfl

/-- A loop over the images of the states of another gives the images of its results. -/
theorem loop_map {σ' ρ' : Type*} {body' : σ' → Option (σ' ⊕ ρ')} {f : σ → σ'} {g : ρ → ρ'}
    (h : ∀ s, body' (f s) = (body s).map (Sum.map f g)) :
    loop body' n (f s) = (loop body n s).map g := by
  rw [Option.map_eq_bind]
  refine loop_bind fun s => (h s).trans ?_
  cases body s with
  | none => rfl
  | some next => cases next <;> rfl

/-- The loop ends from this state. -/
def Ends (body : σ → Option (σ ⊕ ρ)) (s : σ) : Prop := ∃ fuel r, loop body fuel s = some r

/-- The loop comes to this state, in no round or more. -/
def Visits (body : σ → Option (σ ⊕ ρ)) : σ → σ → Prop :=
  Relation.ReflTransGen fun s s' => body s = some (.inl s')

/-- A loop that ends has come to a state it stops in. -/
theorem exists_stop (h : loop body n s = some r) :
    ∃ s', Visits body s s' ∧ body s' = some (.inr r) := by
  induction n generalizing s with
  | zero => cases h
  | succ n ih =>
      rw [loop] at h
      split at h
      · cases h
      · next s' hs' =>
          obtain ⟨t, hvisits, hstop⟩ := ih h
          exact ⟨t, .head hs' hvisits, hstop⟩
      · next r' hr =>
          obtain rfl := Option.some.inj h
          exact ⟨s, .refl, hr⟩

/-! ### Loops that come to finitely many states -/

/-- A loop that ends from a state ends in fewer rounds from any state after it. -/
theorem loop_of_transGen (h : loop body n s = some r)
    (hafter : Relation.TransGen (fun s s' => body s = some (.inl s')) s s') :
    ∃ k < n, loop body k s' = some r := by
  induction hafter with
  | single hnext =>
      cases n with
      | zero => cases h
      | succ n => exact ⟨n, Nat.lt_succ_self n, by rwa [loop_next hnext] at h⟩
  | tail _ hnext ih =>
      obtain ⟨k, hk, h⟩ := ih
      cases k with
      | zero => cases h
      | succ k => exact ⟨k, by omega, by rwa [loop_next hnext] at h⟩

/-- Where a loop comes to a state it stops in, that is its result. -/
theorem loop_of_visits (hvisits : Visits body s s') (hstop : body s' = some (.inr r)) :
    ∃ n, loop body n s = some r := by
  induction hvisits using Relation.ReflTransGen.head_induction_on with
  | refl => exact ⟨1, loop_stop hstop⟩
  | head hnext _ ih =>
      obtain ⟨n, h⟩ := ih
      exact ⟨n + 1, by rwa [loop_next hnext]⟩

/-- A loop that ends fails in none of the states it comes to. -/
theorem Ends.ne_none (h : Ends body s) (hvisits : Visits body s s') : body s' ≠ none := by
  induction hvisits using Relation.ReflTransGen.head_induction_on with
  | refl =>
      intro hnone
      obtain ⟨n, r, h⟩ := h
      cases n with
      | zero => cases h
      | succ n => simp [loop, hnone] at h
  | head hnext _ ih =>
      obtain ⟨n, r, h⟩ := h
      cases n with
      | zero => cases h
      | succ n => exact ih ⟨n, r, by rwa [loop_next hnext] at h⟩

/-- A loop that ends comes to no state twice. -/
theorem Ends.not_again (h : Ends body s) (hvisits : Visits body s s') :
    ¬ Relation.TransGen (fun s s' => body s = some (.inl s')) s' s' := by
  intro hagain
  obtain ⟨n, r, h⟩ := h
  have hends : ∃ k, loop body k s' = some r := by
    rcases Relation.reflTransGen_iff_eq_or_transGen.1 hvisits with rfl | hafter
    · exact ⟨n, h⟩
    · obtain ⟨k, -, h⟩ := loop_of_transGen h hafter
      exact ⟨k, h⟩
  -- the least number of rounds from there could be lowered
  classical
  obtain ⟨k, hk, h⟩ := loop_of_transGen (Nat.find_spec hends) hagain
  exact Nat.find_min hends hk h

/-- A loop that never fails and comes to finitely many states ends exactly if it comes to none
of them twice. -/
theorem ends_iff_not_again (hfinite : {t | Visits body s t}.Finite)
    (hbody : ∀ t, Visits body s t → body t ≠ none) :
    Ends body s ↔ ∀ t, Visits body s t →
      ¬ Relation.TransGen (fun s s' => body s = some (.inl s')) t t := by
  refine ⟨fun h t hvisits => h.not_again hvisits, fun hagain => ?_⟩
  have : Finite {t // Visits body s t} := hfinite
  let After (t t' : {t // Visits body s t}) : Prop :=
    Relation.TransGen (fun s s' => body s = some (.inl s')) t'.1 t.1
  have : IsTrans _ After := ⟨fun _ _ _ h h' => h'.trans h⟩
  have : Std.Irrefl After := ⟨fun t => hagain t.1 t.2⟩
  have hwf : WellFounded After := Finite.wellFounded_of_trans_of_irrefl After
  have hends : ∀ t : {t // Visits body s t}, Ends body t.1 := by
    intro t
    induction t using hwf.induction with
    | _ t ih =>
        cases hnext : body t.1 with
        | none => exact absurd hnext (hbody t.1 t.2)
        | some next =>
            cases next with
            | inl t' =>
                obtain ⟨n, r, h⟩ := ih ⟨t', t.2.tail hnext⟩ (.single hnext)
                exact ⟨n + 1, r, by rwa [loop_next hnext]⟩
            | inr r => exact ⟨1, r, loop_stop hnext⟩
  exact hends ⟨s, .refl⟩

end Loop

/-! ### Loops with a guard -/

/-- The round of a loop that goes on while `p` holds. -/
def whileBody (p : σ → Bool) (next : σ → σ) (s : σ) : Option (σ ⊕ σ) :=
  if p s then some (.inl (next s)) else some (.inr s)

section While
variable {p : σ → Bool} {next : σ → σ} {s s' : σ} {k : ℕ}

theorem whileBody_eq_next : whileBody p next s = some (.inl s') ↔ p s = true ∧ s' = next s := by
  unfold whileBody
  by_cases h : p s = true
  · simp [h, eq_comm]
  · simp [h]

/-- The guard is tried in the states that come one after another as long as it held. -/
theorem visits_whileBody_iff :
    Visits (whileBody p next) s s' ↔ ∃ k, next^[k] s = s' ∧ ∀ j < k, p (next^[j] s) = true := by
  constructor
  · intro h
    induction h with
    | refl => exact ⟨0, rfl, fun j hj => absurd hj (Nat.not_lt_zero j)⟩
    | tail _ hnext ih =>
        obtain ⟨k, rfl, hgo⟩ := ih
        obtain ⟨hp, rfl⟩ := whileBody_eq_next.1 hnext
        refine ⟨k + 1, Function.iterate_succ_apply' next k s, fun j hj => ?_⟩
        rcases Nat.lt_succ_iff_lt_or_eq.1 hj with hlt | rfl
        · exact hgo j hlt
        · exact hp
  · rintro ⟨k, rfl, hgo⟩
    induction k with
    | zero => exact .refl
    | succ k ih =>
        have hvisits := ih fun j hj => hgo j (by omega)
        refine hvisits.tail (whileBody_eq_next.2 ⟨hgo k (Nat.lt_succ_self k), ?_⟩)
        exact Function.iterate_succ_apply' next k s

/-- A guarded loop ends in the first state in which its guard fails. -/
theorem loop_whileBody (hgo : ∀ j < k, p (next^[j] s) = true) (hstop : p (next^[k] s) = false) :
    loop (whileBody p next) (k + 1) s = some (next^[k] s) := by
  induction k generalizing s with
  | zero =>
      rw [Function.iterate_zero_apply] at hstop ⊢
      exact loop_stop (by simp [whileBody, hstop])
  | succ k ih =>
      have hfirst : p s = true := hgo 0 (Nat.zero_lt_succ k)
      rw [loop_next (whileBody_eq_next.2 ⟨hfirst, rfl⟩), Function.iterate_succ_apply]
      exact ih (fun j hj => hgo (j + 1) (by omega)) hstop

end While

end Threaders.Lib
