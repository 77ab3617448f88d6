import Mathlib.Data.List.Basic

/-!
# A stream cut into pieces

A transport delivers a stream as a list of non-empty pieces.  A read that takes what there is
gets a part of the first piece; one that waits for all of it does not see the cuts.

## Main definitions

* `dropPieces` — the pieces behind the first `n` elements.
* `Cut` — the positions where a piece ends.
-/

namespace Threaders.Lib

variable {α : Type*}

/-- The pieces left when the first `n` elements are gone. -/
def dropPieces : ℕ → List (List α) → List (List α)
  | _, [] => []
  | n, p :: ps => if n < p.length then p.drop n :: ps else dropPieces (n - p.length) ps

/-- A piece of the stream ends at the position `c`. -/
def Cut (ps : List (List α)) (c : ℕ) : Prop := ∃ qs rs, ps = qs ++ rs ∧ c = qs.flatten.length

@[simp] theorem flatten_dropPieces (n : ℕ) (ps : List (List α)) :
    (dropPieces n ps).flatten = ps.flatten.drop n := by
  induction ps generalizing n with
  | nil => simp [dropPieces]
  | cons p ps ih =>
      unfold dropPieces
      by_cases h : n < p.length
      · rw [if_pos h, List.flatten_cons, List.flatten_cons,
          List.drop_append_of_le_length (Nat.le_of_lt h)]
      · rw [if_neg h, ih, List.flatten_cons, List.drop_append,
          List.drop_eq_nil_of_le (Nat.not_lt.1 h), List.nil_append]

theorem dropPieces_dropPieces (m n : ℕ) (ps : List (List α)) :
    dropPieces m (dropPieces n ps) = dropPieces (n + m) ps := by
  induction ps generalizing n with
  | nil => rfl
  | cons p ps ih =>
      by_cases h : n < p.length
      · by_cases hm : n + m < p.length
        · have hm' : m < (p.drop n).length := by
            rw [List.length_drop]
            omega
          rw [dropPieces, if_pos h, dropPieces, if_pos hm', dropPieces, if_pos hm, List.drop_drop]
        · have hm' : ¬ m < (p.drop n).length := by
            rw [List.length_drop]
            omega
          have heq : m - (p.drop n).length = n + m - p.length := by
            rw [List.length_drop]
            omega
          rw [dropPieces, if_pos h, dropPieces, if_neg hm', dropPieces, if_neg hm, heq]
      · have heq : n - p.length + m = n + m - p.length := by omega
        rw [dropPieces, if_neg h, ih, dropPieces, if_neg (by omega), heq]

theorem ne_nil_of_mem_dropPieces {n : ℕ} {ps : List (List α)} (h : ∀ p ∈ ps, p ≠ []) :
    ∀ p ∈ dropPieces n ps, p ≠ [] := by
  induction ps generalizing n with
  | nil => simp [dropPieces]
  | cons p ps ih =>
      unfold dropPieces
      by_cases hn : n < p.length
      · rw [if_pos hn]
        intro q hq
        rcases List.mem_cons.1 hq with rfl | hq
        · simpa using hn
        · exact h q (List.mem_cons_of_mem p hq)
      · rw [if_neg hn]
        exact ih fun q hq => h q (List.mem_cons_of_mem p hq)

theorem cut_zero (ps : List (List α)) : Cut ps 0 := ⟨[], ps, rfl, rfl⟩

theorem cut_cons {p : List α} {ps : List (List α)} {c : ℕ} :
    Cut (p :: ps) c ↔ c = 0 ∨ ∃ c', Cut ps c' ∧ c = p.length + c' := by
  constructor
  · rintro ⟨qs, rs, hps, rfl⟩
    cases qs with
    | nil => exact .inl rfl
    | cons q qs =>
        obtain ⟨rfl, rfl⟩ := List.cons.inj hps
        exact .inr ⟨_, ⟨qs, rs, rfl, rfl⟩, by simp⟩
  · rintro (rfl | ⟨c', ⟨qs, rs, rfl, rfl⟩, rfl⟩)
    · exact cut_zero _
    · exact ⟨p :: qs, rs, rfl, by simp⟩

/-- The cuts behind the first `n` elements are those of the whole stream, counted from
there. -/
theorem cut_dropPieces {ps : List (List α)} {n c : ℕ} (hc : 0 < c) :
    Cut (dropPieces n ps) c ↔ Cut ps (n + c) := by
  induction ps generalizing n with
  | nil =>
      constructor
      · rintro ⟨qs, rs, hps, rfl⟩
        obtain ⟨rfl, -⟩ := List.append_eq_nil_iff.1 hps.symm
        simp at hc
      · rintro ⟨qs, rs, hps, heq⟩
        obtain ⟨rfl, -⟩ := List.append_eq_nil_iff.1 hps.symm
        simp at heq
        omega
  | cons p ps ih =>
      unfold dropPieces
      by_cases h : n < p.length
      · rw [if_pos h, cut_cons, cut_cons, List.length_drop]
        constructor
        · rintro (rfl | ⟨c', hcut, rfl⟩)
          · omega
          · exact .inr ⟨c', hcut, by omega⟩
        · rintro (hzero | ⟨c', hcut, heq⟩)
          · omega
          · exact .inr ⟨c', hcut, by omega⟩
      · rw [if_neg h, ih, cut_cons]
        constructor
        · intro hcut
          exact .inr ⟨n - p.length + c, hcut, by omega⟩
        · rintro (hzero | ⟨c', hcut, heq⟩)
          · omega
          · obtain rfl : c' = n - p.length + c := by omega
            exact hcut

/-- Non-empty pieces of an empty stream are none. -/
theorem eq_nil_of_flatten_nil {ps : List (List α)} (hne : ∀ p ∈ ps, p ≠ [])
    (h : ps.flatten = []) : ps = [] := by
  cases ps with
  | nil => rfl
  | cons p ps =>
      rw [List.flatten_cons, List.append_eq_nil_iff] at h
      exact absurd h.1 (hne p List.mem_cons_self)

/-- The first piece of a stream that is not cut inside its first `n` elements has them. -/
theorem le_length_head {p : List α} {ps : List (List α)} {n : ℕ} (hp : p ≠ [])
    (h : ∀ c, Cut (p :: ps) c → ¬ (0 < c ∧ c < n)) : n ≤ p.length := by
  have hpos := List.length_pos_iff.2 hp
  have hcut : Cut (p :: ps) p.length := cut_cons.2 (.inr ⟨0, cut_zero ps, rfl⟩)
  have := h p.length hcut
  omega

/-- The first piece of one that is cut there ends there. -/
theorem length_head_lt {p : List α} {ps : List (List α)} {n c : ℕ} (hcut : Cut (p :: ps) c)
    (hpos : 0 < c) (hlt : c < n) : p.length < n := by
  rcases cut_cons.1 hcut with rfl | ⟨c', -, rfl⟩
  · omega
  · omega

end Threaders.Lib
