import Mathlib.Algebra.Ring.Nat
import Mathlib.Data.List.Basic
import Mathlib.Data.List.Nodup

/-!
# Arenas

An allocator of a fixed number of units that are given out from the first one on and never
come back.  Every owner is served once, at its first request: it is granted the next units, or
none if they are not enough.

## Main definitions

* `Arena` — the owners in the order in which they came, and the grants in theirs.
* `Arena.enter`, `Arena.ask` — an owner comes, and asks for units.
* `Arena.spans` — the units of each grant.
-/

namespace Threaders.Lib

/-- Owners, and the number of units granted to some of them. -/
structure Arena (α : Type*) (capacity : ℕ) where
  owners : List α
  grants : List (α × ℕ)
  nodup : owners.Nodup
  granted : (grants.map Prod.fst).Nodup
  entered : ∀ a ∈ grants.map Prod.fst, a ∈ owners
  fits : (grants.map Prod.snd).sum ≤ capacity

namespace Arena

variable {α : Type*} {capacity : ℕ}

/-- No owner has come. -/
def empty : Arena α capacity where
  owners := []
  grants := []
  nodup := List.nodup_nil
  granted := List.nodup_nil
  entered := nofun
  fits := Nat.zero_le _

/-- The units that are taken. -/
def taken (r : Arena α capacity) : ℕ := (r.grants.map Prod.snd).sum

/-- The owner of each grant, its first unit and their number. -/
def spansFrom (k : ℕ) : List (α × ℕ) → List (α × ℕ × ℕ)
  | [] => []
  | g :: gs => (g.1, k, g.2) :: spansFrom (k + g.2) gs

def spans (r : Arena α capacity) : List (α × ℕ × ℕ) := spansFrom 0 r.grants

theorem spansFrom_append (k : ℕ) (gs hs : List (α × ℕ)) :
    spansFrom k (gs ++ hs) = spansFrom k gs ++ spansFrom (k + (gs.map Prod.snd).sum) hs := by
  induction gs generalizing k with
  | nil => rfl
  | cons g gs ih =>
      rw [List.cons_append, spansFrom, ih, spansFrom, List.map_cons, List.sum_cons, Nat.add_assoc]
      rfl

theorem map_fst_spansFrom (k : ℕ) (gs : List (α × ℕ)) :
    (spansFrom k gs).map Prod.fst = gs.map Prod.fst := by
  induction gs generalizing k with
  | nil => rfl
  | cons g gs ih => rw [spansFrom, List.map_cons, ih, List.map_cons]

/-- A span lies between the first unit and the last. -/
theorem bounds_of_mem_spansFrom {k j n : ℕ} {a : α} {gs : List (α × ℕ)}
    (h : (a, j, n) ∈ spansFrom k gs) : k ≤ j ∧ j + n ≤ k + (gs.map Prod.snd).sum := by
  induction gs generalizing k with
  | nil => cases h
  | cons g gs ih =>
      rw [List.map_cons, List.sum_cons]
      rcases List.mem_cons.mp h with heq | h
      · obtain ⟨-, rfl, rfl⟩ := Prod.mk.injEq .. ▸ heq
        omega
      · have := ih h
        omega

variable [DecidableEq α]

/-- An owner comes. -/
def enter (r : Arena α capacity) (a : α) : Arena α capacity :=
  if h : a ∈ r.owners then r else
    { r with
      owners := r.owners ++ [a]
      nodup := List.nodup_append.mpr ⟨r.nodup, List.nodup_singleton a, fun _ hb _ hc heq =>
        h (List.mem_singleton.mp hc ▸ heq ▸ hb)⟩
      entered := fun b hb => List.mem_append_left _ (r.entered b hb) }

/-- The number of units that a request is granted. -/
def share (r : Arena α capacity) (n : ℕ) : ℕ := if r.taken + n ≤ capacity then n else 0

/-- An owner comes with a request. -/
def ask (r : Arena α capacity) (a : α) (n : ℕ) : Arena α capacity :=
  if h : a ∈ r.grants.map Prod.fst then r else
    { r.enter a with
      grants := r.grants ++ [(a, r.share n)]
      granted := by
        rw [List.map_append]
        refine List.nodup_append.mpr ⟨r.granted, List.nodup_singleton a, fun b hb c hc heq => h ?_⟩
        obtain rfl : c = a := List.mem_singleton.mp hc
        exact heq ▸ hb
      entered := by
        have hmem : ∀ b, b = a ∨ b ∈ r.owners → b ∈ (r.enter a).owners := by
          intro b hb
          unfold enter
          split
          · next ha => exact hb.elim (fun heq => heq ▸ ha) id
          · exact List.mem_append.mpr (hb.symm.imp id fun heq => List.mem_singleton.mpr heq)
        intro b hb
        rw [List.map_append, List.mem_append] at hb
        exact hmem b (hb.symm.imp List.mem_singleton.mp (r.entered b))
      fits := by
        have hfits := r.fits
        rw [List.map_append, List.sum_append, List.map_singleton, List.sum_singleton, share]
        split
        · next hroom => exact hroom
        · exact hfits }

/-! ## What a request does -/

variable {r : Arena α capacity} {a : α} {n : ℕ}

theorem owners_enter (r : Arena α capacity) (a : α) :
    (r.enter a).owners = if a ∈ r.owners then r.owners else r.owners ++ [a] := by
  unfold enter
  split <;> rfl

theorem owners_ask (r : Arena α capacity) (a : α) (n : ℕ) :
    (r.ask a n).owners = (r.enter a).owners := by
  unfold ask
  split
  · next h => rw [owners_enter, if_pos (r.entered a h)]
  · rfl

theorem grants_enter (r : Arena α capacity) (a : α) : (r.enter a).grants = r.grants := by
  unfold enter
  split <;> rfl

theorem grants_ask_of_mem (h : a ∈ r.grants.map Prod.fst) : (r.ask a n).grants = r.grants := by
  rw [ask, dif_pos h]

theorem grants_ask_of_not_mem (h : a ∉ r.grants.map Prod.fst) :
    (r.ask a n).grants = r.grants ++ [(a, r.share n)] := by
  rw [ask, dif_neg h]

theorem spans_ask_of_not_mem (h : a ∉ r.grants.map Prod.fst) :
    (r.ask a n).spans = r.spans ++ [(a, r.taken, r.share n)] := by
  rw [spans, grants_ask_of_not_mem h, spansFrom_append, Nat.zero_add]
  rfl

/-- Grants are only added, behind those there are. -/
theorem grants_prefix_ask (r : Arena α capacity) (a : α) (n : ℕ) :
    r.grants <+: (r.ask a n).grants := by
  by_cases h : a ∈ r.grants.map Prod.fst
  · exact (grants_ask_of_mem h).symm ▸ List.prefix_rfl
  · rw [grants_ask_of_not_mem h]
    exact List.prefix_append ..

/-- The grant of an owner, if it has asked. -/
def spansOf (r : Arena α capacity) (a : α) : List (ℕ × ℕ) :=
  (r.spans.filter fun span => span.1 = a).map Prod.snd

theorem spansOf_eq_nil_iff : r.spansOf a = [] ↔ a ∉ r.grants.map Prod.fst := by
  rw [spansOf, List.map_eq_nil_iff, List.filter_eq_nil_iff, spans, ← map_fst_spansFrom 0,
    List.mem_map, not_exists]
  refine forall_congr' fun span => ?_
  rw [not_and, decide_eq_true_iff]

theorem spansOf_congr {r' : Arena α capacity} (h : r'.grants = r.grants) (a : α) :
    r'.spansOf a = r.spansOf a := by
  rw [spansOf, spansOf, spans, spans, h]

theorem spansOf_ask_self (h : a ∉ r.grants.map Prod.fst) :
    (r.ask a n).spansOf a = [(r.taken, r.share n)] := by
  have hnil := spansOf_eq_nil_iff.mpr h
  rw [spansOf, List.map_eq_nil_iff] at hnil
  rw [spansOf, spans_ask_of_not_mem h, List.filter_append, hnil]
  simp

theorem spansOf_ask_of_ne {b : α} (hne : b ≠ a) : (r.ask a n).spansOf b = r.spansOf b := by
  by_cases h : a ∈ r.grants.map Prod.fst
  · exact spansOf_congr (grants_ask_of_mem h) b
  · rw [spansOf, spans_ask_of_not_mem h, List.filter_append, List.map_append]
    simp [spansOf, hne.symm]

/-- What an owner was granted stays as it is when grants are added. -/
theorem spansOf_of_prefix {r' : Arena α capacity} (h : r.grants <+: r'.grants)
    (ha : a ∈ r.grants.map Prod.fst) : r'.spansOf a = r.spansOf a := by
  obtain ⟨later, hlater⟩ := h
  have hnot : a ∉ later.map Prod.fst := by
    have hnodup := r'.granted
    rw [← hlater, List.map_append] at hnodup
    exact fun hmem => (List.nodup_append.mp hnodup).2.2 a ha a hmem rfl
  have hnil : (spansFrom r.taken later).filter (fun span => span.1 = a) = [] := by
    rw [List.filter_eq_nil_iff]
    intro span hspan
    rw [decide_eq_true_iff]
    rintro rfl
    exact hnot (map_fst_spansFrom r.taken later ▸ List.mem_map_of_mem hspan)
  rw [spansOf, spans, ← hlater, spansFrom_append, Nat.zero_add, List.filter_append]
  change List.map _ (_ ++ (spansFrom r.taken later).filter _) = _
  rw [hnil, List.append_nil]
  rfl

/-- The units of a grant are taken. -/
theorem le_taken_of_mem_spansOf {j n : ℕ} (h : (j, n) ∈ r.spansOf a) : j + n ≤ r.taken := by
  rw [spansOf, List.mem_map] at h
  obtain ⟨⟨b, span⟩, hspan, rfl⟩ := h
  have hbounds := bounds_of_mem_spansFrom (List.mem_filter.mp hspan).1
  rw [taken]
  omega

/-- An owner has one grant at most. -/
theorem length_spansOf_le (r : Arena α capacity) (a : α) : (r.spansOf a).length ≤ 1 := by
  have hcount : (r.spansOf a).length = (r.grants.map Prod.fst).count a := by
    rw [spansOf, List.length_map, ← List.countP_eq_length_filter, spans, ← map_fst_spansFrom 0,
      List.count, List.countP_map]
    rfl
  rw [hcount]
  exact List.nodup_iff_count_le_one.mp r.granted a

end Arena

end Threaders.Lib
