import Threaders.Lib.Blocks
import Threaders.Lib.Loop

/-!
# Searching a chain of blocks

A search reads the block at an address and stops if it is a hit; otherwise it goes on to the
next address, and gives up behind a limit.  What it comes to is said without its fuel: it
passes blocks that are no hits (`Passes`), and then finds one (`Finds`) or has none left
(`Misses`).

The search may compute the next address with machine arithmetic.  A chain whose blocks end at
or in front of the limit is passed all the same, as long as the two agree inside it.

## Main definitions

* `scanRound` — a round of the search.
* `Passes`, `Finds`, `Misses` — what the search comes to.
* `scan_eq_some_iff`, `scan_eq_none_iff` — its two results.
* `GetsThrough`, `ends_scan_iff` — the chains of blocks along which it has a result.
-/

namespace Threaders.Lib

variable {B : Type*}

/-- A round of the search. -/
def scanRound (leer : ℤ → Option B) (next : ℤ → B → ℤ) (hit : B → Bool) (limit x : ℤ) :
    Option (ℤ ⊕ Option B) := do
  let b ← leer x
  if hit b then some (.inr (some b))
  else some (if next x b ≤ limit then .inl (next x b) else .inr none)

/-- From `a` on the search passes the blocks `bs`, and is at `e`. -/
def Passes (leer : ℤ → Option B) (next : ℤ → B → ℤ) (hit : B → Bool) (limit : ℤ) :
    ℤ → List B → ℤ → Prop
  | a, [], e => a = e
  | a, b :: bs, e => leer a = some b ∧ hit b = false ∧ next a b ≤ limit ∧
      Passes leer next hit limit (next a b) bs e

/-- From `a` on the first hit is `b`. -/
def Finds (leer : ℤ → Option B) (next : ℤ → B → ℤ) (hit : B → Bool) (limit a : ℤ) (b : B) :
    Prop :=
  ∃ bs x, Passes leer next hit limit a bs x ∧ leer x = some b ∧ hit b = true

/-- From `a` on there is no hit up to the limit. -/
def Misses (leer : ℤ → Option B) (next : ℤ → B → ℤ) (hit : B → Bool) (limit a : ℤ) : Prop :=
  ∃ bs x b, Passes leer next hit limit a bs x ∧ leer x = some b ∧ hit b = false ∧
    limit < next x b

section Search

variable {leer : ℤ → Option B} {next next' : ℤ → B → ℤ} {hit : B → Bool} {limit a e : ℤ}
  {b : B} {bs : List B} {n : ℕ}

theorem scanRound_hit (h : leer a = some b) (hb : hit b = true) :
    scanRound leer next hit limit a = some (.inr (some b)) := by
  simp [scanRound, h, hb]

theorem scanRound_pass (h : leer a = some b) (hb : hit b = false) (hle : next a b ≤ limit) :
    scanRound leer next hit limit a = some (.inl (next a b)) := by
  simp [scanRound, h, hb, hle]

theorem scanRound_end (h : leer a = some b) (hb : hit b = false) (hlt : limit < next a b) :
    scanRound leer next hit limit a = some (.inr none) := by
  simp [scanRound, h, hb, Int.not_le.2 hlt]

/-- The blocks passed take as many rounds. -/
theorem Passes.loop_eq (h : Passes leer next hit limit a bs e) :
    loop (scanRound leer next hit limit) (n + bs.length) a
      = loop (scanRound leer next hit limit) n e := by
  induction bs generalizing a with
  | nil => rw [show a = e from h, List.length_nil, Nat.add_zero]
  | cons b bs ih =>
      obtain ⟨hleer, hb, hle, h⟩ := h
      rw [List.length_cons, ← Nat.add_assoc, loop_next (scanRound_pass hleer hb hle), ih h]

theorem Finds.loop_eq (h : Finds leer next hit limit a b) :
    ∃ n, loop (scanRound leer next hit limit) n a = some (some b) := by
  obtain ⟨bs, x, hpass, hleer, hb⟩ := h
  exact ⟨1 + bs.length, hpass.loop_eq.trans (loop_stop (scanRound_hit hleer hb))⟩

theorem Misses.loop_eq (h : Misses leer next hit limit a) :
    ∃ n, loop (scanRound leer next hit limit) n a = some none := by
  obtain ⟨bs, x, b, hpass, hleer, hb, hlt⟩ := h
  exact ⟨1 + bs.length, hpass.loop_eq.trans (loop_stop (scanRound_end hleer hb hlt))⟩

/-- A search that ends has found a block or has none left. -/
theorem finds_or_misses {r : Option B} (h : loop (scanRound leer next hit limit) n a = some r) :
    match r with
    | some b => Finds leer next hit limit a b
    | none => Misses leer next hit limit a := by
  induction n generalizing a with
  | zero => cases h
  | succ n ih =>
      cases hleer : leer a with
      | none => simp [loop, scanRound, hleer] at h
      | some b =>
          cases hb : hit b with
          | true =>
              rw [loop_stop (scanRound_hit hleer hb)] at h
              obtain rfl := Option.some.inj h
              exact ⟨[], a, rfl, hleer, hb⟩
          | false =>
              by_cases hle : next a b ≤ limit
              · rw [loop_next (scanRound_pass hleer hb hle)] at h
                have h := ih h
                cases r with
                | none =>
                    obtain ⟨bs, x, b', hpass, hrest⟩ := h
                    exact ⟨b :: bs, x, b', ⟨hleer, hb, hle, hpass⟩, hrest⟩
                | some c =>
                    obtain ⟨bs, x, hpass, hrest⟩ := h
                    exact ⟨b :: bs, x, ⟨hleer, hb, hle, hpass⟩, hrest⟩
              · rw [loop_stop (scanRound_end hleer hb (Int.not_le.1 hle))] at h
                obtain rfl := Option.some.inj h
                exact ⟨[], a, b, rfl, hleer, hb, Int.not_le.1 hle⟩

theorem scan_eq_some_iff :
    (∃ n, loop (scanRound leer next hit limit) n a = some (some b)) ↔
      Finds leer next hit limit a b :=
  ⟨fun ⟨_, h⟩ => finds_or_misses h, Finds.loop_eq⟩

theorem scan_eq_none_iff :
    (∃ n, loop (scanRound leer next hit limit) n a = some none) ↔
      Misses leer next hit limit a :=
  ⟨fun ⟨_, h⟩ => finds_or_misses h, Misses.loop_eq⟩

/-- A search that ends comes to the first hit. -/
theorem Finds.eq_some {r : Option B} (h : Finds leer next hit limit a b)
    (hloop : loop (scanRound leer next hit limit) n a = some r) : r = some b := by
  obtain ⟨n', hn'⟩ := h.loop_eq
  exact loop_unique hloop hn'

/-- It comes to nothing if there is none. -/
theorem Misses.eq_none {r : Option B} (h : Misses leer next hit limit a)
    (hloop : loop (scanRound leer next hit limit) n a = some r) : r = none := by
  obtain ⟨n', hn'⟩ := h.loop_eq
  exact loop_unique hloop hn'

/-- There is one first hit. -/
theorem Finds.unique {b' : B} (h : Finds leer next hit limit a b)
    (h' : Finds leer next hit limit a b') : b = b' := by
  obtain ⟨n, hn⟩ := h.loop_eq
  exact Option.some.inj (h'.eq_some hn)

/-- Behind the blocks passed the search comes to the same. -/
theorem Passes.misses_iff (h : Passes leer next hit limit a bs e) :
    Misses leer next hit limit a ↔ Misses leer next hit limit e := by
  rw [← scan_eq_none_iff, ← scan_eq_none_iff]
  constructor
  · rintro ⟨n, hn⟩
    exact ⟨n, h.loop_eq ▸ loop_mono hn (Nat.le_add_right n bs.length)⟩
  · rintro ⟨n, hn⟩
    exact ⟨n + bs.length, h.loop_eq.trans hn⟩

theorem Passes.finds_iff (h : Passes leer next hit limit a bs e) :
    Finds leer next hit limit a b ↔ Finds leer next hit limit e b := by
  rw [← scan_eq_some_iff, ← scan_eq_some_iff]
  constructor
  · rintro ⟨n, hn⟩
    exact ⟨n, h.loop_eq ▸ loop_mono hn (Nat.le_add_right n bs.length)⟩
  · rintro ⟨n, hn⟩
    exact ⟨n + bs.length, h.loop_eq.trans hn⟩

/-- There are none left, or there is a first one. -/
theorem Misses.not_finds (h : Misses leer next hit limit a) : ¬ Finds leer next hit limit a b := by
  intro h'
  obtain ⟨n, hn⟩ := h.loop_eq
  cases h'.eq_some hn

/-- A chain without a hit is passed, if it ends at or in front of the limit. -/
theorem Passes.of_blocks (hnext : ∀ x b, x ≤ next' x b)
    (hagree : ∀ x b, a ≤ x → next' x b ≤ e → next x b = next' x b)
    (h : Blocks leer next' a bs e) (hmiss : ∀ b ∈ bs, hit b = false) (he : e ≤ limit) :
    Passes leer next hit limit a bs e := by
  induction bs generalizing a with
  | nil => exact h
  | cons b bs ih =>
      obtain ⟨hleer, h⟩ := h
      have hle := blocks_le hnext h
      have hsame := hagree a b (Int.le_refl a) hle
      refine ⟨hleer, hmiss b List.mem_cons_self, hsame ▸ Int.le_trans hle he, ?_⟩
      rw [hsame]
      refine ih (fun x b' hx => hagree x b' (Int.le_trans (hnext a b) hx)) h fun b' hb' => ?_
      exact hmiss b' (List.mem_cons_of_mem b hb')

/-- A chain without a hit that ends just behind the limit has none. -/
theorem Misses.of_blocks (hnext : ∀ x b, x < next' x b)
    (hagree : ∀ x b, a ≤ x → next' x b ≤ e → next x b = next' x b)
    (h : Blocks leer next' a bs e) (hmiss : ∀ b ∈ bs, hit b = false) (ha : a ≤ limit)
    (he : e = limit + 1) : Misses leer next hit limit a := by
  rcases List.eq_nil_or_concat bs with rfl | ⟨init, b, rfl⟩
  · have : a = e := h
    omega
  · rw [List.concat_eq_append] at h hmiss
    obtain ⟨x, hinit, hleer, rfl⟩ := blocks_append.1 h
    have hax := blocks_le (fun x b => Int.le_of_lt (hnext x b)) hinit
    have hxe := hnext x b
    refine ⟨init, x, b, ?_, hleer, hmiss b (by simp), ?_⟩
    · refine Passes.of_blocks (fun x b => Int.le_of_lt (hnext x b)) (fun y b' hy hy' => ?_) hinit
        (fun b' hb' => hmiss b' (by simp [hb'])) (by omega)
      exact hagree y b' hy (by omega)
    · rw [hagree x b hax (Int.le_refl _)]
      omega

end Search

/-! ## Searches that have a result -/

/-- The block at the first address is no hit, and leads to the second, not behind the limit. -/
def GoesOn (leer : ℤ → Option B) (next : ℤ → B → ℤ) (hit : B → Bool) (limit x y : ℤ) : Prop :=
  ∃ b, leer x = some b ∧ hit b = false ∧ y = next x b ∧ y ≤ limit

/-- The addresses that a search comes to. -/
def ComesTo (leer : ℤ → Option B) (next : ℤ → B → ℤ) (hit : B → Bool) (limit : ℤ) :
    ℤ → ℤ → Prop := Relation.ReflTransGen (GoesOn leer next hit limit)

/-- From `a` on, up to the first hit, all blocks can be read and none comes again. -/
structure GetsThrough (leer : ℤ → Option B) (next : ℤ → B → ℤ) (hit : B → Bool)
    (limit a : ℤ) : Prop where
  reads : ∀ x, ComesTo leer next hit limit a x → leer x ≠ none
  advances : ∀ x, ComesTo leer next hit limit a x →
    ¬ Relation.TransGen (GoesOn leer next hit limit) x x

section Result
variable {leer : ℤ → Option B} {next : ℤ → B → ℤ} {hit : B → Bool} {limit a x y : ℤ} {b : B}

/-- Behind a block that is no hit there is the first hit that there is behind it. -/
theorem Finds.head {b' : B} (hleer : leer a = some b') (hb : hit b' = false)
    (hle : next a b' ≤ limit) (h : Finds leer next hit limit (next a b') b) :
    Finds leer next hit limit a b := by
  obtain ⟨bs, x, hpass, hrest⟩ := h
  exact ⟨b' :: bs, x, ⟨hleer, hb, hle, hpass⟩, hrest⟩

/-- There is none if there is none behind it, up to the limit. -/
theorem Misses.head (hleer : leer a = some b) (hb : hit b = false)
    (h : next a b ≤ limit → Misses leer next hit limit (next a b)) :
    Misses leer next hit limit a := by
  by_cases hle : next a b ≤ limit
  · obtain ⟨bs, x, b', hpass, hrest⟩ := h hle
    exact ⟨b :: bs, x, b', ⟨hleer, hb, hle, hpass⟩, hrest⟩
  · exact ⟨[], a, b, rfl, hleer, hb, Int.not_le.1 hle⟩

/-- Induction along the blocks that a search without a hit comes to, from the last one back. -/
theorem Misses.induction {P : ℤ → Prop} (h : Misses leer next hit limit a)
    (hstep : ∀ x b, ComesTo leer next hit limit a x → leer x = some b → hit b = false →
      (next x b ≤ limit → P (next x b)) → P x) : P a := by
  obtain ⟨bs, e, b, hpass, hleer, hb, hlt⟩ := h
  suffices H : ∀ x, ComesTo leer next hit limit a x → Passes leer next hit limit x bs e → P x from
    H a .refl hpass
  clear hpass
  induction bs with
  | nil =>
      rintro x hx rfl
      exact hstep x b hx hleer hb fun hle => absurd hle (Int.not_le.2 hlt)
  | cons b' bs ih =>
      rintro x hx ⟨hleer', hb', hle, hpass⟩
      exact hstep x b' hx hleer' hb' fun _ => ih _ (hx.tail ⟨b', hleer', hb', rfl, hle⟩) hpass

/-- The same along those up to the first hit. -/
theorem Finds.induction {P : ℤ → Prop} (h : Finds leer next hit limit a b)
    (hstop : ∀ x, ComesTo leer next hit limit a x → leer x = some b → hit b = true → P x)
    (hstep : ∀ x b, ComesTo leer next hit limit a x → leer x = some b → hit b = false →
      next x b ≤ limit → P (next x b) → P x) : P a := by
  obtain ⟨bs, e, hpass, hleer, hb⟩ := h
  suffices H : ∀ x, ComesTo leer next hit limit a x → Passes leer next hit limit x bs e → P x from
    H a .refl hpass
  clear hpass
  induction bs with
  | nil =>
      rintro x hx rfl
      exact hstop x hx hleer hb
  | cons b' bs ih =>
      rintro x hx ⟨hleer', hb', hle, hpass⟩
      exact hstep x b' hx hleer' hb' hle (ih _ (hx.tail ⟨b', hleer', hb', rfl, hle⟩) hpass)

/-- A search comes no further than to a hit. -/
theorem ComesTo.eq_of_hit (h : ComesTo leer next hit limit a x) (hleer : leer a = some b)
    (hb : hit b = true) : x = a := by
  rcases Relation.ReflTransGen.cases_head h with rfl | ⟨y, ⟨b', hleer', hb', -⟩, -⟩
  · rfl
  · rw [hleer] at hleer'
    obtain rfl := Option.some.inj hleer'
    rw [hb] at hb'
    cases hb'

theorem ComesTo.eq_or_next (h : ComesTo leer next hit limit a x) (hleer : leer a = some b) :
    x = a ∨ ComesTo leer next hit limit (next a b) x := by
  rcases Relation.ReflTransGen.cases_head h with rfl | ⟨y, ⟨b', hleer', -, rfl, -⟩, hrest⟩
  · exact .inl rfl
  · rw [hleer] at hleer'
    obtain rfl := Option.some.inj hleer'
    exact .inr hrest

theorem scanRound_eq_inl_iff :
    scanRound leer next hit limit x = some (.inl y) ↔ GoesOn leer next hit limit x y := by
  cases hleer : leer x with
  | none => simp [scanRound, GoesOn, hleer]
  | some b =>
      cases hb : hit b with
      | true =>
          rw [scanRound_hit hleer hb]
          simp [GoesOn, hleer, hb]
      | false =>
          by_cases hle : next x b ≤ limit
          · rw [scanRound_pass hleer hb hle]
            simp only [GoesOn, hleer, Option.some.injEq, Sum.inl.injEq, exists_eq_left', hb,
              true_and]
            constructor
            · rintro rfl
              exact ⟨rfl, hle⟩
            · rintro ⟨rfl, -⟩
              rfl
          · rw [scanRound_end hleer hb (Int.not_le.1 hle)]
            simp only [GoesOn, hleer, Option.some.injEq, reduceCtorEq, exists_eq_left', false_iff,
              not_and]
            rintro - rfl
            exact hle

theorem scanRound_eq_none_iff : scanRound leer next hit limit x = none ↔ leer x = none := by
  cases hleer : leer x with
  | none => simp [scanRound, hleer]
  | some b =>
      simp only [scanRound, hleer, Option.bind_eq_bind, Option.bind_some, reduceCtorEq, iff_false]
      split <;> simp

theorem visits_scanRound_iff :
    Visits (scanRound leer next hit limit) a x ↔ ComesTo leer next hit limit a x := by
  have hrounds : (fun x y => scanRound leer next hit limit x = some (.inl y))
      = GoesOn leer next hit limit := by
    funext x y
    exact propext scanRound_eq_inl_iff
  rw [Visits, ComesTo, hrounds]

/-- A search over finitely many addresses has a result exactly if it gets through. -/
theorem ends_scan_iff (hfinite : {x | ComesTo leer next hit limit a x}.Finite) :
    Ends (scanRound leer next hit limit) a ↔ GetsThrough leer next hit limit a := by
  have hrounds : (fun x y => scanRound leer next hit limit x = some (.inl y))
      = GoesOn leer next hit limit := by
    funext x y
    exact propext scanRound_eq_inl_iff
  simp only [← visits_scanRound_iff] at hfinite
  constructor
  · intro h
    refine ⟨fun x hx hnone => ?_, fun x hx => ?_⟩
    · exact h.ne_none (visits_scanRound_iff.2 hx) (scanRound_eq_none_iff.2 hnone)
    · exact hrounds ▸ h.not_again (visits_scanRound_iff.2 hx)
  · rintro ⟨hreads, hadvances⟩
    rw [ends_iff_not_again hfinite fun x hx hnone =>
      hreads x (visits_scanRound_iff.1 hx) (scanRound_eq_none_iff.1 hnone)]
    intro x hx
    rw [hrounds]
    exact hadvances x (visits_scanRound_iff.1 hx)

end Result

end Threaders.Lib
