import Mathlib.Data.Int.Notation
import Mathlib.Data.List.Induction
import Mathlib.Logic.Function.Basic
import Mathlib.Tactic.Common
import Threaders.Lib.Run

/-!
# Heaps of chunks

A heap is a row of chunks, each behind a header of fixed length.  A request splits the first free
chunk that is larger: its start is used from then on, what is left of it is free.  Nothing moves a
chunk that is used, so it keeps the bytes that were stored in it last, whatever is asked for in
any of the heaps.

## Main definitions

* `Chunk`, `firstFit`, `fill`, `usedFrom` — a row of chunks, what is done to it, and its used ones.
* `Heaps`, `Heaps.Step` — the heaps of several owners, which lie apart.
* `Heaps.keeps_run` — a used chunk keeps its place and what was stored last.
-/

namespace Threaders.Lib

/-- A chunk, with the bytes behind its header. -/
structure Chunk (β : Type*) where
  free : Bool
  bytes : List β

section Rows
variable {β : Type*}

/-- A free chunk larger than the request. -/
def Chunk.fits (n : ℕ) (b : Chunk β) : Bool := b.free && decide (n < b.bytes.length)

/-- The bytes that a row takes, its headers included. -/
def span (h : ℕ) : List (Chunk β) → ℕ
  | [] => 0
  | b :: bs => h + b.bytes.length + span h bs

/-- The two chunks of one that is split, and the header between them. -/
def Chunk.split (h n : ℕ) (b : Chunk β) : List (Chunk β) :=
  [⟨false, b.bytes.take n⟩, ⟨true, b.bytes.drop (n + h)⟩]

/-- The first chunk that fits is split. -/
def firstFit (h n : ℕ) : List (Chunk β) → List (Chunk β)
  | [] => []
  | b :: bs => if b.fits n then b.split h n ++ bs else b :: firstFit h n bs

/-- It leaves room for a header. -/
def Room (h n : ℕ) (bs : List (Chunk β)) : Prop :=
  ∀ b, bs.find? (Chunk.fits n) = some b → n + h ≤ b.bytes.length

/-- The bytes of the used chunk at `x` are replaced, in the row from `a` on. -/
def fill (h : ℕ) (x : ℤ) (v : List β) : ℤ → List (Chunk β) → List (Chunk β)
  | _, [] => []
  | a, b :: bs =>
      if a + h = x ∧ b.free = false then ⟨false, v⟩ :: bs
      else b :: fill h x v (a + h + b.bytes.length) bs

/-- The used chunks of the row from `a` on: where their bytes are, and these. -/
def usedFrom (h : ℕ) : ℤ → List (Chunk β) → List (ℤ × List β)
  | _, [] => []
  | a, b :: bs =>
      (if b.free then [] else [(a + h, b.bytes)]) ++ usedFrom h (a + h + b.bytes.length) bs

variable {h n : ℕ} {a x y : ℤ} {v w : List β} {b : Chunk β} {bs cs : List (Chunk β)}

theorem span_append : span h (bs ++ cs) = span h bs + span h cs := by
  induction bs with
  | nil => rw [List.nil_append, span, Nat.zero_add]
  | cons b bs ih =>
      rw [List.cons_append, span, span, ih]
      omega

theorem span_split (hroom : n + h ≤ b.bytes.length) :
    span h (b.split h n) = h + b.bytes.length := by
  simp only [Chunk.split, span, List.length_take, List.length_drop]
  omega

theorem room_cons_of_fits (hfits : b.fits n = true) (hroom : Room h n (b :: bs)) :
    n + h ≤ b.bytes.length := hroom b (List.find?_cons_of_pos hfits)

theorem room_cons_of_not_fits (hfits : ¬ b.fits n = true) (hroom : Room h n (b :: bs)) :
    Room h n bs := fun b' hb' => hroom b' (by rw [List.find?_cons_of_neg hfits, hb'])

/-- A request leaves the size of the row. -/
theorem span_firstFit (hroom : Room h n bs) : span h (firstFit h n bs) = span h bs := by
  induction bs with
  | nil => rfl
  | cons b bs ih =>
      rw [firstFit]
      split
      · next hfits =>
          rw [span_append, span_split (room_cons_of_fits hfits hroom), span]
      · next hfits => rw [span, span, ih (room_cons_of_not_fits hfits hroom)]

theorem firstFit_eq_self (hfits : ∀ b ∈ bs, b.fits n = false) : firstFit h n bs = bs := by
  induction bs with
  | nil => rfl
  | cons b bs ih =>
      rw [firstFit, hfits b List.mem_cons_self, if_neg Bool.false_ne_true,
        ih fun b' hb' => hfits b' (List.mem_cons_of_mem b hb')]

theorem firstFit_append (hbs : ∀ b ∈ bs, b.fits n = false) (hb : b.fits n = true) :
    firstFit h n (bs ++ b :: cs) = bs ++ (b.split h n ++ cs) := by
  induction bs with
  | nil => rw [List.nil_append, firstFit, if_pos hb, List.nil_append]
  | cons b' bs ih =>
      rw [List.cons_append, firstFit, hbs b' List.mem_cons_self, if_neg Bool.false_ne_true,
        ih fun c hc => hbs c (List.mem_cons_of_mem b' hc), List.cons_append]

theorem usedFrom_append :
    usedFrom h a (bs ++ cs) = usedFrom h a bs ++ usedFrom h (a + span h bs) cs := by
  induction bs generalizing a with
  | nil => rw [List.nil_append, usedFrom, List.nil_append, span, Int.natCast_zero, Int.add_zero]
  | cons b bs ih =>
      have hend : a + h + b.bytes.length + span h bs = a + span h (b :: bs) := by
        rw [span]
        omega
      rw [List.cons_append, usedFrom, ih, usedFrom, List.append_assoc, hend]

/-- A used chunk lies in the row. -/
theorem bounds_of_mem_usedFrom (hmem : (x, v) ∈ usedFrom h a bs) :
    a + h ≤ x ∧ x + v.length ≤ a + span h bs := by
  induction bs generalizing a with
  | nil => cases hmem
  | cons b bs ih =>
      rw [usedFrom, List.mem_append] at hmem
      rw [span]
      rcases hmem with hmem | hmem
      · split at hmem
        · cases hmem
        · obtain ⟨rfl, rfl⟩ := Prod.mk.inj (List.mem_singleton.mp hmem)
          omega
      · have := ih hmem
        omega

/-- A request leaves every used chunk where it is. -/
theorem mem_usedFrom_firstFit (hroom : Room h n bs) (hmem : (x, v) ∈ usedFrom h a bs) :
    (x, v) ∈ usedFrom h a (firstFit h n bs) := by
  induction bs generalizing a with
  | nil => cases hmem
  | cons b bs ih =>
      rw [usedFrom, List.mem_append] at hmem
      rw [firstFit]
      split
      · next hfits =>
          have hfree : b.free = true := by
            rw [Chunk.fits, Bool.and_eq_true] at hfits
            exact hfits.1
          rw [hfree, if_pos rfl] at hmem
          have hend : a + span h (b.split h n) = a + h + b.bytes.length := by
            rw [span_split (room_cons_of_fits hfits hroom)]
            omega
          rw [usedFrom_append, hend]
          exact List.mem_append_right _ (hmem.resolve_left List.not_mem_nil)
      · next hfits =>
          rw [usedFrom, List.mem_append]
          exact hmem.imp_right (ih (room_cons_of_not_fits hfits hroom))

theorem span_fill (hmem : (x, w) ∈ usedFrom h a bs) (hh : 0 < h) (hlength : v.length = w.length) :
    span h (fill h x v a bs) = span h bs := by
  induction bs generalizing a with
  | nil => rfl
  | cons b bs ih =>
      rw [usedFrom, List.mem_append] at hmem
      rw [fill]
      split
      · next hhere =>
          rcases hmem with hmem | hmem
          · rw [hhere.2, if_neg Bool.false_ne_true] at hmem
            obtain ⟨-, rfl⟩ := Prod.mk.inj (List.mem_singleton.mp hmem)
            rw [span, span, hlength]
          · have := (bounds_of_mem_usedFrom hmem).1
            omega
      · next hhere =>
          rw [span, span, ih (hmem.resolve_left fun hmem => hhere ?_)]
          split at hmem
          · cases hmem
          · next hfree =>
              exact ⟨(Prod.mk.inj (List.mem_singleton.mp hmem)).1.symm,
                Bool.eq_false_iff.mpr hfree⟩

/-- A store replaces the bytes of one chunk, and no others. -/
theorem mem_usedFrom_fill (hh : 0 < h) (hx : (x, w) ∈ usedFrom h a bs)
    (hlength : v.length = w.length) {u : List β} (hmem : (y, u) ∈ usedFrom h a bs) :
    (y, if x = y then v else u) ∈ usedFrom h a (fill h x v a bs) := by
  induction bs generalizing a with
  | nil => cases hmem
  | cons b bs ih =>
      have hlater : ∀ {z : ℤ} {u : List β}, (z, u) ∈ usedFrom h (a + h + b.bytes.length) bs →
          a + h < z := fun hz => by
        have := (bounds_of_mem_usedFrom hz).1
        omega
      have hhere : ∀ {z : ℤ} {u : List β}, (z, u) ∈ (if b.free then [] else [(a + h, b.bytes)]) →
          (a + h = z ∧ b.free = false) ∧ u = b.bytes := fun hz => by
        split at hz
        · cases hz
        · next hfree =>
            obtain ⟨rfl, rfl⟩ := Prod.mk.inj (List.mem_singleton.mp hz)
            exact ⟨⟨rfl, Bool.eq_false_iff.mpr hfree⟩, rfl⟩
      rw [usedFrom, List.mem_append] at hmem hx
      rw [fill]
      split
      · next hat =>
          obtain ⟨rfl, hfree⟩ := hat
          have hbytes : w = b.bytes :=
            hx.elim (fun hx => (hhere hx).2) fun hx => absurd (hlater hx) (Int.lt_irrefl _)
          rw [usedFrom, if_neg Bool.false_ne_true, List.mem_append, hlength, hbytes]
          rcases hmem with hmem | hmem
          · obtain ⟨⟨rfl, -⟩, -⟩ := hhere hmem
            rw [if_pos rfl]
            exact .inl List.mem_cons_self
          · rw [if_neg (Int.ne_of_lt (hlater hmem))]
            exact .inr hmem
      · next hat =>
          have hx := hx.resolve_left fun hx => hat (hhere hx).1
          rw [usedFrom, List.mem_append]
          rcases hmem with hmem | hmem
          · have hne : x ≠ y := fun heq => hat (heq ▸ (hhere hmem).1)
            rw [if_neg hne]
            exact .inl hmem
          · exact .inr (ih hx hmem)

theorem fill_append (hh : 0 < h) :
    fill h (a + span h bs + h) v a (bs ++ ⟨false, w⟩ :: cs) = bs ++ ⟨false, v⟩ :: cs := by
  induction bs generalizing a with
  | nil =>
      rw [List.nil_append, fill, if_pos ⟨by rw [span]; omega, rfl⟩, List.nil_append]
  | cons b bs ih =>
      have hend : a + span h (b :: bs) = a + h + b.bytes.length + span h bs := by
        rw [span]
        omega
      rw [List.cons_append, fill, if_neg (fun hat => by omega), hend, ih, List.cons_append]

/-- There is one used chunk at an address. -/
theorem usedFrom_unique (hh : 0 < h) (hv : (x, v) ∈ usedFrom h a bs)
    (hw : (x, w) ∈ usedFrom h a bs) : v = w := by
  induction bs generalizing a with
  | nil => cases hv
  | cons b bs ih =>
      have hhere : ∀ {u : List β}, (x, u) ∈ (if b.free then [] else [(a + h, b.bytes)]) →
          x = a + h ∧ u = b.bytes := fun hu => by
        split at hu
        · cases hu
        · exact Prod.mk.inj (List.mem_singleton.mp hu)
      rw [usedFrom, List.mem_append] at hv hw
      rcases hv with hv | hv <;> rcases hw with hw | hw
      · rw [(hhere hv).2, (hhere hw).2]
      · have := (hhere hv).1
        have := (bounds_of_mem_usedFrom hw).1
        omega
      · have := (hhere hw).1
        have := (bounds_of_mem_usedFrom hv).1
        omega
      · exact ih hv hw

/-- The used chunks, one by one. -/
theorem mem_usedFrom_iff : (x, v) ∈ usedFrom h a bs ↔
    ∃ pre post, bs = pre ++ ⟨false, v⟩ :: post ∧ x = a + span h pre + h := by
  constructor
  · intro hmem
    induction bs generalizing a with
    | nil => cases hmem
    | cons b bs ih =>
        rw [usedFrom, List.mem_append] at hmem
        rcases hmem with hmem | hmem
        · split at hmem
          · cases hmem
          · next hfree =>
              obtain ⟨rfl, rfl⟩ := Prod.mk.inj (List.mem_singleton.mp hmem)
              refine ⟨[], bs, ?_, ?_⟩
              · rw [← Bool.eq_false_iff.mpr hfree]
                rfl
              · rw [span]
                omega
        · obtain ⟨pre, post, rfl, rfl⟩ := ih hmem
          refine ⟨b :: pre, post, rfl, ?_⟩
          rw [span]
          omega
  · rintro ⟨pre, post, rfl, rfl⟩
    rw [usedFrom_append, usedFrom, if_neg Bool.false_ne_true]
    exact List.mem_append_right _ (List.mem_append_left _ List.mem_cons_self)

end Rows

/-! ## Several heaps -/

/-- What is asked of the heaps. -/
inductive HeapOp (α β : Type*)
  | alloc (a : α) (n : ℕ)
  | store (x : ℤ) (v : List β)
  | rest

/-- Two rows do not meet. -/
def Apart {β : Type*} (h : ℕ) (r r' : ℤ × List (Chunk β)) : Prop :=
  r.1 + span h r.2 ≤ r'.1 ∨ r'.1 + span h r'.2 ≤ r.1

/-- The heap of each owner that has one: its address and its chunks. -/
structure Heaps (α β : Type*) (h : ℕ) where
  row : α → Option (ℤ × List (Chunk β))
  apart : ∀ a b r r', a ≠ b → row a = some r → row b = some r' → Apart h r r'

namespace Heaps
variable {α β : Type*} {h : ℕ}

def empty : Heaps α β h where
  row _ := none
  apart := nofun

/-- The used chunks of an owner. -/
def used (H : Heaps α β h) (a : α) : List (ℤ × List β) :=
  match H.row a with
  | none => []
  | some r => usedFrom h r.1 r.2

theorem used_of_row {H : Heaps α β h} {a : α} {r : ℤ × List (Chunk β)} (hrow : H.row a = some r) :
    H.used a = usedFrom h r.1 r.2 := by
  rw [used, hrow]

/-- A row in the place of one of its size. -/
theorem apart_of_span {H : Heaps α β h} {a : α} {r : ℤ × List (Chunk β)} {bs : List (Chunk β)}
    (hold : H.row a = some r) (hspan : span h bs = span h r.2) :
    ∀ b r', b ≠ a → H.row b = some r' → Apart h (r.1, bs) r' := by
  intro b r' hne hr'
  have hapart := H.apart a b r r' hne.symm hold hr'
  rw [Apart] at hapart ⊢
  rwa [hspan]

variable [DecidableEq α]

/-- An owner's heap is put in place of the one it had, if any. -/
def put (H : Heaps α β h) (a : α) (r : ℤ × List (Chunk β))
    (hapart : ∀ b r', b ≠ a → H.row b = some r' → Apart h r r') : Heaps α β h where
  row := Function.update H.row a (some r)
  apart b b' r₁ r₂ hne h₁ h₂ := by
    by_cases hb : b = a
    · subst hb
      rw [Function.update_self, Option.some.injEq] at h₁
      rw [Function.update_of_ne hne.symm] at h₂
      exact h₁ ▸ hapart b' r₂ hne.symm h₂
    · rw [Function.update_of_ne hb] at h₁
      by_cases hb' : b' = a
      · subst hb'
        rw [Function.update_self, Option.some.injEq] at h₂
        exact h₂ ▸ (hapart b r₁ hb h₁).symm
      · rw [Function.update_of_ne hb'] at h₂
        exact H.apart b b' r₁ r₂ hne h₁ h₂

/-- A request makes a heap for an owner without one, whose first chunk is what was asked for, or
makes none; or splits a chunk of the heap there is.  A store replaces the bytes of a used chunk by
as many. -/
inductive Step (H : Heaps α β h) : HeapOp α β → Heaps α β h → Prop
  | create {a : α} {n : ℕ} {r : ℤ × List (Chunk β)} {v : List β} (hnew : H.row a = none)
      (hlength : v.length = n) (hfirst : (r.1 + h, v) ∈ usedFrom h r.1 r.2)
      (hapart : ∀ b r', b ≠ a → H.row b = some r' → Apart h r r') :
      Step H (.alloc a n) (H.put a r hapart)
  | refuse {a : α} {n : ℕ} (hnew : H.row a = none) : Step H (.alloc a n) H
  | alloc {a : α} {n : ℕ} {r : ℤ × List (Chunk β)} (hold : H.row a = some r)
      (hroom : Room h n r.2)
      (hapart : ∀ b r', b ≠ a → H.row b = some r' → Apart h (r.1, firstFit h n r.2) r') :
      Step H (.alloc a n) (H.put a (r.1, firstFit h n r.2) hapart)
  | store {a : α} {x : ℤ} {v w : List β} {r : ℤ × List (Chunk β)} (hold : H.row a = some r)
      (hmem : (x, w) ∈ usedFrom h r.1 r.2) (hlength : v.length = w.length)
      (hapart : ∀ b r', b ≠ a → H.row b = some r' → Apart h (r.1, fill h x v r.1 r.2) r') :
      Step H (.store x v) (H.put a (r.1, fill h x v r.1 r.2) hapart)
  | miss {x : ℤ} {v : List β} (hmiss : ∀ a w, (x, w) ∉ H.used a) : Step H (.store x v) H
  | rest : Step H .rest H

/-- The bytes of the chunk at `x` after an operation. -/
def stored (x : ℤ) (w : List β) : HeapOp α β → List β
  | .store y v => if y = x then v else w
  | _ => w

/-- And after several of them. -/
def lastStored (x : ℤ) (w : List β) (ops : List (HeapOp α β)) : List β := ops.foldl (stored x) w

variable {H H' : Heaps α β h} {op : HeapOp α β} {ops : List (HeapOp α β)} {a b : α} {x : ℤ}
  {w : List β} {r : ℤ × List (Chunk β)}

@[simp] theorem row_put_self (hapart : ∀ b r', b ≠ a → H.row b = some r' → Apart h r r') :
    (H.put a r hapart).row a = some r := Function.update_self ..

theorem row_put_of_ne (hne : b ≠ a)
    (hapart : ∀ b r', b ≠ a → H.row b = some r' → Apart h r r') :
    (H.put a r hapart).row b = H.row b := Function.update_of_ne hne ..

theorem used_put_self
    (hapart : ∀ b r', b ≠ a → H.row b = some r' → Apart h r r') :
    (H.put a r hapart).used a = usedFrom h r.1 r.2 := used_of_row (row_put_self hapart)

theorem used_put_of_ne (hne : b ≠ a)
    (hapart : ∀ b r', b ≠ a → H.row b = some r' → Apart h r r') :
    (H.put a r hapart).used b = H.used b := by
  rw [used, used, row_put_of_ne hne]

/-- A used chunk belongs to one owner. -/
theorem owner_unique (hh : 0 < h) {u : List β} (ha : (x, w) ∈ H.used a) (hb : (x, u) ∈ H.used b) :
    a = b := by
  by_contra hne
  rw [used] at ha hb
  split at ha
  · cases ha
  · next r hr =>
      split at hb
      · cases hb
      · next r' hr' =>
          have hbounds := bounds_of_mem_usedFrom ha
          have hbounds' := bounds_of_mem_usedFrom hb
          rcases H.apart a b r r' hne hr hr' with hapart | hapart <;> omega

/-- A used chunk stays where it is, with its size, and holds what was stored in it. -/
theorem Step.keeps (hh : 0 < h) (hstep : Step H op H') (hmem : (x, w) ∈ H.used a) :
    (x, stored x w op) ∈ H'.used a ∧ (stored x w op).length = w.length := by
  cases hstep with
  | @create b n r v hnew =>
      have hne : a ≠ b := by
        rintro rfl
        rw [used, hnew] at hmem
        cases hmem
      rw [used_put_of_ne hne]
      exact ⟨hmem, rfl⟩
  | refuse => exact ⟨hmem, rfl⟩
  | @alloc b n r hold hroom =>
      refine ⟨?_, rfl⟩
      by_cases hb : a = b
      · subst hb
        rw [used_of_row hold] at hmem
        rw [used_put_self]
        exact mem_usedFrom_firstFit hroom hmem
      · rwa [used_put_of_ne hb]
  | @store b y v u r hold hy hlength =>
      by_cases hb : a = b
      · subst hb
        rw [used_of_row hold] at hmem
        rw [used_put_self]
        refine ⟨mem_usedFrom_fill hh hy hlength hmem, ?_⟩
        rw [stored]
        split
        · next heq => rw [hlength, usedFrom_unique hh hy (heq ▸ hmem)]
        · rfl
      · rw [← used_of_row hold] at hy
        have hne : y ≠ x := fun heq => hb (owner_unique hh hmem (heq ▸ hy))
        rw [used_put_of_ne hb, stored, if_neg hne]
        exact ⟨hmem, rfl⟩
  | @miss y v hmiss =>
      have hne : y ≠ x := fun heq => hmiss a w (heq ▸ hmem)
      rw [stored, if_neg hne]
      exact ⟨hmem, rfl⟩
  | rest => exact ⟨hmem, rfl⟩

/-- So it does in a run, with what was stored last. -/
theorem keeps_run (hh : 0 < h) (hrun : Run Step H ops H') (hmem : (x, w) ∈ H.used a) :
    (x, lastStored x w ops) ∈ H'.used a ∧ (lastStored x w ops).length = w.length := by
  induction hrun generalizing w with
  | nil => exact ⟨hmem, rfl⟩
  | cons hstep _ ih =>
      obtain ⟨hnow, hlength⟩ := hstep.keeps hh hmem
      obtain ⟨hlater, hlength'⟩ := ih hnow
      exact ⟨hlater, hlength'.trans hlength⟩

end Heaps

end Threaders.Lib
