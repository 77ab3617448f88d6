import Threaders.Hilolay.Slots

/-!
# Preemption that does no harm

What the ready queue looks like depends on the statement on top: whole, with the current ULT
off it, or as it is in the middle of `th_yield` or of the `lib_enqueue` of `th_create`.  In the
middle a handler either finds the queue empty and does nothing, or finds the ULT it interrupts
alone in it, which it takes off, puts back and switches to.

## Main definitions

* `Machine.Phase` — the queue as the statement on top leaves it.
* `preemption_safety` — in an undisturbed run no ULT is lost or duplicated.
-/

namespace Threaders.Hilolay

open Lib

/-- A statement of a handler that has not taken anybody off the queue yet. -/
def Frame.Looking : Frame → Prop
  | .handler | .nextRead | .nextTest _ | .nextPop _ => True
  | _ => False

namespace Machine

/-! ## The queue and the statement on top -/

/-- Whose turn it is: that of `current_ult`, or of a ULT that has finished. -/
def Turn (m : Machine) : Bool → Prop
  | false => (m.running.ult, m.lib.currentUlt) ∈ m.enqueued
  | true => m.lib.state m.lib.currentUlt = .free ∧
      m.lib.context m.lib.currentUlt = some m.running.ult ∧ ∀ p ∈ m.written, p.1 ≠ m.running.ult

/-- The slot that is off the queue because its ULT runs. -/
def out (m : Machine) : Bool → List Ult
  | false => [m.lib.currentUlt]
  | true => []

/-- The ready queue is the list `q`, and these and the slots `out` are all there are. -/
structure Queued (m : Machine) (q out : List Ult) : Prop where
  rep : Rep m.lib.links q
  perm : (q ++ out).Perm (m.enqueued.map Prod.snd)

/-- `READY_QUEUE_HEAD` in the `lib_enqueue` of `th_create`, once its test is done. -/
def Linking (m : Machine) (ult : Ult) : EnqueueAt → Prop
  | .ready | .headTest => False
  | .head => m.lib.readyQueueHead = none
  | .tailTest | .link => m.lib.readyQueueHead = some ult
  | .tail | .close => True

/-- The queue in the middle of an operation, by its next statement. -/
inductive At (m : Machine) : Bool → Frame → Prop
  /-- `th_yield` has taken a ULT off. -/
  | popped {dying : Bool} {q : List Ult} {sel : Ult} {w : Frame}
      (hw : w ∈ [.nextReturn (some sel), .yieldTest (some sel), .yieldRequeue sel])
      (turn : m.Turn dying) (queued : m.Queued q (sel :: m.out dying)) : At m dying w
  /-- It puts the current one back. -/
  | requeuing {q : List Ult} {sel ult : Ult} {point : EnqueueAt} (hult : ult = m.lib.currentUlt)
      (turn : m.Turn false) (early : point.Early → Rep m.lib.links q)
      (rep : Rep (point.finish m.lib.links ult) (q ++ [ult]))
      (perm : (q ++ [sel, ult]).Perm (m.enqueued.map Prod.snd)) :
      At m false (.enqueue point ult (.yield sel))
  /-- It goes on to the one it has taken off. -/
  | selected {dying : Bool} {q : List Ult} {sel : Ult} {w : Frame}
      (hw : w ∈ [.yieldSummarize sel, .yieldRunning sel, .yieldBurst sel, .yieldOld sel,
        .yieldNew sel (some m.running.ult),
        .yieldCurrent sel (some m.running.ult) (m.lib.context sel)])
      (turn : m.Turn dying) (hne : sel ≠ m.lib.currentUlt) (queued : m.Queued q [sel]) :
      At m dying w
  /-- `current_ult` is the new ULT already. -/
  | swapping {dying : Bool} {q : List Ult} {new : Option ℕ}
      (hnew : new = m.lib.context m.lib.currentUlt)
      (old : dying = false → ∃ slot, (m.running.ult, slot) ∈ m.enqueued ∧ slot ≠ m.lib.currentUlt)
      (dead : dying = true → ∀ p ∈ m.written, p.1 ≠ m.running.ult)
      (queued : m.Queued q [m.lib.currentUlt]) :
      At m dying (.yieldSwap (some m.running.ult) new)
  /-- `th_create` links the new ULT. -/
  | creating {q : List Ult} {n : ℕ} {ult : Ult} {point : EnqueueAt} (turn : m.Turn false)
      (hne : ult ≠ m.lib.currentUlt) (linking : m.Linking ult point)
      (rep : Rep (point.finish m.lib.links ult) (q ++ [ult]))
      (perm : (q ++ [m.lib.currentUlt]).Perm (m.enqueued.map Prod.snd)) :
      At m false (.enqueue point ult (.create n))

/-- A handler that has found the ULT `ult` it interrupts alone in the queue, by its next
statement. -/
inductive Alone (m : Machine) (ult : Ult) : Frame → Prop
  | start {f : Frame} (hf : f.Looking) (chain : Chain m.lib.next m.lib.readyQueueHead [ult]) :
      Alone m ult f
  | popped {f : Frame}
      (hf : f ∈ [.nextReturn (some ult), .yieldTest (some ult), .yieldRequeue ult])
      (hhead : m.lib.readyQueueHead = none) : Alone m ult f
  | requeuing {point : EnqueueAt} (early : point.Early → m.lib.readyQueueHead = none)
      (rep : Rep (point.finish m.lib.links ult) [ult]) :
      Alone m ult (.enqueue point ult (.yield ult))
  | done {f : Frame} (hf : f ∈ [.yieldSummarize ult, .yieldRunning ult, .yieldBurst ult,
        .yieldOld ult, .yieldNew ult (some m.running.ult),
        .yieldCurrent ult (some m.running.ult) (some m.running.ult),
        .yieldSwap (some m.running.ult) (some m.running.ult), .yieldTrue, .handlerEnd])
      (rep : Rep m.lib.links [ult]) : Alone m ult f

/-- `P` holds once a handler has put the ULT it interrupts back alone in the queue. -/
def Then (m : Machine) (P : Machine → Prop) : Prop :=
  ∀ lib : Globals, lib.currentUlt = m.lib.currentUlt → lib.context = m.lib.context →
    Rep lib.links [m.lib.currentUlt] → P (m.goto lib [])

/-- The handlers on top do nothing, as the queue is empty. -/
def Idling (m : Machine) (above : List Frame) : Prop :=
  above ≠ [] → m.lib.readyQueueHead = none ∧ ∀ f ∈ above, f.Idle

/-- The queue as the statement on top leaves it. -/
inductive Phase (m : Machine) : Prop
  | calm {dying : Bool} {q : List Ult} (parked : Parked dying m.running.frames)
      (turn : m.Turn dying) (queued : m.Queued q (m.out dying))
  | window {dying : Bool} {above k : List Frame} {w : Frame}
      (frames : m.running.frames = above ++ w :: k) (parked : Parked dying k)
      (idle : m.Idling above) (middle : m.At dying w)
  | alone {above below k : List Frame} {f w : Frame}
      (frames : m.running.frames = above ++ f :: (below ++ w :: k)) (parked : Parked false k)
      (idle : m.Idling above) (turn : m.Turn false)
      (top : m.Alone m.lib.currentUlt f)
      (below : ∀ g ∈ below, m.Then fun m => m.Alone m.lib.currentUlt g)
      (middle : m.Then fun m => m.At false w)

/-- The invariant of undisturbed runs. -/
structure Inv (m : Machine) : Prop where
  numbered : m.Numbered
  phase : m.Phase

section Middle
variable {m m' : Machine} {dying : Bool} {q out : List Ult} {w : Frame} {k fs : List Frame}
  {ult : Ult} {lib : Globals}

theorem Queued.nodup (hq : m.Queued q out) (h : m.Numbered) : (q ++ out).Nodup :=
  hq.perm.nodup_iff.2 h.enqueued_nodup

theorem Queued.exists_mem (hq : m.Queued q out) (hult : ult ∈ q ++ out) :
    ∃ v, (v, ult) ∈ m.enqueued := by
  obtain ⟨p, hp, rfl⟩ := List.mem_map.1 (hq.perm.mem_iff.1 hult)
  exact ⟨p.1, hp⟩

theorem Numbered.state_ne_free (h : m.Numbered) {v : ℕ} (hult : (v, ult) ∈ m.enqueued) :
    m.lib.state ult ≠ .free :=
  (h.alive _ (h.subset _ hult)).2.1

theorem Numbered.context_eq (h : m.Numbered) {v : ℕ} (hult : (v, ult) ∈ m.enqueued) :
    m.lib.context ult = some v :=
  (h.alive _ (h.subset _ hult)).2.2

theorem Turn.context_eq (ht : m.Turn dying) (h : m.Numbered) :
    m.lib.context m.lib.currentUlt = some m.running.ult := by
  cases dying with
  | false => exact h.context_eq ht
  | true => exact ht.2.1

theorem Turn.free_iff (ht : m.Turn dying) (h : m.Numbered) :
    m.lib.state m.lib.currentUlt = .free ↔ dying = true := by
  cases dying with
  | false => exact ⟨fun hfree => absurd hfree (h.state_ne_free ht), nofun⟩
  | true => exact ⟨fun _ => rfl, fun _ => ht.1⟩

/-- A slot that has not finished is not the one of a ULT that has. -/
theorem Turn.ne_current (ht : m.Turn dying) (h : m.Numbered) (hq : m.Queued q (ult :: m.out dying)) :
    ult ≠ m.lib.currentUlt := by
  cases dying with
  | false =>
      have hnodup := (List.nodup_append.1 (hq.nodup h)).2.1
      exact fun heq => (List.nodup_cons.1 hnodup).1 (heq ▸ List.mem_singleton_self _)
  | true =>
      obtain ⟨v, hv⟩ := hq.exists_mem (List.mem_append_right q List.mem_cons_self)
      exact fun heq => h.state_ne_free hv (heq ▸ ht.1)

/-- What the statements in between leave alone. -/
structure Same (m : Machine) (lib : Globals) : Prop where
  current : lib.currentUlt = m.lib.currentUlt
  context : lib.context = m.lib.context
  contexts : lib.contexts = m.lib.contexts
  free : ∀ v, lib.state v = .free ↔ m.lib.state v = .free

theorem Same.refl (m : Machine) : m.Same m.lib := ⟨rfl, rfl, rfl, fun _ => Iff.rfl⟩

theorem Same.numbered (hs : m.Same lib) (h : m.Numbered)
    (hsub : (creations fs).Sublist (creations m.running.frames)) : (m.goto lib fs).Numbered :=
  h.goto hs.contexts hs.context (fun v hv hfree => hv ((hs.free v).1 hfree)) hsub

/-- As long as `CURRENT_ULT` stays, it is still the turn of the same ULT. -/
theorem Turn.goto (ht : m.Turn false) (hcurrent : lib.currentUlt = m.lib.currentUlt)
    (fs : List Frame) : (m.goto lib fs).Turn false := by
  show (m.running.ult, lib.currentUlt) ∈ m.enqueued
  rw [hcurrent]
  exact ht

theorem Same.turn (hs : m.Same lib) (ht : m.Turn dying) : (m.goto lib fs).Turn dying := by
  cases dying with
  | false => exact ht.goto hs.current fs
  | true =>
      obtain ⟨hfree, hcontext, hdead⟩ := ht
      refine ⟨?_, ?_, hdead⟩
      · show lib.state lib.currentUlt = .free
        rw [hs.current]
        exact (hs.free _).2 hfree
      · show lib.context lib.currentUlt = some m.running.ult
        rw [hs.current, hs.context]
        exact hcontext

theorem Same.out_eq (hs : m.Same lib) : (m.goto lib fs).out dying = m.out dying := by
  cases dying with
  | false => exact congrArg (fun v => [v]) hs.current
  | true => rfl

theorem Queued.goto (hq : m.Queued q out) (hlinks : lib.links = m.lib.links) :
    (m.goto lib fs).Queued q out :=
  ⟨hlinks ▸ hq.rep, hq.perm⟩

theorem idling_nil : m.Idling [] := fun hne => absurd rfl hne

theorem Inv.window (h : (m.goto lib (w :: k)).Numbered) (hk : Parked dying k)
    (hat : (m.goto lib (w :: k)).At dying w) : (m.goto lib (w :: k)).Inv :=
  ⟨h, .window (show _ = [] ++ w :: k from rfl) hk idling_nil hat⟩

/-! ## The statements in the middle -/

variable {sel : Ult} {time : ℤ} {point : EnqueueAt}

theorem linking_enqueueStmt {point' : EnqueueAt}
    (h : enqueueStmt m.lib ult point = some (lib, some point')) (hlinking : m.Linking ult point) :
    (m.goto lib fs).Linking ult point' := by
  cases point with
  | ready | headTest => exact hlinking.elim
  | head =>
      obtain ⟨rfl, rfl⟩ : _ = lib ∧ _ = point' := by simpa [enqueueStmt] using h
      rfl
  | tailTest =>
      obtain ⟨rfl, rfl⟩ : _ = lib ∧ _ = point' := by simpa [enqueueStmt] using h
      split
      · trivial
      · exact hlinking
  | link =>
      obtain ⟨last, -, hlast⟩ := Option.map_eq_some_iff.1 h
      obtain rfl : _ = point' := by simpa using congrArg Prod.snd hlast
      trivial
  | tail =>
      obtain ⟨rfl, rfl⟩ : _ = lib ∧ _ = point' := by simpa [enqueueStmt] using h
      trivial
  | close =>
      obtain ⟨last, -, hlast⟩ := Option.map_eq_some_iff.1 h
      cases congrArg Prod.snd hlast

theorem Inv.popped (h : m.Numbered) (hframes : m.running.frames = w :: k) (hk : Parked dying k)
    (hw : w ∈ [.nextReturn (some sel), .yieldTest (some sel), .yieldRequeue sel])
    (turn : m.Turn dying) (queued : m.Queued q (sel :: m.out dying))
    (hstep : m.exec time k w = some m') : m'.Inv := by
  have hs := Same.refl m
  have hne := turn.ne_current h queued
  simp only [List.mem_cons, List.not_mem_nil, or_false] at hw
  rcases hw with rfl | rfl | rfl
  · obtain rfl : _ = m' := Option.some.inj hstep
    exact .window (hs.numbered h (by rw [hframes]; exact .refl _)) hk
      (.popped (by simp) (hs.turn turn) (queued.goto rfl))
  · obtain rfl : _ = m' := Option.some.inj hstep
    exact .window (hs.numbered h (by rw [hframes]; exact .refl _)) hk
      (.popped (by simp) (hs.turn turn) (queued.goto rfl))
  · obtain rfl : _ = m' := Option.some.inj hstep
    cases dying with
    | true =>
        rw [if_neg (not_not.2 turn.1)]
        exact .window (hs.numbered h (by rw [hframes]; exact .refl _)) hk
          (.selected (by simp) (hs.turn turn) hne (queued.goto rfl))
    | false =>
        rw [if_pos (h.state_ne_free turn)]
        have hcur : m.lib.currentUlt ∉ q := by
          have hnodup := queued.nodup h
          exact fun hmem => (List.nodup_append.1 hnodup).2.2 _ hmem _
            (by simp [Machine.out]) rfl
        exact .window (hs.numbered h (by rw [hframes]; exact .refl _)) hk
          (.requeuing rfl (hs.turn turn) (fun _ => queued.rep) (queued.rep.push hcur) queued.perm)

theorem Inv.requeuing (h : m.Numbered)
    (hframes : m.running.frames = .enqueue point ult (.yield sel) :: k) (hk : Parked false k)
    (hult : ult = m.lib.currentUlt) (turn : m.Turn false)
    (early : point.Early → Rep m.lib.links q)
    (rep : Rep (point.finish m.lib.links ult) (q ++ [ult]))
    (perm : (q ++ [sel, ult]).Perm (m.enqueued.map Prod.snd))
    (hstep : m.exec time k (.enqueue point ult (.yield sel)) = some m') : m'.Inv := by
  obtain ⟨⟨lib, next⟩, hstmt, hstep⟩ := Option.map_eq_some_iff.1 hstep
  obtain ⟨hcurrent, hcontexts, hcontext, hstate⟩ := enqueueStmt_frame hstmt
  have hnumbered : ∀ f, f.creation = none → (m.goto lib (f :: k)).Numbered := by
    intro f hf
    refine h.goto hcontexts hcontext hstate ?_
    rw [hframes, creations_cons, hf]
    exact .refl _
  cases next with
  | some point' =>
      obtain rfl : _ = m' := hstep
      refine .window (hnumbered _ rfl) hk
        (.requeuing (hult.trans hcurrent.symm) (turn.goto hcurrent _) ?_ ?_ perm)
      · intro hearly
        obtain ⟨hearly, hlinks⟩ := early_enqueueStmt hstmt hearly
        exact hlinks ▸ early hearly
      · exact finish_enqueueStmt hstmt ▸ rep
  | none =>
      obtain rfl : _ = m' := hstep
      have hnodup : (q ++ [sel, ult]).Nodup := perm.nodup_iff.2 h.enqueued_nodup
      have hne : sel ≠ lib.currentUlt := by
        rw [hcurrent, ← hult]
        have hnodup := (List.nodup_append.1 hnodup).2.1
        exact fun heq => (List.nodup_cons.1 hnodup).1 (heq ▸ List.mem_singleton_self _)
      have hqueued : (m.goto lib (.yieldSummarize sel :: k)).Queued (q ++ [ult]) [sel] := by
        constructor
        · exact links_enqueueStmt hstmt ▸ rep
        · refine List.Perm.trans ?_ perm
          rw [List.append_assoc]
          exact (List.Perm.swap _ _ _).append_left q
      exact .window (hnumbered _ rfl) hk (.selected (by simp) (turn.goto hcurrent _) hne hqueued)

theorem same_summarize (m : Machine) (time : ℤ) : m.Same (libSummarizeBurst m.lib time) :=
  ⟨by simp, by simp, by simp, by simp⟩

theorem same_setBurstStart (m : Machine) (ult : Ult) (time : ℤ) :
    m.Same (m.lib.setBurstStart ult time) :=
  ⟨by simp, by simp, by simp, by simp⟩

theorem same_setState {state : State} (hult : m.lib.state ult ≠ .free) (hstate : state ≠ .free) :
    m.Same (m.lib.setState ult state) := by
  refine ⟨by simp, by simp, by simp, fun v => ?_⟩
  by_cases hv : v = ult <;> simp [hv, hult, hstate]

theorem Inv.selected (h : m.Numbered) (hframes : m.running.frames = w :: k) (hk : Parked dying k)
    (hw : w ∈ [.yieldSummarize sel, .yieldRunning sel, .yieldBurst sel, .yieldOld sel,
      .yieldNew sel (some m.running.ult),
      .yieldCurrent sel (some m.running.ult) (m.lib.context sel)])
    (turn : m.Turn dying) (hne : sel ≠ m.lib.currentUlt) (queued : m.Queued q [sel])
    (hstep : m.exec time k w = some m') : m'.Inv := by
  have hs := Same.refl m
  simp only [List.mem_cons, List.not_mem_nil, or_false] at hw
  rcases hw with rfl | rfl | rfl | rfl | rfl | rfl
  · have hs := same_summarize m time
    obtain rfl : _ = m' := Option.some.inj hstep
    exact .window (hs.numbered h (by rw [hframes]; exact .refl _)) hk
      (.selected (by simp) (hs.turn turn) hne (queued.goto (links_libSummarizeBurst ..)))
  · obtain ⟨v, hv⟩ := queued.exists_mem (List.mem_append_right q List.mem_cons_self)
    have hs := same_setState (h.state_ne_free hv) (show State.running ≠ .free by decide)
    obtain rfl : _ = m' := Option.some.inj hstep
    exact .window (hs.numbered h (by rw [hframes]; exact .refl _)) hk
      (.selected (by simp) (hs.turn turn) hne (queued.goto (by simp [Globals.links])))
  · have hs := same_setBurstStart m sel time
    obtain rfl : _ = m' := Option.some.inj hstep
    exact .window (hs.numbered h (by rw [hframes]; exact .refl _)) hk
      (.selected (by simp) (hs.turn turn) hne (queued.goto (by simp [Globals.links])))
  · obtain rfl : _ = m' := Option.some.inj hstep
    rw [turn.context_eq h]
    exact .window (hs.numbered h (by rw [hframes]; exact .refl _)) hk
      (.selected (by simp [goto]) (hs.turn turn) hne (queued.goto rfl))
  · obtain rfl : _ = m' := Option.some.inj hstep
    exact .window (hs.numbered h (by rw [hframes]; exact .refl _)) hk
      (.selected (by simp [goto]) (hs.turn turn) hne (queued.goto rfl))
  · obtain rfl : _ = m' := Option.some.inj hstep
    refine .window (h.goto rfl rfl (fun _ hv => hv) (by rw [hframes]; exact .refl _)) hk
      (.swapping rfl (fun hd => ?_) (fun hd => ?_) (queued.goto rfl))
    · subst hd
      exact ⟨m.lib.currentUlt, turn, hne.symm⟩
    · subst hd
      exact turn.2.2

theorem Inv.swapping {new : Option ℕ} (h : m.Numbered)
    (hframes : m.running.frames = .yieldSwap (some m.running.ult) new :: k) (hk : Parked dying k)
    (hnew : new = m.lib.context m.lib.currentUlt)
    (old : dying = false → ∃ slot, (m.running.ult, slot) ∈ m.enqueued ∧ slot ≠ m.lib.currentUlt)
    (dead : dying = true → ∀ p ∈ m.written, p.1 ≠ m.running.ult)
    (queued : m.Queued q [m.lib.currentUlt])
    (hstep : m.exec time k (.yieldSwap (some m.running.ult) new) = some m') : m'.Inv := by
  obtain ⟨v, hv⟩ := queued.exists_mem (List.mem_append_right q List.mem_cons_self)
  have hcontext : new = some v := hnew.trans (h.context_eq hv)
  have hne : v ≠ m.running.ult := by
    rintro rfl
    cases dying with
    | false =>
        obtain ⟨slot, hslot, hslotne⟩ := old rfl
        exact hslotne (congrArg Prod.snd (h.eq_of_context (h.subset _ hslot) (h.subset _ hv) rfl))
    | true => exact dead rfl _ (h.subset _ hv) rfl
  have hparked : (∃ p ∈ m.enqueued, p.1 = m.running.ult) → Parked false k := by
    rintro ⟨p, hp, hult⟩
    cases dying with
    | false => exact hk
    | true => exact absurd hult (dead rfl p (h.subset p hp))
  obtain ⟨hnumbered, hrunning⟩ := h.swapcontext hv hne hframes hparked
  obtain ⟨hult, hcalm⟩ := h.parked _ hv hne
  subst hcontext
  obtain rfl : m.swapcontext m.running.ult v k = m' := Option.some.inj hstep
  have hturn : (m.swapcontext m.running.ult v k).Turn false := by
    show ((m.swapcontext m.running.ult v k).running.ult, m.lib.currentUlt) ∈ m.enqueued
    rw [hrunning, hult]
    exact hv
  have hqueued : (m.swapcontext m.running.ult v k).Queued q [m.lib.currentUlt] :=
    ⟨queued.rep, queued.perm⟩
  exact ⟨hnumbered, .calm (hrunning ▸ hcalm) hturn hqueued⟩

theorem Inv.creating {n : ℕ} (h : m.Numbered)
    (hframes : m.running.frames = .enqueue point ult (.create n) :: k) (hk : Parked false k)
    (turn : m.Turn false) (hne : ult ≠ m.lib.currentUlt) (linking : m.Linking ult point)
    (rep : Rep (point.finish m.lib.links ult) (q ++ [ult]))
    (perm : (q ++ [m.lib.currentUlt]).Perm (m.enqueued.map Prod.snd))
    (hstep : m.exec time k (.enqueue point ult (.create n)) = some m') : m'.Inv := by
  obtain ⟨⟨lib, next⟩, hstmt, hstep⟩ := Option.map_eq_some_iff.1 hstep
  obtain ⟨hcurrent, hcontexts, hcontext, hstate⟩ := enqueueStmt_frame hstmt
  cases next with
  | some point' =>
      obtain rfl : _ = m' := hstep
      have hnumbered : (m.goto lib (.enqueue point' ult (.create n) :: k)).Numbered :=
        h.goto hcontexts hcontext hstate (by rw [hframes]; exact .refl _)
      have hperm : (q ++ [lib.currentUlt]).Perm (m.enqueued.map Prod.snd) := hcurrent ▸ perm
      exact .window hnumbered hk
        (.creating (turn.goto hcurrent _) (hcurrent ▸ hne) (linking_enqueueStmt hstmt linking)
          (finish_enqueueStmt hstmt ▸ rep) hperm)
  | none =>
      obtain rfl : _ = m' := hstep
      obtain ⟨hnumbered, -⟩ := h.enqueueReturns turn hframes hcontexts hcontext hstate
      refine ⟨hnumbered, .calm (hk.cons_calm trivial) ?_ ⟨links_enqueueStmt hstmt ▸ rep, ?_⟩⟩
      · show (m.running.ult, lib.currentUlt) ∈ m.enqueued ++ [(n, ult)]
        rw [hcurrent]
        exact List.mem_append_left _ turn
      · show (q ++ [ult] ++ [lib.currentUlt]).Perm ((m.enqueued ++ [(n, ult)]).map Prod.snd)
        rw [hcurrent, List.map_append, List.append_assoc]
        refine List.Perm.trans ?_ (perm.append_right [ult])
        rw [List.append_assoc]
        exact (List.Perm.swap _ _ _).append_left q

/-! ## The statements outside -/

theorem Inv.calm (hs : m.Same lib) (h : m.Numbered) (hlinks : lib.links = m.lib.links)
    (hsub : (creations fs).Sublist (creations m.running.frames)) (hparked : Parked dying fs)
    (turn : m.Turn dying) (queued : m.Queued q (m.out dying)) : (m.goto lib fs).Inv := by
  have hqueued : (m.goto lib fs).Queued q ((m.goto lib fs).out dying) := by
    rw [hs.out_eq]
    exact queued.goto hlinks
  exact ⟨hs.numbered h hsub, .calm hparked (hs.turn turn) hqueued⟩

/-- `lib_get_next_ult` takes the head off. -/
theorem Inv.nextPop (h : m.Numbered) (hframes : m.running.frames = .nextPop (some sel) :: k)
    (hk : Parked dying k) (turn : m.Turn dying) (queued : m.Queued q (m.out dying))
    (hhead : m.lib.readyQueueHead = some sel) :
    (m.goto (m.lib.setHead (m.lib.next sel)) (.nextReturn (some sel) :: k)).Inv := by
  have hs : m.Same (m.lib.setHead (m.lib.next sel)) := ⟨by simp, by simp, by simp, by simp⟩
  have hq : m.lib.readyQueueHead = q.head? := queued.rep.head_eq
  cases q with
  | nil => cases hhead.symm.trans hq
  | cons a q =>
      obtain rfl : sel = a := Option.some.inj (hhead.symm.trans hq)
      have hw : Frame.nextReturn (some sel) ∈ [.nextReturn (some sel), .yieldTest (some sel),
          .yieldRequeue sel] := List.mem_cons_self
      refine .window (hs.numbered h (by rw [hframes]; exact .refl _)) hk
        (.popped hw (hs.turn turn) ⟨queued.rep.pop_cons.2, ?_⟩)
      rw [hs.out_eq]
      exact List.perm_middle.trans queued.perm

/-- A statement of the `lib_enqueue` of `th_create` in front of which others may have run. -/
theorem Inv.calmEnqueue {n : ℕ} (h : m.Numbered)
    (hframes : m.running.frames = .enqueue point ult (.create n) :: k)
    (hpoint : point ∈ [.ready, .headTest, .tailTest, .link]) (hk : Parked false k)
    (turn : m.Turn false) (queued : m.Queued q [m.lib.currentUlt])
    (hfresh : point = .tailTest ∨ point = .link → m.lib.readyQueueHead ≠ none)
    (hstep : m.exec time k (.enqueue point ult (.create n)) = some m') : m'.Inv := by
  have hs := Same.refl m
  have hcreation : creations m.running.frames = ⟨n, ult, true⟩ :: creations k := by
    rw [hframes]
    rfl
  have hpending := (h.creating _ turn ⟨n, ult, true⟩
    (by rw [framesOf_running, hcreation]; exact List.mem_cons_self)).written rfl
  -- the new ULT is not in the queue yet
  have hult : ult ∉ q := by
    intro hmem
    obtain ⟨v, hv⟩ := queued.exists_mem (List.mem_append_left _ hmem)
    exact hpending.2 (h.eq_of_slot (h.subset _ hv) hpending.1 rfl ▸ hv)
  have hne : ult ≠ m.lib.currentUlt := by
    intro heq
    exact hpending.2 (h.eq_of_slot (h.subset _ turn) hpending.1 heq.symm ▸ turn)
  have hcalm : ∀ point', point' ∈ [EnqueueAt.ready, .headTest, .tailTest, .link] →
      Parked false (.enqueue point' ult (.create n) :: k) :=
    fun point' hpoint' => hk.cons_calm ⟨hpoint', n, rfl⟩
  have hsub : ∀ point', (creations (.enqueue point' ult (.create n) :: k)).Sublist
      (creations m.running.frames) := by
    intro point'
    rw [hcreation]
    exact .refl _
  simp only [List.mem_cons, List.not_mem_nil, or_false] at hpoint
  rcases hpoint with rfl | rfl | rfl | rfl
  · obtain rfl : _ = m' := Option.some.inj hstep
    have hready : m.Same (m.lib.setState ult .ready) :=
      same_setState (h.alive _ hpending.1).2.1 (by decide)
    exact .calm hready h (by simp [Globals.links]) (hsub _) (hcalm _ (by simp)) turn queued
  · obtain rfl : _ = m' := Option.some.inj hstep
    by_cases hhead : m.lib.readyQueueHead = none
    · rw [if_pos hhead]
      have hq : q.head? = none := queued.rep.head_eq.symm.trans hhead
      obtain rfl : q = [] := List.head?_eq_none_iff.1 hq
      have hpush := queued.rep.push hult
      have hfinish : EnqueueAt.finish m.lib.links ult .head = m.lib.links.push ult := by
        simp [EnqueueAt.finish, Links.push, Globals.links, hhead]
      exact .window (hs.numbered h (hsub _)) hk
        (.creating (hs.turn turn) hne hhead (hfinish ▸ hpush) queued.perm)
    · rw [if_neg hhead]
      exact .calm hs h rfl (hsub _) (hcalm _ (by simp)) turn queued
  · obtain rfl : _ = m' := Option.some.inj hstep
    have hq : q ≠ [] := fun hnil => hfresh (.inl rfl) (queued.rep.head_eq.trans (by rw [hnil]; rfl))
    have htail : m.lib.readyQueueTail ≠ none := by
      intro hnone
      exact hq (List.getLast?_eq_none_iff.1 ((queued.rep.tail_eq hq).symm.trans hnone))
    rw [if_neg htail]
    exact .calm hs h rfl (hsub _) (hcalm _ (by simp)) turn queued
  · obtain ⟨⟨lib, next⟩, hstmt, hstep⟩ := Option.map_eq_some_iff.1 hstep
    obtain ⟨last, htail, heq⟩ := Option.map_eq_some_iff.1 hstmt
    obtain ⟨rfl, rfl⟩ := Prod.mk.inj heq
    obtain rfl : _ = m' := hstep
    have hlink : m.Same (m.lib.setNext last (some ult)) := ⟨by simp, by simp, by simp, by simp⟩
    have hhead : m.lib.links.head ≠ none := hfresh (.inr rfl)
    have hfinish : EnqueueAt.finish m.lib.links ult .link = m.lib.links.push ult := by
      have htail : m.lib.links.tail = some last := htail
      simp [EnqueueAt.finish, Links.push, htail, hhead]
    refine .window (hlink.numbered h (hsub _)) hk
      (.creating (hlink.turn turn) hne trivial ?_ queued.perm)
    rw [show (m.goto (m.lib.setNext last (some ult)) _).lib.links
      = (m.lib.setNext last (some ult)).links from rfl, finish_enqueueStmt hstmt, hfinish]
    exact queued.rep.push hult

/-- The current ULT finishes. -/
theorem Inv.returnFree (h : m.Numbered) (hframes : m.running.frames = .returnFree :: k)
    (turn : m.Turn false) (queued : m.Queued q [m.lib.currentUlt]) : (m.returnFree k).Inv := by
  have hnumbered := h.returnFree turn hframes
  have hnodup := queued.nodup h
  have hcur : m.lib.currentUlt ∉ q := by
    exact fun hmem => (List.nodup_append.1 hnodup).2.2 _ hmem _ (List.mem_singleton_self _) rfl
  refine ⟨hnumbered, ?_⟩
  have hturn : (m.returnFree k).Turn true := by
    refine ⟨by simp [Machine.returnFree], ?_, fun p hp => ?_⟩
    · simpa [Machine.returnFree] using h.context_eq turn
    · exact of_decide_eq_true (List.mem_filter.1 hp).2
  have hqueued : (m.returnFree k).Queued q [] := by
    refine ⟨by simpa [Machine.returnFree, Globals.links] using queued.rep, ?_⟩
    rw [List.append_nil, List.perm_ext_iff_of_nodup (List.nodup_append.1 hnodup).1
      hnumbered.enqueued_nodup]
    intro v
    constructor
    · intro hv
      obtain ⟨n, hn⟩ := queued.exists_mem (List.mem_append_left _ hv)
      refine List.mem_map.2 ⟨(n, v), List.mem_filter.2 ⟨hn, ?_⟩, rfl⟩
      have hne : n ≠ m.running.ult := by
        rintro rfl
        have heq : v = m.lib.currentUlt :=
          congrArg Prod.snd (h.eq_of_context (h.subset _ hn) (h.subset _ turn) rfl)
        exact hcur (heq ▸ hv)
      simpa using hne
    · intro hv
      obtain ⟨p, hp, rfl⟩ := List.mem_map.1 hv
      obtain ⟨hp, hne⟩ := List.mem_filter.1 hp
      have hmem : p.2 ∈ q ++ [m.lib.currentUlt] :=
        queued.perm.mem_iff.2 (List.mem_map_of_mem hp)
      rcases List.mem_append.1 hmem with hmem | hmem
      · exact hmem
      · have heq := h.eq_of_slot (h.subset _ hp) (h.subset _ turn) (List.mem_singleton.1 hmem)
        simp [heq] at hne
  have hparked : Parked true (m.returnFree k).running.frames :=
    ⟨[.nextRead], k, rfl, fun f hf => List.mem_singleton.1 hf ▸ trivial⟩
  exact .calm hparked hturn hqueued

/-- A statement of `th_create` or `th_return`, in front of which others may have run. -/
theorem Inv.calmOwn {f : Frame} (h : m.Numbered) (hframes : m.running.frames = f :: k)
    (hcalm : f.Calm) (hwaiting : ¬ f.Waiting) (hk : Parked false k) (turn : m.Turn false)
    (queued : m.Queued q [m.lib.currentUlt]) (hfresh : m.StmtFresh (f :: k))
    (hstep : m.exec time k f = some m') : m'.Inv := by
  have hs := Same.refl m
  have hsub : creations m.running.frames = f.creation.toList ++ creations k := by
    rw [hframes, creations_cons]
  cases f with
  | own | returnLoop => cases hstep
  | nextRead | nextTest | nextPop | handler | handlerEnd => exact absurd trivial hwaiting
  | nextReturn | yieldTest => exact absurd hcalm hwaiting
  | yieldRequeue | yieldSummarize | yieldRunning | yieldBurst | yieldOld | yieldNew
  | yieldCurrent | yieldSwap | returnAssert => exact hcalm.elim
  | yieldTrue =>
      obtain rfl : _ = m' := Option.some.inj hstep
      exact .calm hs h rfl (hsub ▸ creations_yieldReturns true) (hk.yieldReturns true) turn queued
  | enqueue point ult caller =>
      obtain ⟨hpoint, n, rfl⟩ := hcalm
      refine .calmEnqueue h hframes hpoint hk turn queued ?_ hstep
      rintro (rfl | rfl) <;> exact hfresh
  | createScan i =>
      by_cases hi : i < maxUlts
      · rw [exec, dif_pos hi] at hstep
        obtain rfl : _ = m' := Option.some.inj hstep
        split
        · exact .calm hs h rfl (hsub ▸ .refl _) (hk.cons_calm trivial) turn queued
        · exact .calm hs h rfl (hsub ▸ .refl _) (hk.cons_calm trivial) turn queued
      · rw [exec, dif_neg hi] at hstep
        obtain rfl : _ = m' := Option.some.inj hstep
        exact .calm hs h rfl (hsub ▸ .refl _) hk turn queued
  | createContext ult =>
      obtain rfl : _ = m' := Option.some.inj hstep
      have hqueued : (m.createContext ult k).Queued q [m.lib.currentUlt] :=
        ⟨by simpa [Machine.createContext, Globals.links] using queued.rep, queued.perm⟩
      have hturn : (m.createContext ult k).Turn false := turn
      exact ⟨h.createContext hframes hfresh, .calm (hk.cons_calm trivial) hturn hqueued⟩
  | createTCB ult n =>
      obtain rfl : _ = m' := Option.some.inj hstep
      have hult : ult ∉ q := by
        intro hmem
        obtain ⟨v, hv⟩ := queued.exists_mem (List.mem_append_left _ hmem)
        exact h.state_ne_free hv hfresh.1
      have hqueued : (m.createTCB ult n k).Queued q [m.lib.currentUlt] := by
        refine ⟨queued.rep.congr rfl rfl fun v hv => ?_, queued.perm⟩
        have hne : v ≠ ult := fun heq => hult (heq ▸ hv)
        simp [Machine.createTCB, Globals.links, hne]
      have hturn : (m.createTCB ult n k).Turn false := turn
      exact ⟨h.createTCB turn hframes hfresh.1 hfresh.2,
        .calm (hk.cons_calm ⟨by simp, n, rfl⟩) hturn hqueued⟩
  | createYield =>
      have hreturn : Parked false (.createReturn :: k) := hk.cons_calm trivial
      obtain rfl : _ = m' := Option.some.inj hstep
      exact .calm hs h rfl (hsub ▸ .refl _) (hreturn.cons trivial) turn queued
  | createReturn =>
      obtain rfl : _ = m' := Option.some.inj hstep
      exact .calm hs h rfl (hsub ▸ .refl _) hk turn queued
  | stopSummarize =>
      obtain rfl : _ = m' := Option.some.inj hstep
      exact .calm (same_summarize m time) h (links_libSummarizeBurst ..) (hsub ▸ .refl _)
        (hk.cons_calm trivial) turn queued
  | returnTest =>
      obtain rfl : _ = m' := Option.some.inj hstep
      have hloop : Parked false (.returnLoop :: k) := hk.cons_calm trivial
      split
      · exact .calm hs h rfl (hsub ▸ .refl _) (hloop.cons trivial) turn queued
      · exact .calm hs h rfl (hsub ▸ .refl _) (hk.cons_calm trivial) turn queued
  | returnFree =>
      obtain rfl : _ = m' := Option.some.inj hstep
      exact .returnFree h hframes turn queued

/-- A statement of a handler, or of a `th_yield` that has taken nobody off the queue. -/
theorem Inv.calmWaiting {f : Frame} (h : m.Numbered) (hframes : m.running.frames = f :: k)
    (hwaiting : f.Waiting) (hk : Parked dying k) (turn : m.Turn dying)
    (queued : m.Queued q (m.out dying)) (hfresh : m.StmtFresh (f :: k))
    (hstep : m.exec time k f = some m') : m'.Inv := by
  have hs := Same.refl m
  have hsub : creations m.running.frames = f.creation.toList ++ creations k := by
    rw [hframes, creations_cons]
  cases f with
  | nextRead =>
      obtain rfl : _ = m' := Option.some.inj hstep
      exact .calm hs h rfl (hsub ▸ .refl _) (hk.cons trivial) turn queued
  | nextTest sel =>
      obtain rfl : _ = m' := Option.some.inj hstep
      split
      · next hhead =>
          exact .calm hs h rfl (hsub ▸ .refl _) (hk.cons (hfresh hhead)) turn queued
      · exact .calm hs h rfl (hsub ▸ .refl _) (hk.cons trivial) turn queued
  | nextPop sel =>
      obtain ⟨head, hhead, rfl⟩ := Option.map_eq_some_iff.1 hstep
      obtain rfl : some head = sel := hhead.symm.trans hfresh
      exact .nextPop h hframes hk turn queued hhead
  | nextReturn sel =>
      obtain rfl : sel = none := hwaiting
      obtain rfl : _ = m' := Option.some.inj hstep
      exact .calm hs h rfl (hsub ▸ .refl _) (hk.cons rfl) turn queued
  | yieldTest sel =>
      obtain rfl : sel = none := hwaiting
      obtain rfl : _ = m' := Option.some.inj hstep
      exact .calm hs h rfl (hsub ▸ creations_yieldReturns false) (hk.yieldReturns false) turn queued
  | handler =>
      have hend : Parked dying (.handlerEnd :: k) := hk.cons trivial
      obtain rfl : _ = m' := Option.some.inj hstep
      exact .calm hs h rfl (hsub ▸ .refl _) (hend.cons trivial) turn queued
  | handlerEnd =>
      obtain rfl : _ = m' := Option.some.inj hstep
      exact .calm hs h rfl (hsub ▸ .refl _) hk turn queued
  | _ => exact hwaiting.elim

/-! ## A handler that finds nobody else -/

theorem At.congr (hat : m.At dying w) (hlib : m'.lib = m.lib)
    (hult : m'.running.ult = m.running.ult) (hwritten : m'.written = m.written)
    (henqueued : m'.enqueued = m.enqueued) : m'.At dying w := by
  obtain ⟨lib, ⟨running, fs⟩, saved, written, enqueued⟩ := m
  obtain ⟨lib', ⟨running', fs'⟩, saved', written', enqueued'⟩ := m'
  dsimp only at hlib hult hwritten henqueued
  subst hlib hult hwritten henqueued
  have hturn : ∀ dying, Turn ⟨lib', ⟨running', fs⟩, saved, written', enqueued'⟩ dying →
      Turn ⟨lib', ⟨running', fs'⟩, saved', written', enqueued'⟩ dying := by
    intro dying ht
    cases dying <;> exact ht
  cases hat with
  | popped hw turn queued => exact .popped hw (hturn _ turn) ⟨queued.rep, queued.perm⟩
  | requeuing hult turn early rep perm => exact .requeuing hult (hturn _ turn) early rep perm
  | selected hw turn hne queued =>
      exact .selected hw (hturn _ turn) hne ⟨queued.rep, queued.perm⟩
  | swapping hnew old dead queued =>
      exact .swapping hnew old dead ⟨queued.rep, queued.perm⟩
  | @creating q n ult point turn hne linking rep perm =>
      refine .creating (hturn _ turn) hne ?_ rep perm
      cases point <;> exact linking

theorem Alone.congr {f : Frame} (h : m.Alone ult f) (hlib : m'.lib = m.lib)
    (hult : m'.running.ult = m.running.ult) : m'.Alone ult f := by
  cases h with
  | start hf chain => exact .start hf (hlib ▸ chain)
  | popped hf hhead => exact .popped hf (hlib ▸ hhead)
  | requeuing early rep => exact .requeuing (hlib ▸ early) (hlib ▸ rep)
  | done hf rep => exact .done (hult ▸ hf) (hlib ▸ rep)

theorem At.ne_returnLoop (hat : m.At dying w) : w ≠ .returnLoop := by
  rintro rfl
  cases hat with
  | popped hw => simp at hw
  | selected hw => simp at hw

theorem Alone.ne_returnLoop {f : Frame} (h : m.Alone ult f) : f ≠ .returnLoop := by
  rintro rfl
  cases h with
  | start hf => exact hf
  | popped hf => simp at hf
  | done hf => simp at hf

theorem Then.apply {P : Machine → Prop} (h : m.Then P) (hcurrent : lib.currentUlt = m.lib.currentUlt)
    (hcontext : lib.context = m.lib.context) (hrep : Rep lib.links [m.lib.currentUlt]) :
    P (m.goto lib []) :=
  h lib hcurrent hcontext hrep

/-- What follows a handler depends on neither the stack in the contexts nor the queue. -/
theorem Then.congr {P : Machine → Prop} (h : m.Then P) (hcurrent : m'.lib.currentUlt = m.lib.currentUlt)
    (hcontext : m'.lib.context = m.lib.context)
    (hP : ∀ lib, P (m.goto lib []) → P (m'.goto lib [])) : m'.Then P := by
  intro lib hcurrent' hcontext' hrep
  exact hP lib (h.apply (hcurrent'.trans hcurrent) (hcontext'.trans hcontext) (hcurrent ▸ hrep))

theorem Then.alone {f : Frame} (h : m.Then fun m => m.Alone m.lib.currentUlt f)
    (hcurrent : m'.lib.currentUlt = m.lib.currentUlt) (hcontext : m'.lib.context = m.lib.context)
    (hult : m'.running.ult = m.running.ult) : m'.Then fun m => m.Alone m.lib.currentUlt f :=
  h.congr hcurrent hcontext fun _ hf => hf.congr rfl hult

theorem Then.at (h : m.Then fun m => m.At false w) (hcurrent : m'.lib.currentUlt = m.lib.currentUlt)
    (hcontext : m'.lib.context = m.lib.context) (hult : m'.running.ult = m.running.ult)
    (hwritten : m'.written = m.written) (henqueued : m'.enqueued = m.enqueued) :
    m'.Then fun m => m.At false w :=
  h.congr hcurrent hcontext fun _ hw => hw.congr rfl hult hwritten henqueued

/-- A handler has put the ULT it interrupts back, and returns. -/
theorem Inv.resume {below : List Frame} (h : m'.Numbered)
    (hframes : m'.running.frames = below ++ w :: k) (hk : Parked false k) (turn : m'.Turn false)
    (hrep : Rep m'.lib.links [m'.lib.currentUlt])
    (hbelow : ∀ g ∈ below, m'.Then fun m => m.Alone m.lib.currentUlt g)
    (hmiddle : m'.Then fun m => m.At false w) : m'.Inv := by
  refine ⟨h, ?_⟩
  cases below with
  | nil =>
      exact .window hframes hk idling_nil
        ((hmiddle.apply rfl rfl hrep).congr rfl rfl rfl rfl)
  | cons g below =>
      exact .alone (show _ = [] ++ g :: (below ++ w :: k) from hframes) hk idling_nil turn
        (((hbelow g List.mem_cons_self).apply rfl rfl hrep).congr rfl rfl)
        (fun g' hg' => hbelow g' (List.mem_cons_of_mem g hg')) hmiddle

theorem Inv.aloneGoto {f : Frame} {below : List Frame}
    (h : (m.goto lib (f :: (below ++ w :: k))).Numbered) (hk : Parked false k)
    (turn : m.Turn false) (hcurrent : lib.currentUlt = m.lib.currentUlt)
    (hcontext : lib.context = m.lib.context)
    (top : (m.goto lib (f :: (below ++ w :: k))).Alone m.lib.currentUlt f)
    (hbelow : ∀ g ∈ below, m.Then fun m => m.Alone m.lib.currentUlt g)
    (hmiddle : m.Then fun m => m.At false w) : (m.goto lib (f :: (below ++ w :: k))).Inv := by
  have htop : (m.goto lib (f :: (below ++ w :: k))).Alone lib.currentUlt f := hcurrent ▸ top
  exact ⟨h, .alone (show _ = [] ++ f :: (below ++ w :: k) from rfl) hk idling_nil
    (turn.goto hcurrent _) htop
    (fun g hg => (hbelow g hg).alone hcurrent hcontext rfl)
    (hmiddle.at hcurrent hcontext rfl rfl rfl)⟩

/-- The `th_yield` of a handler does not return into a loop. -/
theorem yieldReturns_below {below : List Frame} {result : Bool}
    (hrep : Rep m.lib.links [m.lib.currentUlt])
    (hbelow : ∀ g ∈ below, m.Then fun m => m.Alone m.lib.currentUlt g)
    (hmiddle : m.Then fun m => m.At false w) :
    yieldReturns result (below ++ w :: k) = below ++ w :: k := by
  unfold yieldReturns
  split
  · next heq =>
      cases below with
      | nil =>
          obtain rfl := (List.cons.inj heq).1
          exact absurd rfl (hmiddle.apply rfl rfl hrep).ne_returnLoop
      | cons g below =>
          obtain rfl := (List.cons.inj heq).1
          exact absurd rfl ((hbelow _ List.mem_cons_self).apply rfl rfl hrep).ne_returnLoop
  · rfl

/-- A statement of such a handler. -/
theorem Inv.aloneStmt {f : Frame} {below : List Frame} (h : m.Numbered)
    (hframes : m.running.frames = f :: (below ++ w :: k)) (hk : Parked false k)
    (turn : m.Turn false) (top : m.Alone m.lib.currentUlt f)
    (hbelow : ∀ g ∈ below, m.Then fun m => m.Alone m.lib.currentUlt g)
    (hmiddle : m.Then fun m => m.At false w)
    (hfresh : m.StmtFresh (f :: (below ++ w :: k)))
    (hstep : m.exec time (below ++ w :: k) f = some m') : m'.Inv := by
  have hs := Same.refl m
  have hfree := h.state_ne_free turn
  have hcontext := h.context_eq turn
  have hsub : creations m.running.frames = f.creation.toList ++ creations (below ++ w :: k) := by
    rw [hframes, creations_cons]
  cases top with
  | start hf chain =>
      have hhead : m.lib.readyQueueHead = some m.lib.currentUlt := chain.1
      cases f with
      | handler =>
          obtain rfl : _ = m' := Option.some.inj hstep
          have hend : m.Then fun m => m.Alone m.lib.currentUlt .handlerEnd := by
            intro lib hcurrent _ hrep
            exact .done (by simp) (hcurrent ▸ hrep)
          show (m.goto m.lib (.nextRead :: ((.handlerEnd :: below) ++ w :: k))).Inv
          exact .aloneGoto (hs.numbered h (hsub ▸ .refl _)) hk turn rfl rfl
            (.start trivial chain) (List.forall_mem_cons.2 ⟨hend, hbelow⟩) hmiddle
      | nextRead =>
          obtain rfl : _ = m' := Option.some.inj hstep
          exact .aloneGoto (hs.numbered h (hsub ▸ .refl _)) hk turn rfl rfl
            (.start trivial chain) hbelow hmiddle
      | nextTest sel =>
          obtain rfl : _ = m' := Option.some.inj hstep
          rw [if_neg (by simp [hhead])]
          exact .aloneGoto (hs.numbered h (hsub ▸ .refl _)) hk turn rfl rfl
            (.start trivial chain) hbelow hmiddle
      | nextPop sel =>
          obtain ⟨head, hhead', rfl⟩ := Option.map_eq_some_iff.1 hstep
          obtain rfl : m.lib.currentUlt = head := Option.some.inj (hhead.symm.trans hhead')
          obtain rfl : some m.lib.currentUlt = sel := hhead.symm.trans hfresh
          have hpop : m.Same (m.lib.setHead (m.lib.next m.lib.currentUlt)) :=
            ⟨by simp, by simp, by simp, by simp⟩
          exact .aloneGoto (hpop.numbered h (hsub ▸ .refl _)) hk turn rfl rfl
            (.popped (by simp) chain.2) hbelow hmiddle
      | _ => exact hf.elim
  | popped hf hhead =>
      simp only [List.mem_cons, List.not_mem_nil, or_false] at hf
      rcases hf with rfl | rfl | rfl
      · obtain rfl : _ = m' := Option.some.inj hstep
        exact .aloneGoto (hs.numbered h (hsub ▸ .refl _)) hk turn rfl rfl
          (.popped (by simp) hhead) hbelow hmiddle
      · obtain rfl : _ = m' := Option.some.inj hstep
        exact .aloneGoto (hs.numbered h (hsub ▸ .refl _)) hk turn rfl rfl
          (.popped (by simp) hhead) hbelow hmiddle
      · obtain rfl : _ = m' := Option.some.inj hstep
        rw [if_pos hfree]
        have hempty : Rep m.lib.links [] := ⟨hhead, fun hne => absurd rfl hne⟩
        exact .aloneGoto (hs.numbered h (hsub ▸ .refl _)) hk turn rfl rfl
          (.requeuing (fun _ => hhead) (hempty.push List.not_mem_nil)) hbelow hmiddle
  | @requeuing point early rep =>
      obtain ⟨⟨lib, next⟩, hstmt, hstep⟩ := Option.map_eq_some_iff.1 hstep
      obtain ⟨hcurrent, hcontexts, hcontext', hstate⟩ := enqueueStmt_frame hstmt
      cases next with
      | some point' =>
          obtain rfl : _ = m' := hstep
          refine .aloneGoto (h.goto hcontexts hcontext' hstate (hsub ▸ .refl _)) hk turn hcurrent
            hcontext' (.requeuing (fun hearly => ?_) ?_) hbelow hmiddle
          · obtain ⟨hearly, hlinks⟩ := early_enqueueStmt hstmt hearly
            exact (congrArg Links.head hlinks).trans (early hearly)
          · exact finish_enqueueStmt hstmt ▸ rep
      | none =>
          obtain rfl : _ = m' := hstep
          exact .aloneGoto (h.goto hcontexts hcontext' hstate (hsub ▸ .refl _)) hk turn hcurrent
            hcontext' (.done (by simp) (links_enqueueStmt hstmt ▸ rep)) hbelow hmiddle
  | done hf rep =>
      simp only [List.mem_cons, List.not_mem_nil, or_false] at hf
      rcases hf with rfl | rfl | rfl | rfl | rfl | rfl | rfl | rfl | rfl
      · have hs := same_summarize m time
        obtain rfl : _ = m' := Option.some.inj hstep
        exact .aloneGoto (hs.numbered h (hsub ▸ .refl _)) hk turn hs.current hs.context
          (.done (by simp) ((links_libSummarizeBurst m.lib time).symm ▸ rep)) hbelow hmiddle
      · have hs := same_setState hfree (show State.running ≠ .free by decide)
        obtain rfl : _ = m' := Option.some.inj hstep
        exact .aloneGoto (hs.numbered h (hsub ▸ .refl _)) hk turn hs.current hs.context
          (.done (by simp) (by simpa [goto, Globals.links] using rep)) hbelow hmiddle
      · have hs := same_setBurstStart m m.lib.currentUlt time
        obtain rfl : _ = m' := Option.some.inj hstep
        exact .aloneGoto (hs.numbered h (hsub ▸ .refl _)) hk turn hs.current hs.context
          (.done (by simp) (by simpa [goto, Globals.links] using rep)) hbelow hmiddle
      · obtain rfl : _ = m' := Option.some.inj hstep
        rw [hcontext]
        exact .aloneGoto (hs.numbered h (hsub ▸ .refl _)) hk turn rfl rfl
          (.done (by simp [goto]) rep) hbelow hmiddle
      · obtain rfl : _ = m' := Option.some.inj hstep
        rw [hcontext]
        exact .aloneGoto (hs.numbered h (hsub ▸ .refl _)) hk turn rfl rfl
          (.done (by simp [goto]) rep) hbelow hmiddle
      · obtain rfl : _ = m' := Option.some.inj hstep
        exact .aloneGoto (h.goto rfl rfl (fun _ hv => hv) (hsub ▸ .refl _)) hk turn rfl rfl
          (.done (by simp [goto]) rep) hbelow hmiddle
      · obtain rfl : _ = m' := Option.some.inj hstep
        obtain ⟨hnumbered, hrunning⟩ := h.swapcontext_self hframes
        have hult := congrArg Stack.ult hrunning
        have hturn : (m.swapcontext m.running.ult m.running.ult (below ++ w :: k)).Turn false := by
          rw [Turn, hult]
          exact turn
        refine ⟨hnumbered, .alone (show _ = [] ++ .yieldTrue :: (below ++ w :: k) from
          congrArg Stack.frames hrunning) hk idling_nil hturn (.done (by simp) rep)
          (fun g hg => (hbelow g hg).alone rfl rfl hult) (hmiddle.at rfl rfl hult rfl rfl)⟩
      · obtain rfl : _ = m' := Option.some.inj hstep
        rw [yieldReturns_below rep hbelow hmiddle]
        exact .resume (hs.numbered h (hsub ▸ .refl _)) rfl hk (hs.turn turn) rep
          (fun g hg => (hbelow g hg).alone rfl rfl rfl) (hmiddle.at rfl rfl rfl rfl rfl)
      · obtain rfl : _ = m' := Option.some.inj hstep
        exact .resume (hs.numbered h (hsub ▸ .refl _)) rfl hk (hs.turn turn) rep
          (fun g hg => (hbelow g hg).alone rfl rfl rfl) (hmiddle.at rfl rfl rfl rfl rfl)

/-! ## Signals -/

theorem At.nobodyElse (hat : m.At dying w) (hsignal : m.SignalHarmless (w :: k)) :
    m.NobodyElse := by
  cases hat with
  | popped hw =>
      simp only [List.mem_cons, List.not_mem_nil, or_false] at hw
      rcases hw with rfl | rfl | rfl <;> exact hsignal
  | requeuing | swapping => exact hsignal
  | selected hw =>
      simp only [List.mem_cons, List.not_mem_nil, or_false] at hw
      rcases hw with rfl | rfl | rfl | rfl | rfl | rfl <;> exact hsignal
  | @creating q n ult point turn hne linking =>
      cases point with
      | ready | headTest => exact linking.elim
      | head => exact .inl linking
      | tailTest | link => exact absurd linking hsignal
      | tail | close => exact hsignal

/-- A handler on top of the middle of an operation finds nobody, or the ULT it interrupts where
`th_yield` has put it back. -/
theorem At.alone (hat : m.At dying w) (h : m.Numbered)
    (hhead : m.lib.readyQueueHead = some m.lib.currentUlt)
    (hnext : m.lib.next m.lib.currentUlt = none) :
    dying = false ∧ m.Turn false ∧ m.Then fun m => m.At false w := by
  have hcons : ∀ {q out}, m.Queued q out → ∃ q', q = m.lib.currentUlt :: q' := by
    intro q out hq
    exact List.head?_eq_some_iff.1 (hq.rep.head_eq.symm.trans hhead)
  cases hat with
  | popped hw turn queued =>
      obtain ⟨q', rfl⟩ := hcons queued
      have hnodup := queued.nodup h
      cases dying with
      | false => simp [Machine.out] at hnodup
      | true =>
          obtain ⟨v, hv⟩ := queued.exists_mem (List.mem_append_left _ List.mem_cons_self)
          exact absurd turn.1 (h.state_ne_free hv)
  | @requeuing q sel ult point hult turn early rep perm =>
      subst hult
      have hnodup : (q ++ [sel, m.lib.currentUlt]).Nodup := perm.nodup_iff.2 h.enqueued_nodup
      have hq : ∀ q', q ≠ m.lib.currentUlt :: q' := by
        rintro q' rfl
        simp at hnodup
      by_cases hearly : point.Early
      · have hq' : some m.lib.currentUlt = q.head? := hhead.symm.trans (early hearly).head_eq
        obtain ⟨q', rfl⟩ := List.head?_eq_some_iff.1 hq'.symm
        exact absurd rfl (hq q')
      · have hq' : some m.lib.currentUlt = (q ++ [m.lib.currentUlt]).head? :=
          hhead.symm.trans ((head_finish hearly _).symm.trans rep.head_eq)
        cases q with
        | cons a q =>
            obtain rfl : m.lib.currentUlt = a := Option.some.inj hq'
            exact absurd rfl (hq q)
        | nil =>
            refine ⟨rfl, turn, fun lib hcurrent hcontext hrep => ?_⟩
            refine .requeuing hcurrent.symm (turn.goto hcurrent []) (fun h => absurd h hearly) ?_
              perm
            exact rep_finish_alone hearly hrep
  | @selected dying q sel w hw turn hne queued =>
      obtain ⟨q', rfl⟩ := hcons queued
      have hchain : Chain m.lib.next (m.lib.next m.lib.currentUlt) q' := queued.rep.chain.2
      rw [hnext] at hchain
      obtain rfl : q' = [] := List.head?_eq_none_iff.1 hchain.head?_eq.symm
      obtain ⟨v, hv⟩ := queued.exists_mem (List.mem_append_left _ List.mem_cons_self)
      have hfree := h.state_ne_free hv
      cases dying with
      | true => exact absurd turn.1 hfree
      | false =>
          refine ⟨rfl, turn, fun lib hcurrent hcontext hrep => ?_⟩
          exact .selected (hcontext ▸ hw) (turn.goto hcurrent []) (hcurrent ▸ hne)
            ⟨hrep, queued.perm⟩
  | swapping hnew old dead queued =>
      obtain ⟨q', rfl⟩ := hcons queued
      have hnodup := queued.nodup h
      simp at hnodup
  | @creating q n ult point turn hne linking rep perm =>
      have hnodup : (q ++ [m.lib.currentUlt]).Nodup := perm.nodup_iff.2 h.enqueued_nodup
      by_cases hearly : point.Early
      · cases point with
        | ready | headTest => exact linking.elim
        | head => cases hhead.symm.trans linking
        | tailTest | link | tail | close => exact hearly.elim
      · have hq : some m.lib.currentUlt = (q ++ [ult]).head? :=
          hhead.symm.trans ((head_finish hearly _).symm.trans rep.head_eq)
        cases q with
        | nil => exact absurd (Option.some.inj hq).symm hne
        | cons a q =>
            obtain rfl : m.lib.currentUlt = a := Option.some.inj hq
            simp at hnodup

theorem Alone.nobodyElse {f : Frame} (top : m.Alone m.lib.currentUlt f)
    (hsignal : m.SignalHarmless (f :: k)) : m.NobodyElse := by
  cases top with
  | start hf chain => exact .inr chain
  | popped hf hhead => exact .inl hhead
  | requeuing => exact hsignal
  | done hf rep => exact .inr rep.chain

theorem Alone.then {f : Frame} (top : m.Alone m.lib.currentUlt f)
    (hhead : m.lib.readyQueueHead = some m.lib.currentUlt) :
    m.Then fun m => m.Alone m.lib.currentUlt f := by
  intro lib hcurrent hcontext hrep
  show (m.goto lib []).Alone lib.currentUlt f
  rw [hcurrent]
  cases top with
  | start hf chain => exact .start hf hrep.chain
  | popped hf hnone => cases hhead.symm.trans hnone
  | requeuing early rep =>
      have hearly : ¬ EnqueueAt.Early _ := fun hearly => by cases hhead.symm.trans (early hearly)
      exact .requeuing (fun h => absurd h hearly) (rep_finish_alone hearly hrep)
  | done hf rep => exact .done hf hrep

/-! ## A handler that finds nobody -/

theorem yieldReturns_of_ne {f : Frame} (hf : f ≠ .returnLoop) (result : Bool) :
    yieldReturns result (f :: k) = f :: k := by
  cases f with
  | returnLoop => exact absurd rfl hf
  | _ => rfl

/-- The statement on top, where handlers are on top that find nobody. -/
theorem idle_exec {f : Frame} {above rest : List Frame} (hhead : m.lib.readyQueueHead = none)
    (hidle : ∀ g ∈ f :: above, g.Idle) (hrest : ∀ result, yieldReturns result rest = rest)
    (hstep : m.exec time (above ++ rest) f = some m') :
    ∃ above', m' = m.goto m.lib (above' ++ rest) ∧ ∀ g ∈ above', g.Idle := by
  have habove : ∀ g ∈ above, g.Idle := fun g hg => hidle g (List.mem_cons_of_mem f hg)
  have hcons : ∀ g : Frame, g.Idle → ∃ above',
      m.goto m.lib (g :: (above ++ rest)) = m.goto m.lib (above' ++ rest) ∧
        ∀ g ∈ above', g.Idle :=
    fun g hg => ⟨g :: above, rfl, List.forall_mem_cons.2 ⟨hg, habove⟩⟩
  cases f with
  | nextRead =>
      obtain rfl : _ = m' := Option.some.inj hstep
      exact hcons _ hhead
  | nextTest sel =>
      obtain rfl : sel = none := hidle _ List.mem_cons_self
      obtain rfl : _ = m' := Option.some.inj hstep
      rw [if_pos hhead]
      exact hcons _ rfl
  | nextReturn sel =>
      obtain rfl : sel = none := hidle _ List.mem_cons_self
      obtain rfl : _ = m' := Option.some.inj hstep
      exact hcons _ rfl
  | yieldTest sel =>
      obtain rfl : sel = none := hidle _ List.mem_cons_self
      obtain rfl : _ = m' := Option.some.inj hstep
      refine ⟨above, ?_, habove⟩
      have hreturns : yieldReturns false (above ++ rest) = above ++ rest := by
        cases above with
        | nil => exact hrest false
        | cons g above =>
            cases g with
            | returnLoop => exact (habove _ List.mem_cons_self).elim
            | _ => rfl
      rw [hreturns]
  | handler =>
      obtain rfl : _ = m' := Option.some.inj hstep
      refine ⟨.nextRead :: .handlerEnd :: above, rfl, ?_⟩
      exact List.forall_mem_cons.2 ⟨trivial, List.forall_mem_cons.2 ⟨trivial, habove⟩⟩
  | handlerEnd =>
      obtain rfl : _ = m' := Option.some.inj hstep
      exact ⟨above, rfl, habove⟩
  | _ => exact (hidle _ List.mem_cons_self).elim

theorem creations_idle {above rest : List Frame} (h : ∀ g ∈ above, g.Idle) :
    creations (above ++ rest) = creations rest := by
  induction above with
  | nil => rfl
  | cons f above ih =>
      have hf : f.creation = none := by
        have hidle := h f List.mem_cons_self
        cases f <;> first | rfl | exact hidle.elim
      rw [List.cons_append, creations_cons, hf]
      exact ih fun g hg => h g (List.mem_cons_of_mem f hg)

/-- Other handlers on top leave the rest as it is. -/
theorem Inv.idle {above above' rest : List Frame} (h : m.Numbered)
    (hframes : m.running.frames = above ++ rest) (hhead : m.lib.readyQueueHead = none)
    (habove : ∀ g ∈ above, g.Idle) (habove' : ∀ g ∈ above', g.Idle)
    (hphase : ∀ above, m.Idling above → (m.goto m.lib (above ++ rest)).Phase) :
    (m.goto m.lib (above' ++ rest)).Inv := by
  refine ⟨(Same.refl m).numbered h ?_, hphase above' fun _ => ⟨hhead, habove'⟩⟩
  rw [hframes, creations_idle habove, creations_idle habove']

theorem Inv.idleStep {above rest : List Frame} (h : m.Numbered)
    (hframes : m.running.frames = above ++ rest) (hne : above ≠ []) (hidle : m.Idling above)
    (hrest : ∀ result, yieldReturns result rest = rest) {label : Label}
    (hphase : ∀ above, m.Idling above → (m.goto m.lib (above ++ rest)).Phase)
    (hstep : m.step label = some m') : m'.Inv := by
  obtain ⟨hhead, habove⟩ := hidle hne
  obtain ⟨f, above, rfl⟩ := List.exists_cons_of_ne_nil hne
  cases label with
  | signal =>
      rw [step, if_neg (by simp [hframes]), hframes] at hstep
      obtain rfl : _ = m' := Option.some.inj hstep
      show (m.goto m.lib ((.handler :: f :: above) ++ rest)).Inv
      exact .idle h hframes hhead habove (List.forall_mem_cons.2 ⟨trivial, habove⟩) hphase
  | call op =>
      rw [step, hframes] at hstep
      cases f with
      | own => exact (habove _ List.mem_cons_self).elim
      | _ => cases hstep
  | stmt time =>
      rw [step, hframes] at hstep
      obtain ⟨above', rfl, habove'⟩ := idle_exec hhead habove hrest hstep
      exact .idle h hframes hhead habove habove' hphase

/-! ## Steps and runs -/

theorem Alone.phase {f : Frame} {below : List Frame} (top : m.Alone m.lib.currentUlt f)
    (hk : Parked false k) (turn : m.Turn false)
    (hbelow : ∀ g ∈ below, m.Then fun m => m.Alone m.lib.currentUlt g)
    (hmiddle : m.Then fun m => m.At false w) (above : List Frame) (hidle : m.Idling above) :
    (m.goto m.lib (above ++ f :: (below ++ w :: k))).Phase :=
  .alone rfl hk hidle turn (top.congr rfl rfl)
    (fun g hg => (hbelow g hg).alone rfl rfl rfl) (hmiddle.at rfl rfl rfl rfl rfl)

theorem At.stmt (h : m.Numbered) (hframes : m.running.frames = w :: k) (hk : Parked dying k)
    (hat : m.At dying w) (hstep : m.exec time k w = some m') : m'.Inv := by
  cases hat with
  | popped hw turn queued => exact .popped h hframes hk hw turn queued hstep
  | requeuing hult turn early rep perm =>
      exact .requeuing h hframes hk hult turn early rep perm hstep
  | selected hw turn hne queued => exact .selected h hframes hk hw turn hne queued hstep
  | swapping hnew old dead queued => exact .swapping h hframes hk hnew old dead queued hstep
  | creating turn hne linking rep perm =>
      exact .creating h hframes hk turn hne linking rep perm hstep

/-- A signal where others may run, or nobody else is there. -/
theorem Inv.signal (h : m.Inv) (hsignal : m.SignalHarmless m.running.frames) :
    (m.goto m.lib (.handler :: m.running.frames)).Inv := by
  have hs := Same.refl m
  have hnumbered : (m.goto m.lib (.handler :: m.running.frames)).Numbered :=
    hs.numbered h.numbered (.refl _)
  have hidling : ∀ f : Frame, f.Idle → m.lib.readyQueueHead = none → m.Idling [f] :=
    fun f hf hhead _ => ⟨hhead, fun g hg => List.mem_singleton.1 hg ▸ hf⟩
  cases h.phase with
  | calm parked turn queued =>
      exact .calm hs h.numbered rfl (.refl _) (parked.cons trivial) turn queued
  | @window dying above k w frames parked idle middle =>
      cases above with
      | cons f above =>
          exact .idleStep h.numbered frames (List.cons_ne_nil f above) idle
            (yieldReturns_of_ne middle.ne_returnLoop)
            (fun above' hidle => .window rfl parked hidle (middle.congr rfl rfl rfl rfl))
            (show m.step .signal = _ by rw [step, if_neg (by simp [frames])])
      | nil =>
          rw [frames] at hsignal hnumbered ⊢
          rcases middle.nobodyElse hsignal with hhead | ⟨hhead, hnext⟩
          · exact ⟨hnumbered, .window (show _ = [.handler] ++ w :: k from rfl) parked
              (hidling _ trivial hhead) (middle.congr rfl rfl rfl rfl)⟩
          · obtain ⟨rfl, turn, hthen⟩ := middle.alone h.numbered hhead hnext
            show (m.goto m.lib (.handler :: ([] ++ w :: k))).Inv
            exact .aloneGoto hnumbered parked turn rfl rfl (.start trivial ⟨hhead, hnext⟩)
              (fun g hg => absurd hg List.not_mem_nil) hthen
  | @alone above below k f w frames parked idle turn top hbelow middle =>
      cases above with
      | cons g above =>
          exact .idleStep h.numbered frames (List.cons_ne_nil g above) idle
            (yieldReturns_of_ne top.ne_returnLoop) (top.phase parked turn hbelow middle)
            (show m.step .signal = _ by rw [step, if_neg (by simp [frames])])
      | nil =>
          rw [frames] at hsignal hnumbered ⊢
          rcases top.nobodyElse hsignal with hhead | ⟨hhead, hnext⟩
          · exact ⟨hnumbered, top.phase parked turn hbelow middle [.handler]
              (hidling _ trivial hhead)⟩
          · show (m.goto m.lib (.handler :: ((f :: below) ++ w :: k))).Inv
            exact .aloneGoto hnumbered parked turn rfl rfl (.start trivial ⟨hhead, hnext⟩)
              (List.forall_mem_cons.2 ⟨top.then hhead, hbelow⟩) middle

theorem Inv.call {op : Call} (h : m.Inv) (hstep : m.step (.call op) = some m') : m'.Inv := by
  have hs := Same.refl m
  have hframes : ∃ k, m.running.frames = .own :: k ∧ m' = m.goto m.lib (op.frame :: .own :: k) := by
    rw [step] at hstep
    split at hstep
    · next k hk =>
        split at hstep
        · cases hstep
        · exact ⟨k, hk, (Option.some.inj hstep).symm⟩
    · cases hstep
  obtain ⟨k, hframes, rfl⟩ := hframes
  have hop : op.frame.Calm ∧ op.frame.creation = none := by
    cases op <;> exact ⟨trivial, rfl⟩
  cases h.phase with
  | @calm dying q parked turn queued =>
      cases dying with
      | true =>
          rw [hframes] at parked
          rcases parked.cons_inv with hf | ⟨-, hf, -⟩
          · cases hf
          · exact (hf rfl).elim
      | false =>
          refine .calm hs h.numbered rfl ?_ (Parked.cons_calm (hframes ▸ parked) hop.1) turn queued
          rw [hframes, creations_cons, hop.2]
          exact .refl _
  | @window dying above k' w frames parked idle middle =>
      cases above with
      | cons f above =>
          obtain rfl := (List.cons.inj (hframes.symm.trans frames)).1
          exact ((idle (List.cons_ne_nil _ _)).2 _ List.mem_cons_self).elim
      | nil =>
          obtain rfl := (List.cons.inj (hframes.symm.trans frames)).1
          cases middle with
          | popped hw => simp at hw
          | selected hw => simp at hw
  | @alone above below k' f w frames parked idle turn top hbelow middle =>
      cases above with
      | cons f above =>
          obtain rfl := (List.cons.inj (hframes.symm.trans frames)).1
          exact ((idle (List.cons_ne_nil _ _)).2 _ List.mem_cons_self).elim
      | nil =>
          obtain rfl := (List.cons.inj (hframes.symm.trans frames)).1
          cases top with
          | start hf => exact hf.elim
          | popped hf => simp at hf
          | done hf => simp at hf

theorem Inv.stmt (h : m.Inv) (hfresh : m.StmtFresh m.running.frames)
    (hstep : m.step (.stmt time) = some m') : m'.Inv := by
  cases h.phase with
  | @calm dying q parked turn queued =>
      rw [step] at hstep
      split at hstep
      · cases hstep
      · next f k hframes =>
          rw [hframes] at parked hfresh
          rcases parked.cons_inv with rfl | ⟨hcalm, hwait, hk⟩
          · cases hstep
          · by_cases hwaiting : f.Waiting
            · exact .calmWaiting h.numbered hframes hwaiting hk turn queued hfresh hstep
            · cases dying with
              | true => exact absurd (hwait rfl) hwaiting
              | false =>
                  exact .calmOwn h.numbered hframes hcalm hwaiting hk turn queued hfresh hstep
  | @window dying above k w frames parked idle middle =>
      cases above with
      | cons f above =>
          exact .idleStep h.numbered frames (List.cons_ne_nil f above) idle
            (yieldReturns_of_ne middle.ne_returnLoop)
            (fun above' hidle => .window rfl parked hidle (middle.congr rfl rfl rfl rfl)) hstep
      | nil =>
          rw [step, frames] at hstep
          exact middle.stmt h.numbered frames parked hstep
  | @alone above below k f w frames parked idle turn top hbelow middle =>
      cases above with
      | cons g above =>
          exact .idleStep h.numbered frames (List.cons_ne_nil g above) idle
            (yieldReturns_of_ne top.ne_returnLoop) (top.phase parked turn hbelow middle) hstep
      | nil =>
          rw [frames] at hfresh
          rw [step, frames] at hstep
          exact .aloneStmt h.numbered frames parked turn top hbelow middle hfresh hstep

/-- An undisturbed step keeps the invariant. -/
theorem Inv.step {label : Label} (h : m.Inv) (hlabel : m.Undisturbed label)
    (hstep : Step m label m') : m'.Inv := by
  cases label with
  | signal =>
      have hsome : m.step .signal = some m' := hstep
      rw [Machine.step] at hsome
      split at hsome
      · cases hsome
      · obtain rfl := Option.some.inj hsome
        exact h.signal hlabel
  | call op => exact h.call hstep
  | stmt time => exact h.stmt hlabel hstep

theorem inv_init (now : ℤ) : (Machine.init now).Inv := by
  have hq := readyQueue_libInit now
  have hnumbered : (Machine.init now).Numbered := by
    constructor
    · exact fun p hp => hp
    · simp [Machine.init]
    · simp [Machine.init]
    · simp [Machine.init]
    · intro p hp
      obtain rfl := List.mem_singleton.1 hp
      refine ⟨Nat.zero_lt_one, hq.main_live, ?_⟩
      simp [Machine.init, libInit, Globals.context, libWriteTCB]
    · intro p hp hne
      obtain rfl := List.mem_singleton.1 hp
      exact absurd rfl hne
    · exact Nat.zero_lt_one
    · intro p hp x hx
      obtain rfl := List.mem_singleton.1 hp
      cases hx
    · intro p hp
      obtain rfl := List.mem_singleton.1 hp
      exact List.nodup_nil
    · intro p hp p' hp' _ _ _ _ _
      rw [List.mem_singleton.1 hp, List.mem_singleton.1 hp']
  have hparked : Parked false (Machine.init now).running.frames :=
    fun f hf => List.mem_singleton.1 hf ▸ trivial
  have hturn : (Machine.init now).Turn false := List.mem_singleton_self _
  have hqueued : (Machine.init now).Queued [] [(Machine.init now).lib.currentUlt] :=
    ⟨hq.rep, List.Perm.refl _⟩
  exact ⟨hnumbered, .calm hparked hturn hqueued⟩

/-- Where a ULT executes its own code no operation is under way. -/
theorem Inv.safe (h : m.Inv) : m.Safe := by
  intro hown
  have hne : ∀ {above : List Frame} {f : Frame} {k : List Frame}, m.Idling above →
      m.running.frames = above ++ f :: k → f ≠ .own → False := by
    intro above f k hidle hframes hf
    rw [hown] at hframes
    cases above with
    | nil => exact hf (List.cons.inj hframes).1.symm
    | cons g above => simp at hframes
  cases h.phase with
  | @calm dying q parked turn queued =>
      cases dying with
      | true =>
          rw [hown] at parked
          rcases parked.cons_inv with hf | ⟨-, hf, -⟩
          · cases hf
          · exact (hf rfl).elim
      | false =>
          have hnodup := queued.nodup h.numbered
          obtain ⟨hq, -, hcur⟩ := List.nodup_append.1 hnodup
          refine ⟨q, queued.rep.chain, fun p hp => ?_, fun p hp hcurrent hmem => ?_, fun ult hult => ?_,
            h.numbered.slots_nodup⟩
          · have hmem : p.2 ∈ q ++ [m.lib.currentUlt] :=
              queued.perm.mem_iff.2 (List.mem_map_of_mem hp)
            rcases List.mem_append.1 hmem with hmem | hmem
            · have hult : p.1 ≠ m.running.ult := by
                intro heq
                have hp' := h.numbered.eq_of_context (h.numbered.subset _ hp)
                  (h.numbered.subset _ turn) heq
                rw [hp'] at hmem
                exact hcur _ hmem _ (List.mem_singleton_self _) rfl
              exact .inr ⟨List.count_eq_one_of_mem hq hmem, h.numbered.context_eq hp,
                (h.numbered.parked p hp hult).1⟩
            · have hp' := h.numbered.eq_of_slot (h.numbered.subset _ hp)
                (h.numbered.subset _ turn) (List.mem_singleton.1 hmem)
              subst hp'
              exact .inl ⟨rfl, rfl⟩
          · exact hcur _ (hcurrent ▸ hmem) _ (List.mem_singleton_self _) rfl
          · exact queued.exists_mem (List.mem_append_left _ hult)
  | window frames parked idle middle =>
      refine (hne idle frames ?_).elim
      rintro rfl
      cases middle with
      | popped hw => simp at hw
      | selected hw => simp at hw
  | alone frames parked idle turn top =>
      refine (hne idle frames ?_).elim
      rintro rfl
      cases top with
      | start hf => exact hf.elim
      | popped hf => simp at hf
      | done hf => simp at hf

end Middle

/-- In every undisturbed run no ULT is lost or duplicated. -/
theorem preemption_safety {now : ℤ} {labels : List Label}
    (h : EachStep Step Undisturbed (Machine.init now) labels) :
    Along Step (fun _ m => m.Safe) (Machine.init now) labels := by
  have hinv := h.along (fun _ _ _ hm hlabel hstep => Inv.step hm hlabel hstep) (inv_init now)
  intro fs gs m hlabels hrun
  exact (hinv fs gs m hlabels hrun).safe

end Machine

/-- The main ULT creates another one, which yields.  When it has taken the main one off the queue a
signal finds nobody to switch to, and the yield goes on. -/
def signalWhileAlone : List Label :=
  [.call .create] ++ List.replicate 31 (.stmt 0) ++ [.call .yield] ++ List.replicate 3 (.stmt 0) ++
    [.signal] ++ List.replicate 25 (.stmt 0)

theorem preemption_safety_signal : ∃ m, Run Machine.Step (Machine.init 0) signalWhileAlone m ∧
    m.running.frames = [.own] ∧ m.lib.currentUlt = mainUlt ∧ ∃ q, m.Accounted q := by
  have hrun : (signalWhileAlone.foldlM Machine.step (Machine.init 0)).any (fun m =>
      m.running.frames = [.own] ∧ m.lib.currentUlt = mainUlt) = true := by decide +kernel
  have hall : (signalWhileAlone.foldlM (fun m label => if Machine.Undisturbed m label
      then Machine.step m label else none) (Machine.init 0)).isSome = true := by decide +kernel
  obtain ⟨m, hm, hend⟩ := (Option.any_eq_true _ _).1 hrun
  obtain ⟨m', hm'⟩ := Option.isSome_iff_exists.1 hall
  obtain ⟨hown, hcurrent⟩ := of_decide_eq_true hend
  have hsafe := Machine.preemption_safety (eachStep_of_foldlM (fun _ _ _ h => h) hm')
  have hrun : Run Machine.Step (Machine.init 0) signalWhileAlone m :=
    .of_foldlM (fun _ _ _ h => h) hm
  exact ⟨m, hrun, hown, hcurrent, hsafe _ [] m (List.append_nil _).symm hrun hown⟩

/-- Two ULTs are created, the second by the first.  When the main one yields, it has taken the
second off the queue, and a signal lets the first one run: the second is nowhere. -/
def signalWhileHeld : List Label :=
  [.call .create] ++ List.replicate 31 (.stmt 0) ++ [.call .create] ++
    List.replicate 33 (.stmt 0) ++ [.call .yield] ++ List.replicate 3 (.stmt 0) ++ [.signal] ++
    List.replicate 23 (.stmt 0)

theorem ult_lost : ∃ m, Run Machine.Step (Machine.init 0) signalWhileHeld m ∧ ¬ m.Safe := by
  have hrun : (signalWhileHeld.foldlM Machine.step (Machine.init 0)).any (fun m =>
      m.running.frames = [.own] ∧ m.lib.currentUlt = ⟨1, by decide⟩ ∧
        (2, (⟨2, by decide⟩ : Ult)) ∈ m.enqueued ∧ m.lib.readyQueueHead = some mainUlt ∧
        m.lib.next mainUlt = none) = true := by
    decide +kernel
  obtain ⟨m, hm, hall⟩ := (Option.any_eq_true _ _).1 hrun
  obtain ⟨hown, hcurrent, hmem, hhead, hnext⟩ := of_decide_eq_true hall
  refine ⟨m, Run.of_foldlM (fun _ _ _ h => h) hm, fun hsafe => ?_⟩
  obtain ⟨q, hq⟩ := hsafe hown
  have hchain : Chain m.lib.next m.lib.readyQueueHead [mainUlt] := ⟨hhead, hnext⟩
  obtain rfl := hq.chain.unique hchain
  rcases hq.somewhere _ hmem with ⟨hult, -⟩ | ⟨hcount, -⟩
  · exact absurd (hcurrent.symm.trans hult) (by decide)
  · exact absurd hcount (by decide)

end Threaders.Hilolay
