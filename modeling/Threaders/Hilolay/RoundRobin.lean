import Threaders.Hilolay.Sequential
import Threaders.Lib.Ring

/-!
# Green threads take turns

`th_create` numbers the ULTs with `NEXT_ID++`, in the order in which it makes their contexts,
and gives the TCBs of those that have finished to new ones.  Under their numbers the ULTs are
a ring of at most `MAX_ULTS` names: the table, the links and the contexts are what the library
needs to turn it.

## Main definitions

* `thGetTid` — the number of the current ULT.
* `Named` — the names of the current ULT and of those in the queue.
* `Follows` — the library and the ring.
-/

namespace Threaders.Hilolay

open Lib

/-! ## The numbers of the TCBs -/

namespace Globals

/-- The number of every TCB. -/
def id (s : Globals) (ult : Ult) : ℤ := (s.ults ult).id

section Setters
variable (s : Globals) (ult : Ult) (tcb : TCB)

@[simp] theorem id_setTCB : (s.setTCB ult tcb).id = Function.update s.id ult tcb.id := by
  ext v
  by_cases h : v = ult <;> simp [id, setTCB, h]

@[simp] theorem id_setState (x : State) : (s.setState ult x).id = s.id :=
  (id_setTCB ..).trans (Function.update_eq_self ult s.id)

@[simp] theorem id_setNext (n : Option Ult) : (s.setNext ult n).id = s.id :=
  (id_setTCB ..).trans (Function.update_eq_self ult s.id)

@[simp] theorem id_setBurstStart (now : ℤ) : (s.setBurstStart ult now).id = s.id :=
  (id_setTCB ..).trans (Function.update_eq_self ult s.id)

@[simp] theorem id_setHead (p : Option Ult) : (s.setHead p).id = s.id := rfl
@[simp] theorem id_setTail (p : Option Ult) : (s.setTail p).id = s.id := rfl
@[simp] theorem id_setCurrent : (s.setCurrent ult).id = s.id := rfl

@[simp] theorem nextId_setTCB : (s.setTCB ult tcb).nextId = s.nextId := rfl
@[simp] theorem nextId_setState (x : State) : (s.setState ult x).nextId = s.nextId := rfl
@[simp] theorem nextId_setNext (n : Option Ult) : (s.setNext ult n).nextId = s.nextId := rfl
@[simp] theorem nextId_setBurstStart (now : ℤ) : (s.setBurstStart ult now).nextId = s.nextId := rfl
@[simp] theorem nextId_setHead (p : Option Ult) : (s.setHead p).nextId = s.nextId := rfl
@[simp] theorem nextId_setTail (p : Option Ult) : (s.setTail p).nextId = s.nextId := rfl
@[simp] theorem nextId_setCurrent : (s.setCurrent ult).nextId = s.nextId := rfl

end Setters

end Globals

/-- `th_get_tid`. -/
def thGetTid (s : Globals) : ℤ := s.id s.currentUlt

section Numbers
variable (s : Globals) (ult : Ult)

@[simp] theorem id_libEnqueue : (libEnqueue s ult).id = s.id := by
  cases hhead : s.readyQueueHead <;> cases htail : s.readyQueueTail <;>
    simp [libEnqueue, hhead, htail]

@[simp] theorem nextId_libEnqueue : (libEnqueue s ult).nextId = s.nextId := by
  cases hhead : s.readyQueueHead <;> cases htail : s.readyQueueTail <;>
    simp [libEnqueue, hhead, htail]

@[simp] theorem id_requeueCurrent : (requeueCurrent s).id = s.id := by
  unfold requeueCurrent
  split <;> simp

@[simp] theorem nextId_requeueCurrent : (requeueCurrent s).nextId = s.nextId := by
  unfold requeueCurrent
  split <;> simp

@[simp] theorem id_libSummarizeBurst (now : ℤ) : (libSummarizeBurst s now).id = s.id :=
  (Globals.id_setTCB ..).trans (Function.update_eq_self s.currentUlt s.id)

@[simp] theorem nextId_libSummarizeBurst (now : ℤ) :
    (libSummarizeBurst s now).nextId = s.nextId := rfl

/-- `th_yield` gives no numbers. -/
theorem id_thYield (t₁ t₂ : ℤ) : (thYield s t₁ t₂).2.id = s.id := by
  cases hhead : s.readyQueueHead <;> simp [thYield, libGetNextUlt, hhead]

theorem nextId_thYield (t₁ t₂ : ℤ) : (thYield s t₁ t₂).2.nextId = s.nextId := by
  cases hhead : s.readyQueueHead <;> simp [thYield, libGetNextUlt, hhead]

/-- `th_create` gives the next one. -/
@[simp] theorem id_thCreateAt :
    (thCreateAt s ult).id = Function.update s.id ult s.nextId := by
  unfold thCreateAt
  rw [id_libEnqueue]
  ext v
  by_cases h : v = ult <;>
    simp [writeNextTCB, thCreateContext, libWriteTCB, Globals.id, Globals.setTCB, h]

@[simp] theorem nextId_thCreateAt : (thCreateAt s ult).nextId = s.nextId + 1 := by
  unfold thCreateAt
  rw [nextId_libEnqueue]
  rfl

end Numbers

/-! ## Names -/

/-- The current ULT and those in the queue have these names, under which they own their
contexts, and the numbers of the TCBs are the names. -/
structure Named (s : Globals) (q : List Ult) (names : List ℕ) : Prop where
  order : (s.currentUlt :: q).map s.context = names.map some
  ids : ∀ ult name, s.state ult ≠ .free → s.context ult = some name → s.id ult = name
  nextId : s.nextId = s.contexts

section Named
variable {s p s' : Globals} {q rest : List Ult} {names : List ℕ} {a ult : Ult} {t₁ t₂ : ℤ}
  {switch : Option Switch}

theorem Named.ne_nil (h : Named s q names) : names ≠ [] := by
  rintro rfl
  simpa using h.order

/-- A switch turns the names, and leaves out that of a ULT that has finished. -/
theorem Named.dispatch (h : Named p (a :: rest) names) (hsched : Scheduled p (a :: rest))
    (hd : Dispatches p a rest s') (hyield : thYield p t₁ t₂ = (switch, s')) :
    Named s' (rest ++ requeued p)
      (if p.state p.currentUlt = .free then names.tail else names.rotate 1) := by
  obtain rfl : s' = (thYield p t₁ t₂).2 := by rw [hyield]
  refine ⟨?_, fun ult name hlive hc => ?_, ?_⟩
  · have horder := h.order
    rw [hd.current, hd.context]
    by_cases hfree : p.state p.currentUlt = .free
    · have hrest : (a :: rest).map p.context = names.tail.map some := by
        rw [List.map_tail, ← horder]
        rfl
      simpa [requeued, hfree] using hrest
    · have hrest : ((p.currentUlt :: a :: rest).map p.context).rotate 1
          = (names.rotate 1).map some := by
        rw [horder, List.map_rotate]
      simpa [requeued, hfree] using hrest
  · rw [id_thYield]
    rw [hd.context] at hc
    exact h.ids ult name (by rwa [Ne, ← hd.free_iff hsched]) hc
  · rw [nextId_thYield, hd.contexts, h.nextId]

/-- `th_create` puts the next name behind the others. -/
theorem Named.create (h : Named s q names) (hq : ReadyQueue s q) (hfree : s.state ult = .free) :
    Named (thCreateAt s ult) (q ++ [ult]) (names ++ [s.contexts]) := by
  have hcur : s.currentUlt ≠ ult := fun heq => by simp [← heq, hq.running] at hfree
  have hmem : ∀ v ∈ q, v ≠ ult := fun v hv heq => by
    simp [← heq, (hq.mem_iff v).mp hv] at hfree
  refine ⟨?_, fun v name hlive hc => ?_, ?_⟩
  · have hold : (s.currentUlt :: q).map (thCreateAt s ult).context
        = (s.currentUlt :: q).map s.context := by
      refine List.map_congr_left fun v hv => ?_
      have hne : v ≠ ult := by
        rcases List.mem_cons.mp hv with rfl | hv
        · exact hcur
        · exact hmem v hv
      simp [hne]
    rw [currentUlt_thCreateAt, ← List.cons_append, List.map_append, hold, h.order]
    simp
  · rcases eq_or_ne v ult with rfl | hne
    · obtain rfl : s.contexts = name := by simpa using hc
      simp [h.nextId]
    · have hid := h.ids v name (by simpa [hne] using hlive) (by simpa [hne] using hc)
      simpa [hne] using hid
  · simp [h.nextId]

/-- The current ULT gives its TCB back, and keeps its name until it is left. -/
theorem Named.finish (h : Named s q names) (hf : Finished s p) (hid : p.id = s.id)
    (hnext : p.nextId = s.nextId) : Named p q names := by
  refine ⟨by rw [hf.current, hf.context, h.order], fun ult name hlive hc => ?_, ?_⟩
  · rw [hf.context] at hc
    rw [hid]
    refine h.ids ult name (fun hfree => hlive ?_) hc
    rcases eq_or_ne ult s.currentUlt with rfl | hne
    · simp [hf.state]
    · simp [hf.state, hne, hfree]
  · rw [hnext, hf.contexts, h.nextId]

end Named

/-! ## The ring -/

/-- What an operation is to the ring. -/
def Op.action : Op → Ring.Action
  | .create _ _ => .create
  | .yield _ _ => .yield
  | .ret _ _ => .leave
  | .stop _ _ _ => .leave

/-- The library has the threads of the ring. -/
structure Follows (s : System) (ring : Ring maxUlts) : Prop where
  rooted : Rooted s
  named : ∃ q, ReadyQueue s.lib q ∧ Named s.lib q ring.names
  created : s.lib.contexts = ring.created

theorem follows_init (now : ℤ) : Follows (System.init now) (Ring.init (by decide)) where
  rooted := rooted_init now
  named := by
    refine ⟨[], readyQueue_libInit now, ?_, fun ult name hlive hc => ?_, rfl⟩
    · have hmain := (rooted_init now).main
      have hnames : (Ring.init (by decide) : Ring maxUlts).names = [0] := rfl
      rw [hnames]
      exact congrArg (· :: []) hmain
    · obtain rfl : ult = mainUlt := by
        by_contra hne
        exact hlive ((readyQueue_libInit now).free_of_nil hne)
      have hname : some 0 = some name := (rooted_init now).main.symm.trans hc
      rw [← Option.some.inj hname]
      simp [System.init, libInit, Globals.id, libWriteTCB]
  created := rfl

section Follows
variable {s t : System} {ring : Ring maxUlts} {q : List Ult} {op : Op} {switch : Option Switch}

theorem context_current (hn : Named s.lib q ring.names) :
    s.lib.context s.lib.currentUlt = some ring.current := by
  have horder := hn.order
  rw [ring.names_eq] at horder
  exact (List.cons.inj horder).1

/-- The main ULT has the name 0. -/
theorem Follows.current_eq_zero_iff (h : Follows s ring) (hq : ReadyQueue s.lib q)
    (hn : Named s.lib q ring.names) : ring.current = 0 ↔ s.lib.currentUlt = mainUlt := by
  have hcur := context_current hn
  constructor
  · intro hzero
    refine h.rooted.contexts.inj _ _ (by simp [hq.running]) hq.main_live ?_
    rw [hcur, hzero, h.rooted.main]
  · intro hmain
    rw [hmain, h.rooted.main] at hcur
    exact (Option.some.inj hcur).symm

/-- The ring is full where no TCB is free. -/
theorem full_iff (hq : ReadyQueue s.lib q) (hn : Named s.lib q ring.names) :
    firstFree s.lib = none ↔ ring.names.length = maxUlts := by
  have hlength : ring.names.length = (s.lib.currentUlt :: q).length := by
    rw [← List.length_map (f := some), ← hn.order, List.length_map]
  have hnodup : (s.lib.currentUlt :: q).Nodup := List.nodup_cons.mpr ⟨hq.current_not_mem, hq.nodup⟩
  cases hfirst : firstFree s.lib with
  | none =>
      have hlive : ∀ ult, s.lib.state ult ≠ .free := by
        simpa [firstFree, List.find?_eq_none] using hfirst
      have hall : ∀ ult, ult ∈ s.lib.currentUlt :: q := by
        intro ult
        cases hstate : s.lib.state ult with
        | free => exact absurd hstate (hlive ult)
        | running => exact hq.eq_current ult hstate ▸ List.mem_cons_self
        | ready => exact List.mem_cons_of_mem _ ((hq.mem_iff ult).mpr hstate)
      have hcard := (List.toFinset_card_of_nodup hnodup).symm
      rw [Finset.eq_univ_of_forall fun ult => List.mem_toFinset.mpr (hall ult),
        Finset.card_univ, Fintype.card_fin] at hcard
      simpa [hlength] using hcard
  | some ult =>
      have hfree := state_of_firstFree hfirst
      have hnot : ult ∉ s.lib.currentUlt :: q := by
        intro hmem
        rcases List.mem_cons.mp hmem with rfl | hmem
        · simp [hq.running] at hfree
        · simp [(hq.mem_iff ult).mp hmem] at hfree
      have hcard := (List.nodup_cons.mpr ⟨hnot, hnodup⟩).length_le_card
      rw [Fintype.card_fin, List.length_cons, ← hlength] at hcard
      have hne : ring.names.length ≠ maxUlts := by omega
      simp [hne]

/-- A dispatch, whatever is done before it. -/
theorem follows_of_dispatch {p : Globals} {names : List ℕ} {a : Ult} {rest : List Ult} {t₁ t₂ : ℤ}
    (ht : Rooted t) (hq : ReadyQueue s.lib q) (hp : Prepares s.lib q p (a :: rest))
    (hn : Named p (a :: rest) names) (hd : Dispatches p a rest t.lib)
    (hyield : thYield p t₁ t₂ = (switch, t.lib))
    (hnames : ring.names = if p.state p.currentUlt = .free then names.tail else names.rotate 1)
    (hcreated : p.contexts = ring.created) : Follows t ring where
  rooted := ht
  named := by
    have hsched := hp.scheduled hq
    exact ⟨_, hd.readyQueue hsched (hp.main_live hq), hnames ▸ hn.dispatch hsched hd hyield⟩
  created := hd.contexts.trans hcreated

/-- A `th_yield` of a ULT that goes on, whether or not it finds another. -/
theorem Follows.yield (h : Follows s ring) (ht : Rooted t) {t₁ t₂ : ℤ}
    (hlib : t.lib = (thYield s.lib t₁ t₂).2) : Follows t ring.yield := by
  obtain ⟨q, hq, hn⟩ := h.named
  cases q with
  | nil =>
      have hyield := thYield_nil hq.toScheduled t₁ t₂
      rw [hyield] at hlib
      replace hlib : t.lib = s.lib := hlib
      have hone : ring.names.length = 1 := by
        have hlength := congrArg List.length hn.order
        rw [List.length_map, List.length_map] at hlength
        exact hlength.symm
      have hnames : ring.yield.names = ring.names := by
        rw [Ring.names_yield_eq_rotate, ← hone, List.rotate_length]
      exact ⟨ht, ⟨[], hlib ▸ hq, hlib ▸ hnames ▸ hn⟩, hlib ▸ h.created⟩
  | cons b bs =>
      obtain ⟨a, rest, lib, heq, hd, hyield⟩ :=
        (Prepares.keep (s := s.lib)).yields hq (List.cons_ne_nil b bs) t₁ t₂
      rw [heq] at hq hn
      rw [hyield] at hlib
      obtain rfl : t.lib = lib := hlib
      have hnames : ring.yield.names =
          if s.lib.state s.lib.currentUlt = .free then ring.names.tail
          else ring.names.rotate 1 := by
        rw [if_neg (by simp [hq.running])]
        rfl
      exact follows_of_dispatch ht hq .keep hn hd hyield hnames h.created

/-- A ULT that ends leaves the ring. -/
theorem Follows.leave (h : Follows s ring) (ht : Rooted t) {p : Globals} {t₁ t₂ : ℤ}
    (hmain : s.lib.currentUlt ≠ mainUlt) (hf : Finished s.lib p) (hid : p.id = s.lib.id)
    (hnext : p.nextId = s.lib.nextId) (hlib : t.lib = (thYield p t₁ t₂).2) :
    Follows t ring.leave := by
  obtain ⟨q, hq, hn⟩ := h.named
  have hp : Prepares s.lib q p q := .finish hmain hf
  obtain ⟨a, rest, lib, rfl, hd, hyield⟩ :=
    hp.yields hq (List.ne_nil_of_mem (hq.main_mem hmain)) t₁ t₂
  rw [hyield] at hlib
  obtain rfl : t.lib = lib := hlib
  have hne : ring.current ≠ 0 := fun hzero => hmain ((h.current_eq_zero_iff hq hn).mp hzero)
  have hnames : ring.leave.names =
      if p.state p.currentUlt = .free then ring.names.tail else ring.names.rotate 1 := by
    rw [if_pos (by simp [hf.state, hf.current]), Ring.names_leave_of_ne hne]
  refine follows_of_dispatch ht hq hp (hn.finish hf hid hnext) hd hyield hnames ?_
  rw [hf.contexts, Ring.created_leave, h.created]

/-- A ULT is made where the ring has room. -/
theorem Follows.create (h : Follows s ring) (ht : Rooted t) {t₁ t₂ : ℤ}
    (hlib : t.lib = (thCreate s.lib t₁ t₂).2.2) : Follows t ring.create := by
  obtain ⟨q, hq, hn⟩ := h.named
  cases hfirst : firstFree s.lib with
  | none =>
      rw [thCreate_of_none hfirst] at hlib
      replace hlib : t.lib = s.lib := hlib
      rw [Ring.create_of_full ((full_iff hq hn).mp hfirst)]
      exact ⟨ht, ⟨q, hlib ▸ hq, hlib ▸ hn⟩, hlib ▸ h.created⟩
  | some ult =>
      have hfree := state_of_firstFree hfirst
      have hroom : ring.names.length < maxUlts := by
        refine ring.length_le.lt_of_ne fun hfull => ?_
        rw [(full_iff hq hn).mpr hfull] at hfirst
        cases hfirst
      have hp : Prepares s.lib q (thCreateAt s.lib ult) (q ++ [ult]) := .create hfree
      obtain ⟨a, rest, lib, heq, hd, hyield⟩ := hp.yields hq (by simp) t₁ t₂
      rw [thCreate_of_some hfirst, hyield] at hlib
      obtain rfl : t.lib = lib := hlib
      have hlive := (readyQueue_thCreateAt hq hfree).running
      have hcreate : ring.create = (ring.push hroom).yield := dif_pos hroom
      have hnames : ring.create.names =
          if (thCreateAt s.lib ult).state (thCreateAt s.lib ult).currentUlt = .free
            then (ring.names ++ [s.lib.contexts]).tail
            else (ring.names ++ [s.lib.contexts]).rotate 1 := by
        rw [if_neg (by rw [hlive]; decide), hcreate, h.created]
        rfl
      refine follows_of_dispatch ht hq (heq ▸ hp) (heq ▸ hn.create hq hfree) hd hyield hnames ?_
      rw [Ring.created_create_of_lt hroom, contexts_thCreateAt, h.created]

/-- Every operation does to the library what its action does to the ring. -/
theorem Follows.step (h : Follows s ring) (hstep : System.Step s (op, switch) t) :
    Follows t (ring.step op.action) := by
  have ht := h.rooted.step hstep
  obtain ⟨⟨-, -, hstop⟩, hexec⟩ := hstep
  obtain ⟨q, hq, hn⟩ := h.named
  simp only at hexec hstop
  cases op with
  | create t₁ t₂ =>
      rcases hcreate : thCreate s.lib t₁ t₂ with ⟨ult, switch', lib⟩
      simp only [System.exec, hcreate] at hexec
      obtain ⟨-, rfl⟩ := Prod.mk.inj hexec
      exact h.create ht (congrArg (fun result => result.2.2) hcreate).symm
  | yield t₁ t₂ =>
      obtain ⟨-, rfl⟩ : _ ∧ _ = t := by simpa [System.exec] using hexec
      exact h.yield ht rfl
  | ret t₁ t₂ =>
      by_cases hmain : s.lib.currentUlt = mainUlt
      · have hlib : t.lib = (thYield s.lib t₁ t₂).2 := by
          simp only [System.exec, System.thReturn, hmain, if_pos] at hexec
          obtain ⟨-, rfl⟩ := Prod.mk.inj hexec
          rfl
        have hleave : ring.step (Op.ret t₁ t₂).action = ring.yield :=
          Ring.leave_of_zero ((h.current_eq_zero_iff hq hn).mpr hmain)
        rw [hleave]
        exact h.yield ht hlib
      · obtain ⟨-, rfl⟩ : _ ∧ _ = t := by
          simpa [System.exec, System.thReturn, hmain] using hexec
        exact h.leave ht hmain (finished_setState s.lib) (by simp) (by simp) rfl
  | stop t₀ t₁ t₂ =>
      have hmain : s.lib.currentUlt ≠ mainUlt := fun hmain => hstop hmain t₀ t₁ t₂ rfl
      obtain ⟨-, rfl⟩ : _ ∧ _ = t := by
        simpa [System.exec, System.thReturn, hmain] using hexec
      exact h.leave ht hmain (finished_libSummarizeBurst s.lib t₀) (by simp) (by simp) rfl

theorem Follows.run {labels : List (Op × Option Switch)} (h : Follows s ring)
    (hrun : Run System.Step s labels t) :
    Follows t (ring.run (labels.map fun label => label.1.action)) := by
  induction hrun generalizing ring with
  | nil => exact h
  | cons hstep _ ih => exact ih (h.step hstep)

/-- `th_create` fails exactly where the ring is full. -/
theorem Follows.create_fails_iff (h : Follows s ring) {t₁ t₂ : ℤ}
    (hstep : System.Step s (.create t₁ t₂, switch) t) :
    switch = none ↔ ring.names.length = maxUlts := by
  obtain ⟨q, hq, hn⟩ := h.named
  obtain ⟨-, hexec⟩ := hstep
  rw [← full_iff hq hn]
  cases hfirst : firstFree s.lib with
  | none =>
      simp only [System.exec, thCreate_of_none hfirst] at hexec
      exact iff_of_true (Prod.mk.inj hexec).1.symm rfl
  | some ult =>
      obtain ⟨a, rest, lib, -, -, hyield⟩ :=
        (Prepares.create (state_of_firstFree hfirst)).yields hq (by simp) t₁ t₂
      simp only [System.exec, thCreate_of_some hfirst, hyield] at hexec
      obtain ⟨rfl, -⟩ := Prod.mk.inj hexec
      simp

theorem Follows.thGetTid_eq (h : Follows s ring) : thGetTid s.lib = ring.current := by
  obtain ⟨q, hq, hn⟩ := h.named
  exact hn.ids _ _ (by simp [hq.running]) (context_current hn)

/-- A live TCB has one of the names. -/
theorem Follows.id_mem (h : Follows s ring) {ult : Ult} (hlive : s.lib.state ult ≠ .free) :
    ∃ name ∈ ring.names, s.lib.id ult = name := by
  obtain ⟨q, hq, hn⟩ := h.named
  have hmem : ult ∈ s.lib.currentUlt :: q := by
    cases hstate : s.lib.state ult with
    | free => exact absurd hstate hlive
    | running => exact hq.eq_current ult hstate ▸ List.mem_cons_self
    | ready => exact List.mem_cons_of_mem _ ((hq.mem_iff ult).mpr hstate)
  have hcontext := List.mem_map_of_mem (f := s.lib.context) hmem
  rw [hn.order] at hcontext
  obtain ⟨name, hname, hc⟩ := List.mem_map.mp hcontext
  exact ⟨name, hname, hn.ids ult name hlive hc.symm⟩

end Follows

/-- **Round robin.**  In every state that a run of operations reaches, the numbers of the current
ULT and of those in the queue, in order, are the names of the ring that has turned with the
operations; `th_create` fails exactly where the ring is full; when as many `th_yield` follow as
there are ULTs the first one runs again; and the number of a ULT that has finished is never that
of a live one again.  `NEXT_ID` is at most one more than the operations so far. -/
theorem ults_take_turns {now : ℤ} {labels : List (Op × Option Switch)} {s : System}
    (hrun : Run System.Step (System.init now) labels s) : ∃ ring : Ring maxUlts,
    ring = (Ring.init (by decide)).run (labels.map fun label => label.1.action) ∧
    (∃ q, Chain s.lib.next s.lib.readyQueueHead q ∧
      (s.lib.currentUlt :: q).map s.lib.id = ring.names.map (Nat.cast : ℕ → ℤ)) ∧
    thGetTid s.lib = ring.current ∧ s.lib.nextId = ring.created ∧
    s.lib.nextId ≤ labels.length + 1 ∧
    (∀ t₁ t₂ switch t, System.Step s (.create t₁ t₂, switch) t →
      (switch = none ↔ ring.names.length = maxUlts)) ∧
    (∀ labels' t, Run System.Step s labels' t →
      (∀ label ∈ labels', ∃ t₁ t₂, label.1 = .yield t₁ t₂) → labels'.length = ring.names.length →
      thGetTid t.lib = thGetTid s.lib) ∧
    (∀ name, ring.Gone name → ∀ labels' t, Run System.Step s labels' t →
      ∀ ult, t.lib.state ult ≠ .free → t.lib.id ult ≠ name) := by
  have h := (follows_init now).run hrun
  obtain ⟨q, hq, hn⟩ := h.named
  refine ⟨_, rfl, ⟨q, hq.rep.chain, ?_⟩, h.thGetTid_eq, ?_, ?_, ?_, ?_, ?_⟩
  · have hids : (s.lib.currentUlt :: q).map s.lib.id
        = (s.lib.currentUlt :: q).map fun ult => (((s.lib.context ult).getD 0 : ℕ) : ℤ) := by
      refine List.map_congr_left fun ult hult => ?_
      have hlive : s.lib.state ult ≠ .free := by
        rcases List.mem_cons.mp hult with rfl | hult
        · simp [hq.running]
        · simp [(hq.mem_iff ult).mp hult]
      obtain ⟨name, -, hc⟩ := h.rooted.contexts.allocated ult hlive
      rw [hc]
      exact hn.ids ult name hlive hc
    have horder := congrArg (List.map fun c : Option ℕ => ((c.getD 0 : ℕ) : ℤ)) hn.order
    rw [hids]
    simpa [Function.comp_def] using horder
  · rw [hn.nextId, h.created]
  · have hbound := Ring.created_run_le (Ring.init (by decide) : Ring maxUlts)
      (labels.map fun label => label.1.action)
    rw [List.length_map, ← h.created] at hbound
    rw [hn.nextId]
    have hone : (Ring.init (by decide) : Ring maxUlts).created = 1 := rfl
    omega
  · intro t₁ t₂ switch t hstep
    exact h.create_fails_iff hstep
  · intro labels' t hrun' hyields hlength
    have hactions : labels'.map (fun label => label.1.action)
        = List.replicate labels'.length .yield := by
      refine List.eq_replicate_iff.mpr ⟨List.length_map .., fun action haction => ?_⟩
      obtain ⟨label, hlabel, rfl⟩ := List.mem_map.mp haction
      obtain ⟨t₁, t₂, hyield⟩ := hyields label hlabel
      rw [hyield]
      rfl
    have hround := h.run hrun'
    rw [hactions, hlength, Ring.run_round] at hround
    rw [hround.thGetTid_eq, h.thGetTid_eq]
  · intro name hgone labels' t hrun' ult hlive heq
    obtain ⟨name', hmem, hid⟩ := (h.run hrun').id_mem hlive
    obtain rfl : name' = name := by exact_mod_cast hid.symm.trans heq
    exact (hgone.run _).2 hmem

/-- The main ULT makes another one, which runs at once under the number 1. -/
theorem ults_take_turns_create : ∃ ring : Ring maxUlts, ring.names = [1, 0] ∧
    thGetTid ((System.init 0).exec (.create 1 2)).2.lib = ring.current := by
  have henabled : (System.init 0).Enabled (.create 1 2) := ⟨rfl, nofun, nofun⟩
  obtain ⟨ring, rfl, -, htid, -⟩ := ults_take_turns (.single (.of_enabled henabled))
  exact ⟨_, by decide, htid⟩

end Threaders.Hilolay
