import Threaders.Hilolay.Sequential

/-!
# Statements and operations

Without a signal in between the statements of the library, they and its operations are the same
thing: every run of one is a run of the other, with the same calls of `swapcontext` in the same
order, and the library is the same wherever a ULT executes its own code.  A signal there is a
`th_yield`.

## Main definitions

* `QuietStep` — a call or a statement, with the switch that it makes.
* `OwnStep` — one of them, or a signal in own code.
* `Quiet` — a run of calls and statements.
* `Carries` — the statements carry out an operation.
-/

namespace Threaders.Hilolay

open Lib

namespace Machine

/-! ## Runs without signals in the library -/

/-- A step that is not a signal, with the switch that it makes. -/
inductive QuietStep (m : Machine) : Label × Option Switch → Machine → Prop
  | call {op : Call} {m' : Machine} (h : m.Step (.call op) m') : QuietStep m (.call op, none) m'
  | stmt {time : ℤ} {m' : Machine} (h : m.Step (.stmt time) m') :
      QuietStep m (.stmt time, m.switch) m'

/-- A step that is not a signal, or one that comes while a ULT executes its own code. -/
inductive OwnStep (m : Machine) : Label × Option Switch → Machine → Prop
  | quiet {label : Label × Option Switch} {m' : Machine} (h : m.QuietStep label m') :
      OwnStep m label m'
  | signal {m' : Machine} (hframes : m.running.frames = [.own]) (h : m.Step .signal m') :
      OwnStep m (.signal, none) m'

theorem Simulates.quietStep {m m' : Machine} {s : System} {label : Label × Option Switch}
    (h : m.Simulates s) (hstep : m.QuietStep label m') : Completes s label.2 m' := by
  cases hstep with
  | call hstep => exact .stay (h.call hstep)
  | stmt hstep => exact h.stmt hstep

theorem Simulates.ownStep {m m' : Machine} {s : System} {label : Label × Option Switch}
    (h : m.Simulates s) (hstep : m.OwnStep label m') : Completes s label.2 m' := by
  cases hstep with
  | quiet hstep => exact h.quietStep hstep
  | signal hframes hstep => exact .stay (h.signal hframes hstep)

theorem simulates_of_run {now : ℤ} {labels : List (Label × Option Switch)} {m : Machine}
    (hrun : Run OwnStep (Machine.init now) labels m) : ∃ ops s,
      Run System.Step (System.init now) ops s ∧
        ops.filterMap Prod.snd = labels.filterMap Prod.snd ∧ m.Simulates s :=
  hrun.weakSimulation (fun _ _ _ _ h hstep => h.ownStep hstep) (.rest (rests_init now))

/-! ## Every operation can be executed -/

/-- Calls and statements lead from one machine to the other, with these switches. -/
def Quiet (m : Machine) (switches : List Switch) (m' : Machine) : Prop :=
  ∃ labels, Run QuietStep m labels m' ∧ labels.filterMap Prod.snd = switches

namespace Quiet

variable {m m' m'' : Machine} {xs ys : List Switch} {f : Frame} {k : List Frame} {time : ℤ}
  {lib : Globals} {ult : Ult} {point : EnqueueAt} {caller : Caller}

theorem refl (m : Machine) : Quiet m [] m := ⟨[], .nil m, rfl⟩

theorem trans (h : Quiet m xs m') (h' : Quiet m' ys m'') : Quiet m (xs ++ ys) m'' := by
  obtain ⟨labels, hrun, rfl⟩ := h
  obtain ⟨labels', hrun', rfl⟩ := h'
  exact ⟨labels ++ labels', hrun.append hrun', List.filterMap_append⟩

/-- A statement that makes no switch, and what follows. -/
theorem stmt (time : ℤ) (hframes : m.running.frames = f :: k) (hf : f.switch = none)
    (hexec : m.exec time k f = some m') (h : Quiet m' xs m'') : Quiet m xs m'' := by
  obtain ⟨labels, hrun, rfl⟩ := h
  have hstep : m.QuietStep (.stmt time, m.switch) m' := .stmt (step_of_exec hframes hexec)
  refine ⟨_, .cons hstep hrun, ?_⟩
  rw [switch_eq hframes, hf]
  rfl

theorem call {op : Call} (h : m.step (.call op) = some m') : Quiet m [] m' :=
  ⟨_, .single (.call h), rfl⟩

theorem swap {old new : ℕ} (hframes : m.running.frames = .yieldSwap (some old) (some new) :: k) :
    Quiet m [⟨some old, some new⟩] (m.swapcontext old new k) := by
  have hstep : m.QuietStep (.stmt 0, m.switch) (m.swapcontext old new k) :=
    .stmt (step_of_exec hframes rfl)
  refine ⟨_, .single hstep, ?_⟩
  rw [switch_eq hframes]
  rfl

/-- The statements of `lib_get_next_ult`. -/
theorem next (hframes : m.running.frames = .nextRead :: k) :
    Quiet m [] (m.goto (libGetNextUlt m.lib).2 (.yieldTest (libGetNextUlt m.lib).1 :: k)) := by
  refine stmt 0 hframes rfl rfl ?_
  cases hhead : m.lib.readyQueueHead with
  | none =>
      rw [libGetNextUlt_of_none hhead]
      refine stmt 0 rfl rfl (by simp [exec, goto, hhead]; rfl) ?_
      exact stmt 0 rfl rfl rfl (refl _)
  | some a =>
      rw [libGetNextUlt_of_some hhead]
      refine stmt 0 rfl rfl (by simp [exec, goto, hhead]; rfl) ?_
      refine stmt 0 rfl rfl (by simp [exec, hhead]; rfl) ?_
      exact stmt 0 rfl rfl rfl (refl _)

/-- The statements that `lib_enqueue` has left. -/
theorem enqueue (hframes : m.running.frames = .enqueue point ult caller :: k)
    (htail : point.TailSet m.lib ult) :
    Quiet m [] (m.enqueueReturns (point.complete m.lib ult) ult k caller) := by
  induction hn : point.left using Nat.strong_induction_on generalizing m point with
  | _ n ih =>
      obtain ⟨lib, next, hstmt⟩ := exists_enqueueStmt htail
      refine stmt 0 hframes rfl (by simp only [exec, hstmt, Option.map_some]; rfl) ?_
      cases next with
      | none =>
          rw [eq_complete htail hstmt]
          exact refl _
      | some point' =>
          obtain ⟨hcomplete, htail'⟩ := complete_enqueueStmt hstmt
          have hreturns : ∀ lib' : Globals, m.enqueueReturns lib' ult k caller =
              (m.goto lib (.enqueue point' ult caller :: k)).enqueueReturns lib' ult k caller := by
            intro lib'
            cases caller <;> rfl
          rw [← hcomplete, hreturns]
          exact ih _ (hn ▸ left_enqueueStmt hstmt) rfl htail' rfl

/-- The statements that put the current ULT back. -/
theorem requeue {a : Ult} (hframes : m.running.frames = .yieldRequeue a :: k) :
    Quiet m [] (m.goto (requeueCurrent m.lib) (.yieldSummarize a :: k)) := by
  by_cases hfree : m.lib.state m.lib.currentUlt = .free
  · have hrequeue : requeueCurrent m.lib = m.lib := by simp [requeueCurrent, hfree]
    rw [hrequeue]
    exact stmt 0 hframes rfl (by simp [exec, hfree]) (refl _)
  · refine stmt 0 hframes rfl (by simp [exec, hfree]; rfl) ?_
    have hrequeue : requeueCurrent m.lib = libEnqueue m.lib m.lib.currentUlt := if_pos hfree
    rw [hrequeue]
    have htail : EnqueueAt.ready.TailSet m.lib m.lib.currentUlt := trivial
    exact enqueue (m := m.goto m.lib (.enqueue .ready m.lib.currentUlt (.yield a) :: k)) rfl htail

/-- The statements of a `th_yield` that has selected a ULT, up to the switch. -/
theorem select {a : Ult} (hframes : m.running.frames = .yieldTest (some a) :: k) (t₁ t₂ : ℤ) :
    Quiet m [] (m.goto ((selected m.lib a t₁ t₂).setCurrent a)
      (.yieldSwap ((selected m.lib a t₁ t₂).context (selected m.lib a t₁ t₂).currentUlt)
        ((selected m.lib a t₁ t₂).context a) :: k)) := by
  refine stmt 0 hframes rfl rfl (trans (requeue rfl) ?_)
  refine stmt t₁ rfl rfl rfl (stmt 0 rfl rfl rfl (stmt t₂ rfl rfl rfl ?_))
  exact stmt 0 rfl rfl rfl (stmt 0 rfl rfl rfl (stmt 0 rfl rfl rfl (refl _)))

/-- The loop of `th_create`, from a TCB on up to which all are in use. -/
theorem scan {i : ℕ} (hframes : m.running.frames = .createScan i :: k)
    (hused : ∀ u : Ult, u.val < i → m.lib.state u ≠ .free) :
    Quiet m [] (m.goto m.lib ((firstFree m.lib).elim k fun ult => .createContext ult :: k)) := by
  induction hn : maxUlts - i generalizing m i with
  | zero =>
      have hi : ¬ i < maxUlts := by omega
      rw [firstFree_eq_none fun u => hused u (by omega)]
      exact stmt 0 hframes rfl (by simp [exec, hi]) (refl _)
  | succ n ih =>
      have hi : i < maxUlts := by omega
      by_cases hfree : m.lib.state ⟨i, hi⟩ = .free
      · rw [firstFree_eq_some hfree hused]
        exact stmt 0 hframes rfl (by simp [exec, hi, hfree]) (refl _)
      · refine stmt 0 hframes rfl (by simp [exec, hi, hfree]; rfl) ?_
        refine ih (i := i + 1) rfl (fun u hu => ?_) (by omega)
        rcases Nat.lt_succ_iff_lt_or_eq.mp hu with hlt | heq
        · exact hused u hlt
        · obtain rfl : u = ⟨i, hi⟩ := Fin.ext heq
          exact hfree

end Quiet

/-- The statements carry out the operation, up to the next rest or the exit. -/
def Carries (m : Machine) (s : System) (op : Op) : Prop := ∃ switch t m',
  System.Step s (op, switch) t ∧ Quiet m switch.toList m' ∧ (m'.Rests t ∨ m'.Over t)

section Carries
variable {m m' : Machine} {s : System} {p : Globals} {k : List Frame} {op : Op}

theorem Carries.of_quiet (hquiet : Quiet m [] m') (h : m'.Carries s op) : m.Carries s op := by
  obtain ⟨switch, t, m'', hop, hquiet', hrests⟩ := h
  exact ⟨switch, t, m'', hop, hquiet.trans hquiet', hrests⟩

/-- The statements of a `th_yield` carry out the step of its operation. -/
theorem Within.yield {op : ℤ → ℤ → Op} (h : m.Within s p) (hp : Prepared s p k op)
    (hlib : m.lib = p) (hframes : m.running.frames = .nextRead :: k) (t₁ t₂ : ℤ) :
    m.Carries s (op t₁ t₂) := by
  subst hlib
  have hnext := Quiet.next hframes
  cases hhead : m.lib.readyQueueHead with
  | none =>
      rw [libGetNextUlt_of_none hhead] at hnext
      obtain ⟨t, hop, hrests⟩ := h.returns hp hhead t₁ t₂
      exact ⟨none, t, _, hop, hnext.trans (.stmt 0 rfl rfl rfl (.refl _)), hrests⟩
  | some a =>
      have hyield := thYield_selected (libGetNextUlt_of_some hhead) t₁ t₂
      set lib := selected (m.lib.setHead (m.lib.next a)) a t₁ t₂ with hlib
      rw [libGetNextUlt_of_some hhead] at hnext
      obtain ⟨hold, hnew⟩ := h.switch_ne_none hp hyield
      obtain ⟨old, hold : lib.context lib.currentUlt = some old⟩ :=
        Option.ne_none_iff_exists'.mp hold
      obtain ⟨new, hnew : lib.context a = some new⟩ := Option.ne_none_iff_exists'.mp hnew
      have hselect :
          Quiet m [] (m.goto (lib.setCurrent a) (.yieldSwap (some old) (some new) :: k)) := by
        rw [← hold, ← hnew]
        exact hnext.trans (Quiet.select rfl t₁ t₂)
      rw [hold, hnew] at hyield
      obtain ⟨t, hop, hrests⟩ := (h.goto (lib.setCurrent a) _).switch hp hyield
      exact ⟨_, t, _, hop, hselect.trans (Quiet.swap rfl), .inl hrests⟩

/-- Behind a `th_yield` the ULT comes back to its own code. -/
theorem Rests.own (h : m.Rests s) (hopen : s.draining = true → s.lib.currentUlt ≠ mainUlt) :
    ∃ m', Quiet m [] m' ∧ m'.Rests s ∧ m'.running.frames = [.own] := by
  obtain ⟨h, hlib, hframes⟩ := h
  have hown : (m.goto m.lib [.own]).Rests s := ⟨h.goto .., hlib, .own hopen⟩
  generalize hfs : m.running.frames = fs at hframes
  cases hframes with
  | own => exact ⟨m, .refl m, ⟨h, hlib, hfs ▸ .own hopen⟩, hfs⟩
  | yielded | creates | resumed => exact ⟨_, .stmt 0 hfs rfl rfl (.refl _), hown, rfl⟩
  | created | interrupted =>
      exact ⟨_, .stmt 0 hfs rfl rfl (.stmt 0 rfl rfl rfl (.refl _)), hown, rfl⟩
  | drains hdraining hmain => exact absurd hmain (hopen hdraining)

/-- In its `th_return` the main thread comes back to the loop. -/
theorem Rests.drain (h : m.Rests s) (hdraining : s.draining = true)
    (hmain : s.lib.currentUlt = mainUlt) :
    Quiet m [] (m.goto m.lib [.nextRead, .returnLoop, .own]) := by
  obtain ⟨-, -, hframes⟩ := h
  generalize hfs : m.running.frames = fs at hframes
  cases hframes with
  | own hopen | yielded hopen | created hopen | creates hopen | interrupted hopen
  | resumed hopen => exact absurd hmain (hopen hdraining)
  | drains => exact .stmt 0 hfs rfl rfl (.refl _)

/-- The statements of `th_create` up to its `th_yield`. -/
theorem Within.carries_create (h : m.Within s s.lib) (hlib : m.lib = s.lib)
    (hopen : s.draining = true → s.lib.currentUlt ≠ mainUlt)
    (hframes : m.running.frames = [.createScan 0, .own]) (t₁ t₂ : ℤ) :
    m.Carries s (.create t₁ t₂) := by
  have hscan := Quiet.scan hframes fun u hu => absurd hu (Nat.not_lt_zero _)
  rw [hlib] at hscan
  cases hfirst : firstFree s.lib with
  | none =>
      rw [hfirst] at hscan
      exact ⟨none, s, _, h.create_none hopen hfirst t₁ t₂, hscan,
        .inl ⟨h.goto .., rfl, .own hopen⟩⟩
  | some ult =>
      rw [hfirst] at hscan
      refine .of_quiet hscan (.of_quiet (.stmt 0 rfl rfl rfl (.stmt 0 rfl rfl rfl (.refl _))) ?_)
      set m₁ := ((m.goto s.lib [.createContext ult, .own]).createContext ult [.own]) with hm₁
      have hw : m₁.Within s s.lib := (h.goto ..).createContext rfl _
      have hsaved : m₁.saved s.lib.contexts = ⟨s.lib.contexts, [.own]⟩ := Function.update_self ..
      obtain ⟨hrooted, hstatus, hrunning, hstacks⟩ := hw.created hfirst hsaved
      refine .of_quiet (.enqueue rfl trivial) (.of_quiet (.stmt 0 rfl rfl rfl (.refl _)) ?_)
      refine Within.yield ?_ (.create hopen hfirst) rfl rfl t₁ t₂
      exact ⟨hrooted, hstatus, hrunning, hstacks⟩

/-- The statements of a `th_return` that ends the current ULT, up to its `th_yield`. -/
theorem Within.carries_finish {op : ℤ → ℤ → Op} (h : m.Within s s.lib)
    (hmain : s.lib.currentUlt ≠ mainUlt) (hending : Ending s m.lib op)
    (hframes : m.running.frames = [.returnTest, .own]) (t₁ t₂ : ℤ) : m.Carries s (op t₁ t₂) := by
  have hcur : m.lib.currentUlt ≠ mainUlt := by rwa [hending.currentUlt]
  refine .of_quiet (.stmt 0 hframes rfl (by simp [exec, hcur]; rfl)
    (.stmt 0 rfl rfl rfl (.refl _))) ?_
  obtain ⟨hrooted, hstatus, hrunning, hsaved⟩ := h.finished hending.finished
  refine Within.yield ?_ (.finish hmain hending) rfl rfl t₁ t₂
  exact ⟨hrooted, hstatus, hrunning, hsaved⟩

/-- The call of an operation is made from own code, except by a main thread in `th_return`. -/
theorem Rests.carries_call (h : m.Rests s) (c : Call)
    (hopen : s.draining = true → s.lib.currentUlt ≠ mainUlt)
    (hstop : c = .stop → s.lib.currentUlt ≠ mainUlt)
    (hcarries : ∀ m' : Machine, m'.lib = s.lib → m'.Within s s.lib →
      m'.running.frames = [c.frame, .own] → m'.Carries s op) : m.Carries s op := by
  obtain ⟨m', hquiet, hrests, hfs⟩ := h.own hopen
  have hult : ¬ (c = .stop ∧ m'.running.ult = 0) := fun ⟨hc, hult⟩ =>
    hstop hc (hrests.within.main_of_context hult)
  have hcall : m'.step (.call c) = some (m'.goto m'.lib [c.frame, .own]) := by
    simp [step, hfs, hult]
  exact .of_quiet hquiet (.of_quiet (.call hcall)
    (hcarries _ hrests.lib_eq (hrests.within.goto ..) rfl))

/-- The statements of the current ULT carry out every operation that is open to it. -/
theorem Rests.carries (h : m.Rests s) (henabled : s.Enabled op) : m.Carries s op := by
  obtain ⟨-, hdrain, hstop⟩ := henabled
  have hopen : (∀ t₁ t₂, op ≠ .ret t₁ t₂) → s.draining = true → s.lib.currentUlt ≠ mainUlt :=
    fun hne hd hm => by
      obtain ⟨t₁, t₂, heq⟩ := hdrain hd hm
      exact hne t₁ t₂ heq
  cases op with
  | create t₁ t₂ =>
      have hopen := hopen nofun
      exact h.carries_call .create hopen nofun fun m' hlib hw hfs =>
        hw.carries_create hlib hopen hfs t₁ t₂
  | yield t₁ t₂ =>
      have hopen := hopen nofun
      exact h.carries_call .yield hopen nofun fun m' hlib hw hfs =>
        hw.yield (.yield hopen) hlib hfs t₁ t₂
  | ret t₁ t₂ =>
      by_cases hmain : s.lib.currentUlt = mainUlt
      · by_cases hdraining : s.draining = true
        · have hw := h.within.goto m.lib [.nextRead, .returnLoop, .own]
          exact .of_quiet (h.drain hdraining hmain) (hw.yield (.drain hmain) h.lib_eq rfl t₁ t₂)
        · refine h.carries_call .ret (fun hd => absurd hd hdraining) nofun fun m' hlib hw hfs => ?_
          have hcur : m'.lib.currentUlt = mainUlt := hlib ▸ hmain
          refine .of_quiet (.stmt 0 hfs rfl (by simp [exec, hcur]; rfl) (.refl _)) ?_
          have hw := hw.goto m'.lib [.nextRead, .returnLoop, .own]
          exact hw.yield (.drain hmain) hlib rfl t₁ t₂
      · exact h.carries_call .ret (fun _ => hmain) nofun fun m' hlib hw hfs =>
          hw.carries_finish hmain (hlib ▸ .ret) hfs t₁ t₂
  | stop t₀ t₁ t₂ =>
      have hmain : s.lib.currentUlt ≠ mainUlt := fun hm => hstop hm t₀ t₁ t₂ rfl
      refine h.carries_call .stop (fun _ => hmain) (fun _ => hmain) fun m' hlib hw hfs => ?_
      refine .of_quiet (.stmt t₀ hfs rfl rfl (.refl _)) ?_
      have hw := hw.goto (libSummarizeBurst m'.lib t₀) [.returnTest, .own]
      have hending : Ending s (libSummarizeBurst m'.lib t₀) (.stop t₀) := hlib ▸ .stop hmain t₀
      exact hw.carries_finish hmain hending rfl t₁ t₂

end Carries

/-- A run of the operations is executed by the statements. -/
theorem exists_quiet {m : Machine} {s t : System} {ops : List (Op × Option Switch)}
    (h : m.Rests s ∨ m.Over s) (hrun : Run System.Step s ops t) :
    ∃ m', Quiet m (ops.filterMap Prod.snd) m' ∧ (m'.Rests t ∨ m'.Over t) := by
  induction hrun generalizing m with
  | nil s => exact ⟨m, .refl m, h⟩
  | @cons s t u label ops hstep _ ih =>
      obtain ⟨op, switch⟩ := label
      obtain ⟨henabled, hexec⟩ := hstep
      have hrests : m.Rests s := h.resolve_right fun hover => by
        exact absurd (hover.status.symm.trans henabled.1) (by decide)
      obtain ⟨switch', t', m₁, ⟨-, hexec'⟩, hquiet, hsettled⟩ := hrests.carries henabled
      obtain ⟨rfl, rfl⟩ : switch = switch' ∧ t = t' := by
        simpa using hexec.symm.trans hexec'
      obtain ⟨m', hquiet', hsettled'⟩ := ih hsettled
      refine ⟨m', ?_, hsettled'⟩
      rw [List.filterMap_cons]
      cases switch <;> exact hquiet.trans hquiet'

/-! ## The two levels -/

theorem Rests.settles {m : Machine} {s : System} (h : m.Rests s) : ∃ m', Quiet m [] m' ∧
    m'.lib = s.lib ∧
    ((s.draining = true → s.lib.currentUlt ≠ mainUlt) → m'.running.frames = [.own]) := by
  by_cases hopen : s.draining = true → s.lib.currentUlt ≠ mainUlt
  · obtain ⟨m', hquiet, hrests, hframes⟩ := h.own hopen
    exact ⟨m', hquiet, hrests.lib_eq, fun _ => hframes⟩
  · exact ⟨m, .refl m, h.lib_eq, fun hopen' => absurd hopen' hopen⟩

/-- **Statements and operations.**  As long as a signal comes in own code only, every run of calls,
statements and signals is a run of operations with the same switches, a signal being a
`th_yield`: the library is the same where a ULT executes its own code and where the process has
exited, and nowhere else are the statements stuck.  Every run of operations is one of calls and
statements with the same switches, up to where the current ULT executes its own code or the
process has exited. -/
theorem statements_are_operations (now : ℤ) :
    (∀ labels m, Run OwnStep (Machine.init now) labels m → ∃ ops s,
      Run System.Step (System.init now) ops s ∧
      ops.filterMap Prod.snd = labels.filterMap Prod.snd ∧
      (m.running.frames = [.own] → s.status = .running ∧ m.lib = s.lib) ∧
      (m.running.frames = [] → s.status = .exited ∧ m.lib = s.lib) ∧
      (m.running.frames ≠ [] → (∀ k, m.running.frames ≠ .own :: k) →
        ∀ time, ∃ m', m.Step (.stmt time) m')) ∧
    (∀ ops s, Run System.Step (System.init now) ops s → ∃ labels m,
      Run QuietStep (Machine.init now) labels m ∧
      labels.filterMap Prod.snd = ops.filterMap Prod.snd ∧ m.lib = s.lib ∧ s.status ≠ .aborted ∧
      (s.status = .exited → m.running.frames = []) ∧
      (s.status = .running → (s.draining = true → s.lib.currentUlt ≠ mainUlt) →
        m.running.frames = [.own])) := by
  constructor
  · intro labels m hrun
    obtain ⟨ops, s, hops, hswitches, h⟩ := simulates_of_run hrun
    exact ⟨ops, s, hops, hswitches, h.of_own, h.of_nil, h.exists_stmt⟩
  · intro ops s hops
    obtain ⟨m, hquiet, hrests | hover⟩ := exists_quiet (.inl (rests_init now)) hops
    · obtain ⟨m', hquiet', hlib, hown⟩ := hrests.settles
      obtain ⟨labels, hrun, hswitches⟩ := hquiet.trans hquiet'
      rw [List.append_nil] at hswitches
      have hstatus := hrests.within.status
      exact ⟨labels, m', hrun, hswitches, hlib, by simp [hstatus], by simp [hstatus],
        fun _ => hown⟩
    · obtain ⟨labels, hrun, hswitches⟩ := hquiet
      have hstatus := hover.status
      exact ⟨labels, m, hrun, hswitches, hover.lib_eq, by simp [hstatus], fun _ => hover.frames,
        by simp [hstatus]⟩

end Machine

end Threaders.Hilolay
