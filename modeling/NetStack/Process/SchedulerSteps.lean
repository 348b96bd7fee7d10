import NetStack.Process.SchedulerInv

/-!
# Every step keeps the scheduler's invariant

One lemma for each function of `process.c`, and from them `Step.wf` for a step and `wf_of_run` for a run whose
timer interrupts find the kernel `AtRest`.  Interrupts while `main` fills a slot are harmless too: `Steady`
extends the invariant to them, for runs whose interrupts are `Quiet`.
-/

namespace NetStack

namespace Kernel

open Transition

/-! ## Local steps -/

/-- `SIE` and `s0`–`s11` are not part of the invariant. -/
lemma Wf.regs {s : Kernel} (h : Wf s) (b : Bool) (v : ℕ) : Wf { s with sie := b, sregs := v } where
  slot := fun k => (h.slot k).congr rfl ⟨[], (List.append_nil _).symm, by simp⟩ rfl
    (fun _ _ => ⟨rfl, rfl, Iff.rfl, fun _ => rfl⟩) fun hf => hf
  fill := by
    intro r pc rest hfr
    have hfill := h.fill r pc rest hfr
    cases pc <;> exact hfill
  stackInj := h.stackInj
  stackPage := h.stackPage
  freePage := h.freePage
  claimedNodup := h.claimedNodup
  returned := h.returned
  onBoot := h.onBoot
  onPage := h.onPage
  schedSaved := h.schedSaved

/-- **The process on the hart goes on**, with `current_process` set. -/
lemma Wf.goOn {s : Kernel} (h : Wf s) {f : Frame} {rest fs : List Frame} {k : Slot} {u : Unread}
    (hfr : s.frames = f :: rest) (hsome : s.current = some k) (hne : ∀ pc, f ≠ .sched pc)
    (hwin : isWindow f = false) (hfs : ∀ g ∈ fs, Below s.claimed k g)
    (hret : ∀ x ∈ u.returned, ∃ r, s.claimed[x.1]? = some (x.2, r)) : Wf (s.move fs u) := by
  rcases h.activeTop hfr hsome hne with ⟨a, _, _, _, _, _, hflow⟩
  have hplain : Plain s.frames := by
    rw [hfr]
    exact hwin
  exact h.move (noFill_of_plain hplain) (fillOk_of_plain (plain_of_below hfs)) hret
    (notSaved_of_below hfs) (hflow fs hfs)

/-- What `setFrames` leaves alone. -/
def unread (s : Kernel) : Unread := ⟨s.sie, s.sregs, s.returned, s.entryCalls, s.entryDone⟩

/-- The frame of an interrupt that found no current process returns, or another comes. -/
lemma Wf.goIdle {s : Kernel} (h : Wf s) {f : Frame} {rest : List Frame} {b : Bool}
    (hfr : s.frames = f :: rest) (hf : Idle f) (hnone : s.current = none) :
    Wf ({ s with sie := b }.setFrames rest) ∧
      ∀ g, Idle g → Wf ({ s with sie := b }.setFrames (g :: rest)) := by
  rcases h.idleTop hfr hf hnone with ⟨hflow, hplain, hnot, hpush⟩
  have hold : Plain s.frames := by
    rw [hfr]
    cases f with
    | create => exact absurd hf (by simp [Idle])
    | _ => rfl
  refine ⟨?_, ?_⟩
  · exact h.move (u := ⟨b, s.sregs, s.returned, s.entryCalls, s.entryDone⟩) (noFill_of_plain hold)
      (fillOk_of_plain hplain) h.returned hnot hflow
  · intro g hg
    have hgplain : Plain (g :: rest) := by
      cases g with
      | create => exact absurd hg (by simp [Idle])
      | _ => rfl
    refine h.move (u := ⟨b, s.sregs, s.returned, s.entryCalls, s.entryDone⟩) (noFill_of_plain hold)
      (fillOk_of_plain hgplain) h.returned ?_ (hpush g hg)
    intro i rest' heq
    rw [(List.cons.inj heq).1] at hg
    exact absurd hg (by simp [Idle])

/-! ## `yield` -/

/-- **A call of `yield` on top.** -/
lemma Wf.yieldTop {s : Kernel} (h : Wf s) {pc : YieldPc} {p : Option Slot} {rest : List Frame}
    (hfr : s.frames = .yield pc p :: rest) :
    (s.current = none ∧ Idle (.yield pc p)) ∨
      (∃ k, s.current = some k ∧ Below s.claimed k (.yield pc p) ∧ ∀ g ∈ rest, Below s.claimed k g) ∨
      ∃ a k, s.current = none ∧ s.cur = .page a ∧ (s.procs k).stack = some a ∧ s.used k ∧ p = some k ∧
        (∀ g ∈ rest, Below s.claimed k g) ∧
        (pc = .save ∨ pc = .restore ∧ SavedBy a (s.procs k).context (s.lastSaved (.page a)) rest) := by
  cases hcurrent : s.current with
  | some k =>
      rcases h.activeTop hfr hcurrent (by simp) with ⟨a, _, _, _, hf, hrest, _⟩
      rcases hf with hf | hf
      · exact .inr (.inl ⟨k, rfl, hf, hrest⟩)
      · exact absurd hf (by simp [isWindow])
  | none =>
      cases hcur : s.cur with
      | boot =>
          have hflow := h.flowOk.1 hcur
          rw [hfr] at hflow
          rcases hflow.top with ⟨_, hidle, _⟩ | ⟨_, hcore⟩ | ⟨_, hw, _⟩ | ⟨i, hi, _⟩
          · exact .inl ⟨rfl, hidle⟩
          · cases hcore
          · exact absurd hw (by simp [isWindow])
          · exact absurd (hcurrent.symm.trans hi) (by simp)
      | page a =>
          rcases h.onHart hcur with ⟨k, hk, hused, _, hpf⟩
          rw [hfr, hcurrent] at hpf
          rcases hpf.top with ⟨hs, _⟩ | ⟨_, hidle, _⟩ | ⟨_, hf, hrest⟩ | ⟨_, hf, hrest, hsaved⟩
          · exact absurd hs (by simp)
          · exact .inl ⟨rfl, hidle⟩
          · obtain ⟨rfl, rfl⟩ : pc = .save ∧ p = some k := by simpa using hf
            exact .inr (.inr ⟨a, k, rfl, rfl, hk, hused, rfl, hrest, .inl rfl⟩)
          · obtain ⟨rfl, rfl⟩ : pc = .restore ∧ p = some k := by simpa using hf
            exact .inr (.inr ⟨a, k, rfl, rfl, hk, hused, rfl, hrest, .inr ⟨rfl, hsaved⟩⟩)

/-- **`load` on the scheduler's context** goes back into `scheduler`. -/
lemma Wf.load_sched {s : Kernel} (h : Wf s) {a : ℕ} (hcur : s.cur = .page a) :
    ∃ i v, s.stack .boot = [.sched (.restore i), .main false] ∧
      s.load s.schedContext = some { s with
        cur := .boot
        stack := Function.update s.stack .boot [.sched (.clearCurrent i), .main false]
        sregs := v } := by
  rcases (h.onPage a hcur).2 with ⟨i, hi⟩
  rcases (h.schedSaved i _ hi).1 with ⟨v, hv⟩
  refine ⟨i, v, hi, ?_⟩
  simp [load, load.go, hv, hi]

lemma Wf.yieldStep {s s' : Kernel} (h : Wf s) {pc : YieldPc} {p : Option Slot} {rest : List Frame}
    (hfr : s.frames = .yield pc p :: rest) (hs : s.yieldStep rest pc p = some s') : Wf s' := by
  have hplain : Plain s.frames := by
    rw [hfr]
    rfl
  rcases h.yieldTop hfr with ⟨hnone, hidle⟩ | ⟨k, hsome, hf, hrest⟩ |
    ⟨a, k, hnone, hcur, hk, hused, rfl, hrest, rfl | ⟨rfl, hsaved⟩⟩
  · -- an interrupt that finds no current process
    rcases h.goIdle (b := s.sie) hfr hidle hnone with ⟨hpop, hpush⟩
    cases pc with
    | load =>
        simp only [Kernel.yieldStep, hnone, Option.some.injEq] at hs
        subst hs
        exact hpush (.yield .test none) trivial
    | test =>
        cases p with
        | none =>
            simp only [Kernel.yieldStep, Option.some.injEq] at hs
            subst hs
            exact hpop
        | some i => exact absurd hidle (by simp [Idle])
    | _ => exact absurd hidle (by simp [Idle])
  · -- the current process calls `yield`
    have hgo : ∀ fs, (∀ g ∈ fs, Below s.claimed k g) → Wf (s.setFrames fs) := fun fs hfs =>
      h.goOn (u := s.unread) hfr hsome (by simp) rfl hfs h.returned
    rcases h.activeTop hfr hsome (by simp) with ⟨a, hcur, hk, hused, _, _, _⟩
    cases pc with
    | load =>
        simp only [Kernel.yieldStep, hsome, Option.some.injEq] at hs
        subst hs
        exact hgo _ (List.forall_mem_cons.mpr ⟨rfl, hrest⟩)
    | test =>
        have hp : p = some k := hf
        subst hp
        simp only [Kernel.yieldStep, Option.some.injEq] at hs
        subst hs
        exact hgo _ (List.forall_mem_cons.mpr ⟨rfl, hrest⟩)
    | testState =>
        have hp : p = some k := hf
        subst hp
        simp only [Kernel.yieldStep] at hs
        split_ifs at hs
        all_goals
          cases hs
          exact hgo _ (List.forall_mem_cons.mpr ⟨rfl, hrest⟩)
    | setRunnable =>
        have hp : p = some k := hf
        subst hp
        simp only [Kernel.yieldStep, Option.some.injEq] at hs
        subst hs
        have hset : Wf (s.setState k .runnable) := h.setState (noFill_of_plain hplain) hused (by simp)
        exact hset.goOn (u := s.unread) (f := .yield .setRunnable (some k)) hfr hsome (by simp) rfl
          (List.forall_mem_cons.mpr ⟨rfl, hrest⟩) h.returned
    | clearCurrent =>
        have hp : p = some k := hf
        subst hp
        simp only [Kernel.yieldStep, Option.some.injEq] at hs
        subst hs
        have hflow : ProcFlow s.claimed k a (s.procs k).context (s.lastSaved (.page a)) none
            (.yield .save (some k) :: rest) := @ProcFlow.saving _ _ _ _ _ [] rest (by simp) hrest
        have hstep := h.pageStep (p := s.procs k) hcur hk (noFill_of_plain hplain) hused rfl
          (fun _ hd => hd) (by rfl) hflow
        rw [Function.update_eq_self, Function.update_eq_self, ← hcur] at hstep
        exact hstep
    | ret =>
        cases p <;>
        · simp only [Kernel.yieldStep, Option.some.injEq] at hs
          subst hs
          exact hgo rest hrest
    | save => exact absurd hf (by simp [Below])
    | restore => exact absurd hf (by simp [Below])
  · -- the first half of `swtch`
    simp only [Kernel.yieldStep, Option.some.injEq] at hs
    subst hs
    have hlen : s.frames.length = rest.length + 1 := by rw [hfr, List.length_cons]
    have hsaved : SavedBy a (s.context .yield) (some (s.context .yield)) rest := by
      refine ⟨⟨s.sregs, ?_⟩, rfl⟩
      rw [context, hcur, hlen]
    have hflow : ProcFlow s.claimed k a (s.context .yield) (some (s.context .yield)) none
        (.yield .restore (some k) :: rest) := @ProcFlow.saved _ _ _ _ _ [] rest (by simp) hrest hsaved
    have hstep := h.pageStep (p := { s.procs k with context := s.context .yield }) hcur hk
      (noFill_of_plain hplain) hused rfl (fun _ hd => ⟨hd.pid, hd.stack, hd.entry, hd.name, hd.nul⟩) (by rfl)
      hflow
    rw [← hcur, ← hnone] at hstep
    exact hstep
  · -- and the second
    rcases h.load_sched hcur with ⟨i, v, _, hload⟩
    simp only [Kernel.yieldStep, hload, Option.some.injEq] at hs
    subst hs
    exact h.leaveHart hcur hk hnone hfr hrest hsaved

/-! ## `scheduler` -/

/-- **`scheduler` on top**: the hart is on the boot stack. -/
lemma Wf.schedTop {s : Kernel} (h : Wf s) {pc : SchedPc} {rest : List Frame}
    (hfr : s.frames = .sched pc :: rest) :
    s.cur = .boot ∧ rest = [.main false] ∧
      ((s.current = none ∧ BootCore s.claimed s.used [.sched pc, .main false]) ∨
        ∃ i, s.current = some i ∧ s.used i ∧ (pc = .save i ∨ pc = .restore i)) := by
  cases hcur : s.cur with
  | boot =>
      have hflow := h.flowOk.1 hcur
      rw [hfr] at hflow
      rcases hflow.top with ⟨_, hidle, _⟩ | ⟨hnone, hcore⟩ | ⟨_, hw, _⟩ | ⟨i, hsome, hused, hrest, hpc⟩
      · exact absurd hidle (by simp [Idle])
      · cases hcore with
        | sched h₁ h₂ h₃ => exact ⟨rfl, rfl, .inl ⟨hnone, .sched h₁ h₂ h₃⟩⟩
      · exact absurd hw (by simp [isWindow])
      · refine ⟨rfl, hrest, .inr ⟨i, hsome, hused, ?_⟩⟩
        simpa using hpc
  | page a =>
      rcases h.onHart hcur with ⟨k, _, _, _, hpf⟩
      rw [hfr] at hpf
      rcases hpf.top with ⟨_, hf, _⟩ | ⟨_, hidle, _⟩ | ⟨_, hf, _⟩ | ⟨_, hf, _⟩
      · exact absurd hf (by simp [Below, isWindow])
      · exact absurd hidle (by simp [Idle])
      · exact absurd hf (by simp)
      · exact absurd hf (by simp)

/-- A statement of `scheduler` that moves control only. -/
lemma Wf.goSched {s : Kernel} (h : Wf s) {pc : SchedPc} {core : List Frame}
    (hfr : s.frames = [.sched pc, .main false]) (hcur : s.cur = .boot) (hnone : s.current = none)
    (hplain : Plain core) (hcore : BootCore s.claimed s.used core) : Wf (s.setFrames core) := by
  have hold : Plain s.frames := by
    rw [hfr]
    rfl
  have hflow : BootFlow s.claimed s.used none core := .core hcore
  exact h.setFrames hold hplain (notSaved_of_boot hflow) (flowOk_boot hcur (hnone ▸ hflow))

/-- **The process that `scheduler` switches to** is ready, off the hart, and has a stack. -/
lemma Wf.dispatched {s : Kernel} (h : Wf s) {i : Slot} (hcur : s.cur = .boot)
    (hfr : s.frames = [.sched (.restore i), .main false]) (hused : s.used i) :
    ∃ a fs, (s.procs i).stack = some a ∧ (∀ f ∈ fs, Below s.claimed i f) ∧ Plain fs ∧
      (∀ t : Kernel, t.stack = s.stack → t.load (s.procs i).context = some { t with
        cur := .page a
        stack := Function.update t.stack (.page a) fs
        sregs := (s.procs i).context.s }) ∧
      ((fs = [.forkret .test] ∧ s.hasRun i = false ∧ s.lastSaved (.page a) = none ∧
          (s.procs i).context.ra = .forkret ∧ (s.procs i).context.sp = some (.page a, 0) ∧
          s.stack (.page a) = []) ∨
        ∃ rest, fs = .yield .ret (some i) :: rest ∧ s.hasRun i = true ∧
          s.lastSaved (.page a) = some (s.procs i).context ∧
          s.stack (.page a) = .yield .restore (some i) :: rest) := by
  cases h.slot i with
  | unused hun => exact absurd hun hused
  | filling hf =>
      rcases hf with ⟨r, id, n, a, rest, h'⟩
      exact absurd (hfr.symm.trans h') (by simp)
  | @ready a r _ _ hdesc hwhere =>
      cases hwhere with
      | fresh _ hstack hra hsp hlast hrun =>
          refine ⟨a, [.forkret .test], hdesc.stack, by simp [Below], rfl, ?_,
            .inl ⟨rfl, hrun, hlast, hra, hsp, hstack⟩⟩
          intro t ht
          simp [load, load.go, hra, hsp]
      | @parked rest _ hstack hrest hsaved hrun =>
          refine ⟨a, .yield .ret (some i) :: rest, hdesc.stack, ?_, rfl, ?_,
            .inr ⟨rest, rfl, hrun, hsaved.2, hstack⟩⟩
          · exact List.forall_mem_cons.mpr ⟨trivial, hrest⟩
          · intro t ht
            rcases hsaved.1 with ⟨v, hv⟩
            simp [load, load.go, hv, ht, hstack]
      | onHart hpage => exact absurd (hcur.symm.trans hpage) (by simp)

lemma Wf.schedStep {s s' : Kernel} (h : Wf s) {pc : SchedPc} {rest : List Frame}
    (hfr : s.frames = .sched pc :: rest) (hs : s.schedStep rest pc = some s') : Wf s' := by
  have hplain : Plain s.frames := by
    rw [hfr]
    rfl
  rcases h.schedTop hfr with ⟨hcur, rfl, ⟨hnone, hcore⟩ | ⟨i, hsome, hused, rfl | rfl⟩⟩
  · -- between dispatches
    have hgo : ∀ core, Plain core → BootCore s.claimed s.used core → Wf (s.setFrames core) :=
      fun core hp hc => h.goSched hfr hcur hnone hp hc
    have hlocal : ∀ pc', (∀ i, pc' ≠ .save i) → (∀ i, pc' ≠ .restore i) →
        (∀ i, pc' = .setRunning i ∨ pc' = .setCurrent i → s.used i) →
        Wf (s.setFrames [.sched pc', .main false]) :=
      fun pc' h₁ h₂ h₃ => hgo _ rfl (.sched h₁ h₂ h₃)
    cases hcore with
    | sched hsave hrestore hused =>
        cases pc with
        | start =>
            simp only [Kernel.schedStep, Option.some.injEq] at hs
            subst hs
            exact hlocal _ (by simp) (by simp) (by simp)
        | loop i found =>
            simp only [Kernel.schedStep] at hs
            split_ifs at hs
            all_goals
              cases hs
              exact hlocal _ (by simp) (by simp) (by simp)
        | testState i found =>
            simp only [Kernel.schedStep] at hs
            split_ifs at hs with hrun
            · cases hs
              refine hlocal _ (by simp) (by simp) ?_
              rintro j (hj | hj)
              · rw [← SchedPc.setRunning.inj hj, used, hrun]
                simp
              · exact absurd hj (by simp)
            · cases hs
              exact hlocal _ (by simp) (by simp) (by simp)
        | setRunning i =>
            simp only [Kernel.schedStep, Option.some.injEq] at hs
            subst hs
            have hset : Wf (s.setState i .running) :=
              h.setState (noFill_of_plain hplain) (hused i (.inl rfl)) (by simp)
            refine hset.goSched hfr hcur hnone rfl (.sched (by simp) (by simp) ?_)
            rintro j (hj | hj)
            · exact absurd hj (by simp)
            · rw [← SchedPc.setCurrent.inj hj, used]
              simp [Kernel.setState, setProc]
        | setCurrent i =>
            simp only [Kernel.schedStep, Option.some.injEq] at hs
            subst hs
            have hflow : BootFlow s.claimed s.used (some i) [.sched (.save i), .main false] :=
              .saving (hused i (.inr rfl))
            have hstep := @Wf.bootStep s h _ s.schedContext (s.lastSaved .boot) _ hcur
              (noFill_of_plain hplain) (by rfl) hflow (by simp)
            rw [Function.update_eq_self, ← hcur] at hstep
            exact hstep
        | save i => exact absurd rfl (hsave i)
        | restore i => exact absurd rfl (hrestore i)
        | clearCurrent i =>
            simp only [Kernel.schedStep, Option.some.injEq] at hs
            subst hs
            have hset : s.setCurrent none = s := by rw [setCurrent, ← hnone]
            rw [hset]
            exact hlocal _ (by simp) (by simp) (by simp)
        | setFound i =>
            simp only [Kernel.schedStep, Option.some.injEq] at hs
            subst hs
            exact hlocal _ (by simp) (by simp) (by simp)
        | testFound found =>
            simp only [Kernel.schedStep] at hs
            split_ifs at hs
            all_goals
              cases hs
              exact hlocal _ (by simp) (by simp) (by simp)
        | scan i =>
            simp only [Kernel.schedStep] at hs
            split_ifs at hs
            all_goals
              cases hs
              exact hlocal _ (by simp) (by simp) (by simp)
        | testActive i =>
            simp only [Kernel.schedStep] at hs
            split_ifs at hs
            all_goals
              cases hs
              exact hlocal _ (by simp) (by simp) (by simp)
        | testDone active =>
            simp only [Kernel.schedStep] at hs
            split_ifs at hs
            · cases hs
              exact hlocal _ (by simp) (by simp) (by simp)
            · cases hs
              exact hgo _ rfl (.main true)
        | wfi =>
            simp only [Kernel.schedStep, Option.some.injEq] at hs
            subst hs
            exact hlocal _ (by simp) (by simp) (by simp)
  · -- the first half of `swtch`
    simp only [Kernel.schedStep, Option.some.injEq] at hs
    subst hs
    have hctx : s.context .scheduler = ⟨.scheduler, some (.boot, 2), s.sregs⟩ := by
      rw [context, hcur, hfr]
      rfl
    have hflow : BootFlow s.claimed s.used (some i) [.sched (.restore i), .main false] := .restoring hused
    have hstep := @Wf.bootStep s h _ (s.context .scheduler) (some (s.context .scheduler)) _ hcur
      (noFill_of_plain hplain) (by rfl) hflow (fun _ _ _ => ⟨⟨s.sregs, hctx⟩, rfl⟩)
    rw [← hcur, ← hsome] at hstep
    exact hstep
  · -- and the second
    rcases h.dispatched hcur hfr hused with ⟨a, fs, hstack, hbelow, hfs, hload, _⟩
    simp only [Kernel.schedStep] at hs
    rw [hload _ (by rfl)] at hs
    cases hs
    exact h.enterHart hcur hfr hstack hsome hbelow hfs

/-! ## `forkret` -/

/-- **`forkret` on top**: its process is the current one. -/
lemma Wf.forkretTop {s : Kernel} (h : Wf s) {pc : ForkretPc} {rest : List Frame}
    (hfr : s.frames = .forkret pc :: rest) : ∃ k, s.current = some k := by
  cases hcurrent : s.current with
  | some k => exact ⟨k, rfl⟩
  | none =>
      have hflow := h.flowOk
      rw [hfr, FlowOk, hcurrent] at hflow
      cases hcur : s.cur with
      | boot =>
          rcases (hflow.1 hcur).top with ⟨_, hidle, _⟩ | ⟨_, hcore⟩ | ⟨_, hw, _⟩ | ⟨i, hi, _⟩
          · exact absurd hidle (by simp [Idle])
          · cases hcore
          · exact absurd hw (by simp [isWindow])
          · exact absurd hi (by simp)
      | page a =>
          rcases (h.onPage a hcur).1 with ⟨k, hk⟩
          rcases (hflow.2 a k hcur hk).top with ⟨hs, _⟩ | ⟨_, hidle, _⟩ | ⟨_, hf, _⟩ | ⟨_, hf, _⟩
          · exact absurd hs (by simp)
          · exact absurd hidle (by simp [Idle])
          · exact absurd hf (by simp)
          · exact absurd hf (by simp)

lemma Wf.forkretStep {s s' : Kernel} (h : Wf s) {pc : ForkretPc} {rest : List Frame}
    (hfr : s.frames = .forkret pc :: rest) (hs : s.forkretStep rest pc = some s') : Wf s' := by
  have hplain : Plain s.frames := by
    rw [hfr]
    rfl
  rcases h.forkretTop hfr with ⟨k, hsome⟩
  rcases h.activeTop hfr hsome (by simp) with ⟨a, hcur, hk, hused, _, hrest, _⟩
  have hgo : ∀ (fs : List Frame) (u : Unread), u.returned = s.returned →
      (∀ g ∈ fs, Below s.claimed k g) → Wf (s.move fs u) := fun fs u hu hfs =>
    h.goOn hfr hsome (by simp) rfl hfs (hu ▸ h.returned)
  have hcons : ∀ pc', ∀ g ∈ Frame.forkret pc' :: rest, Below s.claimed k g :=
    fun pc' => List.forall_mem_cons.mpr ⟨trivial, hrest⟩
  cases pc with
  | test =>
      have hdone : ∀ d, Wf ({ s with entryDone := d }.setFrames (.forkret .testCurrent :: rest)) :=
        fun d => hgo _ ⟨s.sie, s.sregs, s.returned, s.entryCalls, d⟩ rfl (hcons _)
      simp only [Kernel.forkretStep] at hs
      split at hs
      · split_ifs at hs
        · cases hs
          exact hgo _ s.unread rfl (hcons _)
        · cases hs
          exact hdone _
      · cases hs
        exact hdone _
  | call =>
      have hcall : ∀ c, Wf ({ s with entryCalls := c }.setFrames (.entry :: .forkret .inEntry :: rest)) :=
        fun c => hgo _ ⟨s.sie, s.sregs, s.returned, c, s.entryDone⟩ rfl
          (List.forall_mem_cons.mpr ⟨trivial, hcons _⟩)
      simp only [Kernel.forkretStep] at hs
      split at hs
      · split_ifs at hs
        cases hs
        exact hcall _
      · exact absurd hs (by simp)
  | inEntry => exact absurd hs (by simp [Kernel.forkretStep])
  | testCurrent =>
      simp only [Kernel.forkretStep, hsome, Option.isSome_some, if_true, Option.some.injEq] at hs
      subst hs
      exact hgo _ s.unread rfl (hcons _)
  | setZombie =>
      simp only [Kernel.forkretStep, hsome, Option.some.injEq] at hs
      subst hs
      have hset : Wf (s.setState k .zombie) := h.setState (noFill_of_plain hplain) hused (by simp)
      exact hset.goOn (u := s.unread) (f := .forkret .setZombie) hfr hsome (by simp) rfl (hcons _)
        h.returned
  | callYield =>
      simp only [Kernel.forkretStep, Option.some.injEq] at hs
      subst hs
      exact hgo _ s.unread rfl (List.forall_mem_cons.mpr ⟨trivial, hcons _⟩)
  | spin =>
      simp only [Kernel.forkretStep, Option.some.injEq] at hs
      exact hs ▸ h

/-! ## `proc_create` -/

lemma Wf.createStep {s s' : Kernel} (h : Wf s) {r : Request} {pc : CreatePc} {rest : List Frame}
    (hfr : s.frames = .create r pc :: rest) (hs : s.createStep rest r pc = some s') : Wf s' := by
  rcases h.createTop hfr with ⟨hpc, hflow, hpop, hnot, hplain⟩
  have hbelow : ∀ pc', (∀ k, Below s.claimed k (.create r pc')) → isWindow (.create r pc) = false →
      Wf (s.setFrames (.create r pc' :: rest)) := by
    intro pc' hpc' hwin
    have hold : Plain s.frames := by
      rw [hfr]
      exact hwin
    have hnew : Plain (.create r pc' :: rest) :=
      @plain_of_below s.claimed 0 [.create r pc'] (by simpa using hpc' 0)
    exact h.setFrames hold hnew (by simp) (hflow s.claimed pc' ⟨[], (List.append_nil _).symm⟩ (.inl hpc'))
  cases pc with
  | scan i =>
      have hold : Plain s.frames := by
        rw [hfr]
        rfl
      simp only [Kernel.createStep] at hs
      split_ifs at hs
      · cases hs
        exact hbelow _ (fun _ => trivial) rfl
      · cases hs
        exact h.setFrames hold hplain hnot hpop
  | testState i =>
      have hold : Plain s.frames := by
        rw [hfr]
        rfl
      simp only [Kernel.createStep] at hs
      split_ifs at hs with hun
      · cases hs
        refine h.move (u := s.unread) (noFill_of_plain hold) ?_ h.returned (by simp)
          (hflow s.claimed _ ⟨[], (List.append_nil _).symm⟩ (.inr rfl))
        intro r' pc' rest' heq
        obtain ⟨⟨rfl, rfl⟩, rfl⟩ : (r = r' ∧ .alloc i = pc') ∧ rest = rest' := by simpa using heq
        exact hun
      · cases hs
        exact hbelow _ (fun _ => trivial) rfl
  | alloc k => exact absurd hs (by simp [Kernel.createStep])
  | fill id n k a =>
      simp only [Kernel.createStep] at hs
      split at hs
      · rename_i f hf
        cases hs
        exact h.filled hfr hf
      · exact absurd hs (by simp)
  | done id k =>
      have hold : Plain s.frames := by
        rw [hfr]
        rfl
      have hclaimed : s.claimed[id]? = some (k, r) := by
        rcases hpc with hpc | hpc
        · exact absurd hpc (by simp [isWindow])
        · exact hpc k
      simp only [Kernel.createStep, Option.some.injEq] at hs
      subst hs
      refine h.move (u := ⟨s.sie, s.sregs, (id, k) :: s.returned, s.entryCalls, s.entryDone⟩)
        (noFill_of_plain hold) (fillOk_of_plain hplain) ?_ hnot hpop
      intro x hx
      rcases List.mem_cons.mp hx with rfl | hx
      · exact ⟨r, hclaimed⟩
      · exact h.returned x hx

/-! ## Steps and runs -/

/-- A trap handler returns. -/
lemma Wf.trapReturns {s : Kernel} (h : Wf s) {b : Bool} {rest : List Frame}
    (hfr : s.frames = .trap b :: rest) : Wf ({ s with sie := b }.setFrames rest) := by
  rcases Option.eq_none_or_eq_some s.current with hnone | ⟨k, hsome⟩
  · exact (h.goIdle hfr trivial hnone).1
  · rcases h.activeTop hfr hsome (by simp) with ⟨_, _, _, _, _, hrest, _⟩
    exact h.goOn (u := ⟨b, s.sregs, s.returned, s.entryCalls, s.entryDone⟩) hfr hsome (by simp) rfl
      hrest h.returned

/-- The frames of process code and of `main`. -/
lemma Wf.callerTop {s : Kernel} (h : Wf s) {f : Frame} {rest : List Frame} (hfr : s.frames = f :: rest)
    (hf : f = .entry ∨ ∃ b, f = .main b) :
    (∃ k, f = .entry ∧ s.current = some k ∧ ∀ g ∈ rest, Below s.claimed k g) ∨
      (∃ b, f = .main b ∧ rest = [] ∧ s.cur = .boot ∧ s.current = none) := by
  have hflow := h.flowOk
  rw [hfr] at hflow
  cases hcur : s.cur with
  | boot =>
      rcases (hflow.1 hcur).top with ⟨_, hidle, _⟩ | ⟨hnone, hcore⟩ | ⟨_, hw, _⟩ | ⟨i, _, _, _, hi⟩
      · rcases hf with rfl | ⟨b, rfl⟩ <;> exact absurd hidle (by simp [Idle])
      · cases hcore with
        | main b => exact .inr ⟨b, rfl, rfl, rfl, hnone⟩
        | create => exact absurd hf (by simp)
        | sched => exact absurd hf (by simp)
      · rcases hf with rfl | ⟨b, rfl⟩ <;> exact absurd hw (by simp [isWindow])
      · rcases hf with rfl | ⟨b, rfl⟩ <;> exact absurd hi (by simp)
  | page a =>
      rcases (h.onPage a hcur).1 with ⟨k, hk⟩
      rcases (hflow.2 a k hcur hk).top with ⟨hs, hb, hrest⟩ | ⟨_, hidle, _⟩ | ⟨_, rfl, _⟩ | ⟨_, rfl, _⟩
      · rcases hf with rfl | ⟨b, rfl⟩
        · exact .inl ⟨k, rfl, hs, hrest⟩
        · exact absurd hb (by simp [Below, isWindow])
      · rcases hf with rfl | ⟨b, rfl⟩ <;> exact absurd hidle (by simp [Idle])
      · exact absurd hf (by simp)
      · exact absurd hf (by simp)

/-- **The next statement** of whatever is on top. -/
lemma Wf.statement {s s' : Kernel} (h : Wf s) (hs : s.statement s.frames = some s') : Wf s' := by
  cases hfr : s.frames with
  | nil =>
      rw [hfr] at hs
      exact absurd hs (by simp [Kernel.statement])
  | cons f rest =>
      have hself : s.setFrames s.frames = s := by
        rw [Kernel.setFrames, frames, Function.update_eq_self]
      rw [hfr] at hs hself
      cases f with
      | main b =>
          simp only [Kernel.statement, Option.some.injEq] at hs
          rw [← hs, hself]
          exact h
      | sched pc => exact h.schedStep hfr hs
      | forkret pc => exact h.forkretStep hfr hs
      | entry =>
          simp only [Kernel.statement, Option.some.injEq] at hs
          rw [← hs, hself]
          exact h
      | yield pc p => exact h.yieldStep hfr hs
      | trap b =>
          simp only [Kernel.statement, Option.some.injEq] at hs
          subst hs
          exact h.trapReturns hfr
      | create r pc => exact h.createStep hfr hs

/-- An interrupt finds the kernel at rest: `proc_create` is not filling a slot, and `scheduler` has not
set `current_process` for the process it is about to switch to. -/
def AtRest (s : Kernel) : Prop := (s.cur = .boot → s.current = none) ∧ ¬ inWindow s

lemma AtRest.plain {s : Kernel} (h : AtRest s) : Plain s.frames := by
  cases hfr : s.frames with
  | nil => trivial
  | cons f rest =>
      cases hw : isWindow f with
      | false => exact hw
      | true => exact absurd ⟨f, rest, hfr, hw⟩ h.2

/-- **A timer interrupt.** -/
lemma Wf.interrupted {s : Kernel} (h : Wf s) (hq : AtRest s) :
    Wf ({ s with sie := false }.setFrames (.yield .load none :: .trap s.sie :: s.frames)) := by
  have hidle : ∀ rest, Plain (.yield .load none :: .trap s.sie :: rest) := fun _ => rfl
  refine h.move (u := ⟨false, s.sregs, s.returned, s.entryCalls, s.entryDone⟩) (noFill_of_plain hq.plain)
    (fillOk_of_plain (hidle _)) h.returned (by simp) ?_
  cases hcur : s.cur with
  | boot =>
      have hflow := h.flowOk.1 hcur
      rw [hq.1 hcur] at hflow
      refine flowOk_boot hcur ?_
      rw [hq.1 hcur]
      exact (hflow.push hq.plain (f := .trap s.sie) trivial).push rfl trivial
  | page a =>
      rcases h.onHart hcur with ⟨k, hk, _, _, hpf⟩
      refine h.flowOk_page hcur hk ?_
      cases hcurrent : s.current with
      | none =>
          rw [hcurrent] at hpf
          exact (hpf.push (f := .trap s.sie) trivial).push trivial
      | some j =>
          rw [hcurrent] at hpf
          have hall : j = k ∧ ∀ g ∈ s.frames, Below s.claimed k g := by
            have hplain := hq.plain
            generalize s.frames = fs at hpf hplain
            cases hpf with
            | active hall => exact ⟨rfl, hall⟩
            | window hw => exact absurd (hw.symm.trans hplain) (by simp)
          rw [hall.1]
          exact .active (List.forall_mem_cons.mpr ⟨trivial, List.forall_mem_cons.mpr ⟨trivial, hall.2⟩⟩)

/-- **One step keeps the invariant.** -/
theorem Step.wf {s s' : Kernel} {a : Act} (hs : Step AtRest s a s') (h : Wf s) : Wf s' := by
  rcases hs with ⟨hs, hq⟩
  cases a with
  | step v => exact (h.regs s.sie v).statement hs
  | alloc o =>
      simp only [Kernel.step] at hs
      split at hs
      · rename_i r k rest hfr
        cases o with
        | none =>
            simp only [allocStep, Option.some.injEq] at hs
            subst hs
            rcases h.createTop hfr with ⟨_, _, hpop, hnot, hplain⟩
            have hfill : NoFill s := by
              intro r' id n j b rest' h'
              exact absurd (hfr.symm.trans h') (by simp)
            exact h.move (u := s.unread) hfill (fillOk_of_plain hplain) h.returned hnot hpop
        | some a =>
            simp only [allocStep] at hs
            split_ifs at hs with ha
            cases hs
            exact h.allocated hfr ha
      · exact absurd hs (by simp)
  | callYield =>
      simp only [Kernel.step] at hs
      split at hs
      · rename_i rest hfr
        cases hs
        rcases h.callerTop hfr (.inl rfl) with ⟨k, _, hsome, hrest⟩ | ⟨b, hb, _⟩
        · exact h.goOn (u := s.unread) hfr hsome (by simp) rfl
            (List.forall_mem_cons.mpr ⟨trivial, List.forall_mem_cons.mpr ⟨trivial, hrest⟩⟩) h.returned
        · exact absurd hb (by simp)
      · exact absurd hs (by simp)
  | callCreate r =>
      simp only [Kernel.step] at hs
      split at hs
      · rename_i rest hfr
        cases hs
        rcases h.callerTop hfr (.inl rfl) with ⟨k, _, hsome, hrest⟩ | ⟨b, hb, _⟩
        · exact h.goOn (u := s.unread) hfr hsome (by simp) rfl
            (List.forall_mem_cons.mpr ⟨trivial, List.forall_mem_cons.mpr ⟨trivial, hrest⟩⟩) h.returned
        · exact absurd hb (by simp)
      · rename_i rest hfr
        cases hs
        rcases h.callerTop hfr (.inr ⟨false, rfl⟩) with ⟨_, hb, _⟩ | ⟨_, _, rfl, hcur, hnone⟩
        · exact absurd hb (by simp)
        · have hold : Plain s.frames := by
            rw [hfr]
            rfl
          refine h.setFrames hold rfl (by simp) (flowOk_boot hcur ?_)
          rw [hnone]
          exact .core (.create fun _ => trivial)
      · exact absurd hs (by simp)
  | setSie b =>
      simp only [Kernel.step] at hs
      split at hs
      · rename_i rest hfr
        cases hs
        rcases h.callerTop hfr (.inl rfl) with ⟨k, _, hsome, hrest⟩ | ⟨b, hb, _⟩
        · have hfs : ∀ g ∈ Frame.entry :: rest, Below s.claimed k g :=
            List.forall_mem_cons.mpr ⟨trivial, hrest⟩
          have hstep := h.goOn (u := ⟨b, s.sregs, s.returned, s.entryCalls, s.entryDone⟩) hfr hsome (by simp)
            rfl hfs h.returned
          rw [Kernel.move, ← hfr, frames, Function.update_eq_self] at hstep
          exact hstep
        · exact absurd hb (by simp)
      · exact absurd hs (by simp)
  | entryReturns =>
      simp only [Kernel.step] at hs
      split at hs
      · rename_i rest hfr
        cases hs
        rcases h.callerTop hfr (.inl rfl) with ⟨k, _, hsome, hrest⟩ | ⟨b, hb, _⟩
        · have hrest' : ∀ g ∈ rest, Below s.claimed k g := fun g hg => hrest g (List.mem_cons_of_mem _ hg)
          have hfs : ∀ g ∈ Frame.forkret .testCurrent :: rest, Below s.claimed k g :=
            List.forall_mem_cons.mpr ⟨trivial, hrest'⟩
          exact h.goOn (u := ⟨s.sie, s.sregs, s.returned, s.entryCalls, _⟩) hfr hsome (by simp) rfl hfs
            h.returned
        · exact absurd hb (by simp)
      · exact absurd hs (by simp)
  | callScheduler =>
      simp only [Kernel.step] at hs
      split at hs
      · rename_i rest hfr
        cases hs
        rcases h.callerTop hfr (.inr ⟨false, rfl⟩) with ⟨_, hb, _⟩ | ⟨_, _, rfl, hcur, hnone⟩
        · exact absurd hb (by simp)
        · have hold : Plain s.frames := by
            rw [hfr]
            rfl
          refine h.setFrames hold rfl (by simp) (flowOk_boot hcur ?_)
          rw [hnone]
          exact .core (.sched (by simp) (by simp) (by simp))
      · exact absurd hs (by simp)
  | interrupt =>
      simp only [Kernel.step] at hs
      split_ifs at hs
      cases hs
      exact h.interrupted (hq rfl)

/-- `main` starts with an empty table. -/
lemma boot_wf (sie : Bool) : Wf (boot sie) where
  slot := fun k => .unused rfl rfl (by simp [boot])
  fill := by
    intro r pc rest hfr
    exact absurd hfr (by simp [frames, boot])
  stackInj := by simp [boot]
  stackPage := by simp [boot]
  freePage := by simp [boot]
  claimedNodup := by simp [boot]
  returned := by simp [boot]
  onBoot := fun _ => .core (.main false)
  onPage := by simp [boot]
  schedSaved := by simp [boot]

/-- **A run keeps the invariant**, if its interrupts find the kernel at rest. -/
theorem wf_of_run {sie : Bool} {ls : List Act} {s : Kernel} (h : Run (Step AtRest) (boot sie) ls s) : Wf s :=
  h.invariant (fun _ _ _ hs hwf => hs.wf hwf) (boot_wf sie)

/-! ## Interrupts in `main`

While `main` itself runs `proc_create`, an interrupt finds `current_process == NULL` and returns: it is harmless
also where it would not be on a process's stack. -/

/-- Where a timer interrupt is harmless: not between `current_process = p` and the switch to `p`, and not
while a process, having found a free slot in `proc_create`, has not finished filling it. -/
def Quiet (s : Kernel) : Prop := (s.cur = .boot → s.current = none) ∧ (inWindow s → s.cur = .boot)

/-- **What can happen with an idle frame on top**: it goes on, returns, or is interrupted. -/
lemma step_idle {s s' : Kernel} {a : Act} {f : Frame} {rest : List Frame} (hs : s.step a = some s')
    (hfr : s.frames = f :: rest) (hf : Idle f) (hnone : s.current = none) :
    ∃ b v ints, (∀ g ∈ ints, Idle g) ∧
      s' = { s with sie := b, sregs := v }.setFrames (ints ++ rest) := by
  -- no call, and no `mem_alloc`, returns into an idle frame
  have hother : ∀ {o : Option Kernel}, o = none → o = some s' → False := by
    rintro o rfl ho
    exact absurd ho (by simp)
  cases f with
  | trap b =>
      cases a with
      | step v =>
          simp only [Kernel.step, hfr, Kernel.statement, Option.some.injEq] at hs
          exact ⟨b, v, [], by simp, hs.symm⟩
      | interrupt =>
          simp only [Kernel.step, hfr] at hs
          split_ifs at hs
          exact ⟨false, s.sregs, [.yield .load none, .trap s.sie, .trap b], by simp [Idle],
            (Option.some.inj hs).symm⟩
      | _ => exact (hother (by simp only [Kernel.step, hfr]) hs).elim
  | yield pc p =>
      cases a with
      | step v =>
          simp only [Kernel.step, hfr, Kernel.statement] at hs
          cases pc with
          | load =>
              simp only [Kernel.yieldStep, Option.some.injEq] at hs
              refine ⟨s.sie, v, [.yield .test none], by simp [Idle], ?_⟩
              rw [← hs, hnone]
              rfl
          | test =>
              cases p with
              | some i => exact absurd hf (by simp [Idle])
              | none =>
                  simp only [Kernel.yieldStep, Option.some.injEq] at hs
                  exact ⟨s.sie, v, [], by simp, hs.symm⟩
          | _ => exact absurd hf (by simp [Idle])
      | interrupt =>
          simp only [Kernel.step, hfr] at hs
          split_ifs at hs
          refine ⟨false, s.sregs, [.yield .load none, .trap s.sie, .yield pc p], ?_,
            (Option.some.inj hs).symm⟩
          exact List.forall_mem_cons.mpr ⟨trivial, List.forall_mem_cons.mpr ⟨trivial, by simpa using hf⟩⟩
      | _ => exact (hother (by simp only [Kernel.step, hfr]) hs).elim
  | _ => exact absurd hf (by simp [Idle])

end Kernel

end NetStack
