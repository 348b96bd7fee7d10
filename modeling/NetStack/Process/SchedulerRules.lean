import NetStack.Process.SchedulerSteps

/-!
# The scheduler as a set of rules

`Does s a s'` lists everything a step can do from a well-formed state, one rule for each kind of
statement: the frame on top before and after, what is written, and the tests that led there.  Branches the
invariant excludes are gone (`forkret` always finds its process in `current_process`, the second half of
`swtch` always finds a suspended call).  `does_of_step` is the inversion lemma; the results about runs go by
cases on the rules.
-/

namespace NetStack

namespace Kernel

/-- The statements of `scheduler` that only move control. -/
inductive SchedNext (s : Kernel) : SchedPc → SchedPc → Prop
  | start : SchedNext s .start (.loop 0 false)
  | loop {i : ℕ} {found : Bool} (h : i < nproc) :
      SchedNext s (.loop i found) (.testState ⟨i, h⟩ found)
  | loopEnd {i : ℕ} {found : Bool} (h : ¬ i < nproc) : SchedNext s (.loop i found) (.testFound found)
  | runnable {i : Slot} {found : Bool} (h : (s.procs i).state = .runnable) :
      SchedNext s (.testState i found) (.setRunning i)
  | skip {i : Slot} {found : Bool} (h : (s.procs i).state ≠ .runnable) :
      SchedNext s (.testState i found) (.loop (i + 1) found)
  | returned {i : Slot} : SchedNext s (.clearCurrent i) (.setFound i)
  | found {i : Slot} : SchedNext s (.setFound i) (.loop (i + 1) true)
  | again : SchedNext s (.testFound true) .start
  | search : SchedNext s (.testFound false) (.scan 0)
  | scan {i : ℕ} (h : i < nproc) : SchedNext s (.scan i) (.testActive ⟨i, h⟩)
  | scanEnd {i : ℕ} (h : ¬ i < nproc) : SchedNext s (.scan i) (.testDone false)
  | active {i : Slot} (h : (s.procs i).state ≠ .unused ∧ (s.procs i).state ≠ .zombie) :
      SchedNext s (.testActive i) (.testDone true)
  | inactive {i : Slot} (h : ¬ ((s.procs i).state ≠ .unused ∧ (s.procs i).state ≠ .zombie)) :
      SchedNext s (.testActive i) (.scan (i + 1))
  | wait : SchedNext s (.testDone true) .wfi
  | wake : SchedNext s .wfi .start

/-- The statements of `yield` that only move control, for the current process `k`. -/
inductive YieldNext (s : Kernel) (k : Slot) : YieldPc → YieldPc → Prop
  | load : YieldNext s k .load .test
  | test : YieldNext s k .test .testState
  | running (h : (s.procs k).state = .running) : YieldNext s k .testState .setRunnable
  | notRunning (h : (s.procs k).state ≠ .running) : YieldNext s k .testState .clearCurrent

/-- The frames a process returns from, or `main`. -/
inductive Returns (s : Kernel) : Frame → Prop
  | yield {k : Slot} (p : Option Slot) (h : s.current = some k) : Returns s (.yield .ret p)
  | createFull {r : Request} {i : ℕ} (h : ¬ i < nproc) : Returns s (.create r (.scan i))
  | createFailed {r : Request} {k : Slot} : Returns s (.create r (.alloc k))

/-- **What a step can do.** -/
inductive Does (s : Kernel) : Act → Kernel → Prop
  /-- process code, `main`, or the loop at the end of `forkret`, does something of its own -/
  | own {f : Frame} {rest : List Frame} {v : ℕ} (hfr : s.frames = f :: rest)
      (hf : f = .entry ∨ (∃ b, f = .main b) ∨ f = .forkret .spin) : Does s (.step v) { s with sregs := v }
  /-- an interrupt that found no current process -/
  | idle {f : Frame} {ints rest : List Frame} {a : Act} {b : Bool} {v : ℕ} (hfr : s.frames = f :: rest)
      (hf : Idle f) (hnone : s.current = none) (hints : ∀ g ∈ ints, Idle g) :
      Does s a ({ s with sie := b, sregs := v }.setFrames (ints ++ rest))
  | yieldNext {k : Slot} {pc pc' : YieldPc} {p : Option Slot} {rest : List Frame} {v : ℕ}
      (hfr : s.frames = .yield pc p :: rest) (hsome : s.current = some k) (hpc : YieldNext s k pc pc') :
      Does s (.step v) ({ s with sregs := v }.setFrames (.yield pc' (some k) :: rest))
  | yieldRunnable {k : Slot} {rest : List Frame} {v : ℕ}
      (hfr : s.frames = .yield .setRunnable (some k) :: rest) (hsome : s.current = some k) :
      Does s (.step v) (({ s with sregs := v }.setState k .runnable).setFrames
        (.yield .clearCurrent (some k) :: rest))
  | yieldClear {k : Slot} {rest : List Frame} {v : ℕ}
      (hfr : s.frames = .yield .clearCurrent (some k) :: rest) (hsome : s.current = some k) :
      Does s (.step v) (({ s with sregs := v }.setCurrent none).setFrames (.yield .save (some k) :: rest))
  | yieldSave {k : Slot} {a : ℕ} {rest : List Frame} {v : ℕ} (c : Context)
      (hfr : s.frames = .yield .save (some k) :: rest) (hcur : s.cur = .page a)
      (hk : (s.procs k).stack = some a) (hnone : s.current = none)
      (hc : c = { s with sregs := v }.context .yield) :
      Does s (.step v) ((({ s with sregs := v }.setProc k { s.procs k with context := c }).remember
        c).setFrames (.yield .restore (some k) :: rest))
  | park {k i : Slot} {a : ℕ} {rest : List Frame} {v w : ℕ}
      (hfr : s.frames = .yield .restore (some k) :: rest) (hcur : s.cur = .page a)
      (hk : (s.procs k).stack = some a) (hnone : s.current = none)
      (hboot : s.stack .boot = [.sched (.restore i), .main false])
      (hsaved : s.lastSaved .boot = some s.schedContext) :
      Does s (.step v) { s with
        cur := .boot
        stack := Function.update s.stack .boot [.sched (.clearCurrent i), .main false]
        sregs := w }
  | schedNext {pc pc' : SchedPc} {v : ℕ} (hfr : s.frames = [.sched pc, .main false]) (hcur : s.cur = .boot)
      (hnone : s.current = none) (hpc : SchedNext s pc pc') :
      Does s (.step v) ({ s with sregs := v }.setFrames [.sched pc', .main false])
  | schedExit {v : ℕ} (hfr : s.frames = [.sched (.testDone false), .main false]) (hcur : s.cur = .boot)
      (hnone : s.current = none) :
      Does s (.step v) ({ s with sregs := v }.setFrames [.main true])
  | schedRunning {i : Slot} {v : ℕ} (hfr : s.frames = [.sched (.setRunning i), .main false])
      (hcur : s.cur = .boot) (hnone : s.current = none) :
      Does s (.step v) (({ s with sregs := v }.setState i .running).setFrames
        [.sched (.setCurrent i), .main false])
  | schedCurrent {i : Slot} {v : ℕ} (hfr : s.frames = [.sched (.setCurrent i), .main false])
      (hcur : s.cur = .boot) (hnone : s.current = none) :
      Does s (.step v) (({ s with sregs := v }.setCurrent (some i)).setFrames
        [.sched (.save i), .main false])
  | schedSave {i : Slot} {v : ℕ} (c : Context) (hfr : s.frames = [.sched (.save i), .main false])
      (hcur : s.cur = .boot) (hsome : s.current = some i) :
      Does s (.step v) (({ s with sregs := v, schedContext := c }.remember c).setFrames
        [.sched (.restore i), .main false])
  /-- a process that has not run starts in `forkret`; any other comes back to its `yield` -/
  | dispatch {i : Slot} {a : ℕ} {fs : List Frame} {v w : ℕ}
      (hfr : s.frames = [.sched (.restore i), .main false]) (hcur : s.cur = .boot)
      (hsome : s.current = some i) (hstack : (s.procs i).stack = some a)
      (hfs : (fs = [.forkret .test] ∧ s.hasRun i = false ∧ s.lastSaved (.page a) = none ∧
          (s.procs i).context.ra = .forkret ∧ (s.procs i).context.sp = some (.page a, 0) ∧
          s.stack (.page a) = []) ∨
        ∃ rest, fs = .yield .ret (some i) :: rest ∧ s.hasRun i = true ∧
          s.lastSaved (.page a) = some (s.procs i).context ∧
          s.stack (.page a) = .yield .restore (some i) :: rest) :
      Does s (.step v) { s with
        dispatches := s.dispatches ++ [i]
        hasRun := Function.update s.hasRun i true
        cur := .page a
        stack := Function.update s.stack (.page a) fs
        sregs := w }
  | forkretNext {k : Slot} {pc pc' : ForkretPc} {rest : List Frame} {v : ℕ}
      (hfr : s.frames = .forkret pc :: rest) (hsome : s.current = some k)
      (hpc : pc = .test ∧ pc' = .call ∨ pc = .testCurrent ∧ pc' = .setZombie) :
      Does s (.step v) ({ s with sregs := v }.setFrames (.forkret pc' :: rest))
  | forkretNoEntry {k : Slot} {rest : List Frame} {v : ℕ} (hfr : s.frames = .forkret .test :: rest)
      (hsome : s.current = some k) :
      Does s (.step v) ({ s with
        sregs := v
        entryDone := Function.update s.entryDone s.cur true }.setFrames (.forkret .testCurrent :: rest))
  | forkretCall {k : Slot} {rest : List Frame} {v : ℕ} (hfr : s.frames = .forkret .call :: rest)
      (hsome : s.current = some k) :
      Does s (.step v) ({ s with
        sregs := v
        entryCalls := Function.update s.entryCalls s.cur (s.entryCalls s.cur + 1) }.setFrames
          (.entry :: .forkret .inEntry :: rest))
  | forkretZombie {k : Slot} {rest : List Frame} {v : ℕ} (hfr : s.frames = .forkret .setZombie :: rest)
      (hsome : s.current = some k) :
      Does s (.step v) (({ s with sregs := v }.setState k .zombie).setFrames
        (.forkret .callYield :: rest))
  | forkretYield {k : Slot} {rest : List Frame} {v : ℕ} (hfr : s.frames = .forkret .callYield :: rest)
      (hsome : s.current = some k) :
      Does s (.step v) ({ s with sregs := v }.setFrames (.yield .load none :: .forkret .spin :: rest))
  | createNext {r : Request} {pc pc' : CreatePc} {rest : List Frame} {v : ℕ}
      (hfr : s.frames = .create r pc :: rest)
      (hpc : (∃ i h, pc = .scan i ∧ pc' = .testState ⟨i, h⟩) ∨
        ∃ i : Slot, pc = .testState i ∧ (pc' = .alloc i ∧ (s.procs i).state = .unused ∨
          pc' = .scan (i + 1) ∧ (s.procs i).state ≠ .unused)) :
      Does s (.step v) ({ s with sregs := v }.setFrames (.create r pc' :: rest))
  | createFill {r : Request} {id n : ℕ} {k : Slot} {a : ℕ} {f : Proc → Proc} {pc' : CreatePc}
      {rest : List Frame} {v : ℕ} (hfr : s.frames = .create r (.fill id n k a) :: rest)
      (hf : f ∈ createStores k a r) (hpc : pc' = .fill id (n + 1) k a ∨ pc' = .done id k) :
      Does s (.step v) (({ s with sregs := v }.setProc k (f (s.procs k))).setFrames
        (.create r pc' :: rest))
  | createDone {r : Request} {id : ℕ} {k : Slot} {rest : List Frame} {v : ℕ}
      (hfr : s.frames = .create r (.done id k) :: rest) :
      Does s (.step v) ({ s with sregs := v, returned := (id, k) :: s.returned }.setFrames rest)
  | alloc {r : Request} {k : Slot} {a : ℕ} {rest : List Frame}
      (hfr : s.frames = .create r (.alloc k) :: rest) (ha : a ∉ s.pages)
      (hk : (s.procs k).state = .unused) :
      Does s (.alloc (some a)) ({ s with
        pages := a :: s.pages
        claimed := s.claimed ++ [(k, r)]
        hasRun := Function.update s.hasRun k false }.setFrames
          (.create r (.fill s.claimed.length 0 k a) :: rest))
  | returns {f : Frame} {rest : List Frame} {a : Act} {v : ℕ} (hfr : s.frames = f :: rest)
      (hf : Returns s f) : Does s a ({ s with sregs := v }.setFrames rest)
  /-- `sret` to a process -/
  | trap {k : Slot} {b : Bool} {rest : List Frame} {v : ℕ} (hfr : s.frames = .trap b :: rest)
      (hsome : s.current = some k) :
      Does s (.step v) ({ s with sie := b, sregs := v }.setFrames rest)
  | callYield {k : Slot} {rest : List Frame} (hfr : s.frames = .entry :: rest) (hsome : s.current = some k) :
      Does s .callYield (s.setFrames (.yield .load none :: .entry :: rest))
  | callCreate {r : Request} {f : Frame} {rest : List Frame} (hfr : s.frames = f :: rest)
      (hf : f = .entry ∨ f = .main false ∧ rest = []) :
      Does s (.callCreate r) (s.setFrames (.create r (.scan 0) :: f :: rest))
  | setSie {b : Bool} {rest : List Frame} (hfr : s.frames = .entry :: rest) :
      Does s (.setSie b) { s with sie := b }
  | entryReturns {k : Slot} {rest : List Frame} (hfr : s.frames = .entry :: .forkret .inEntry :: rest)
      (hsome : s.current = some k) :
      Does s .entryReturns ({ s with entryDone := Function.update s.entryDone s.cur true }.setFrames
        (.forkret .testCurrent :: rest))
  | callScheduler (hfr : s.frames = [.main false]) (hcur : s.cur = .boot) (hnone : s.current = none) :
      Does s .callScheduler (s.setFrames [.sched .start, .main false])
  | interrupt (hsie : s.sie = true) :
      Does s .interrupt ({ s with sie := false }.setFrames (.yield .load none :: .trap s.sie :: s.frames))

/-! ## Inversion -/

section Inversion

variable {s s' : Kernel} {v : ℕ}

lemma Wf.does_yield (h : Wf s) {pc : YieldPc} {p : Option Slot} {rest : List Frame}
    (hfr : s.frames = .yield pc p :: rest)
    (hs : ({ s with sregs := v } : Kernel).yieldStep rest pc p = some s') : Does s (.step v) s' := by
  rcases h.yieldTop hfr with ⟨hnone, hidle⟩ | ⟨k, hsome, hf, hrest⟩ |
    ⟨a, k, hnone, hcur, hk, hused, rfl, hrest, rfl | ⟨rfl, hsaved⟩⟩
  · have hstep : s.step (.step v) = some s' := by
      simp only [Kernel.step, hfr, Kernel.statement]
      exact hs
    rcases step_idle hstep hfr hidle hnone with ⟨b, w, ints, hints, rfl⟩
    exact .idle hfr hidle hnone hints
  · cases pc with
    | load =>
        have hload := Does.yieldNext (v := v) hfr hsome .load
        rw [← hsome] at hload
        cases hs
        exact hload
    | test =>
        obtain rfl : p = some k := hf
        cases hs
        exact .yieldNext hfr hsome .test
    | testState =>
        obtain rfl : p = some k := hf
        simp only [Kernel.yieldStep] at hs
        split_ifs at hs with hst
        · cases hs
          exact .yieldNext hfr hsome (.running hst)
        · cases hs
          exact .yieldNext hfr hsome (.notRunning hst)
    | setRunnable =>
        obtain rfl : p = some k := hf
        cases hs
        exact .yieldRunnable hfr hsome
    | clearCurrent =>
        obtain rfl : p = some k := hf
        cases hs
        exact .yieldClear hfr hsome
    | ret =>
        cases p <;>
        · cases hs
          exact .returns hfr (.yield _ hsome)
    | save => exact absurd hf (by simp [Below])
    | restore => exact absurd hf (by simp [Below])
  · cases hs
    exact .yieldSave _ hfr hcur hk hnone rfl
  · rcases (h.regs s.sie v).load_sched hcur with ⟨i, w, hboot, hload⟩
    simp only [Kernel.yieldStep] at hs
    rw [hload] at hs
    cases hs
    exact .park hfr hcur hk hnone hboot (h.schedSaved i _ hboot).2

lemma Wf.does_sched (h : Wf s) {pc : SchedPc} {rest : List Frame} (hfr : s.frames = .sched pc :: rest)
    (hs : ({ s with sregs := v } : Kernel).schedStep rest pc = some s') : Does s (.step v) s' := by
  rcases h.schedTop hfr with ⟨hcur, rfl, ⟨hnone, hcore⟩ | ⟨i, hsome, hused, rfl | rfl⟩⟩
  · cases hcore with
    | sched hsave hrestore hused =>
        cases pc with
        | start =>
            cases hs
            exact .schedNext hfr hcur hnone .start
        | loop i found =>
            simp only [Kernel.schedStep] at hs
            split_ifs at hs with hi
            · cases hs
              exact .schedNext hfr hcur hnone (.loop hi)
            · cases hs
              exact .schedNext hfr hcur hnone (.loopEnd hi)
        | testState i found =>
            simp only [Kernel.schedStep] at hs
            split_ifs at hs with hst
            · cases hs
              exact .schedNext hfr hcur hnone (.runnable hst)
            · cases hs
              exact .schedNext hfr hcur hnone (.skip hst)
        | setRunning i =>
            cases hs
            exact .schedRunning hfr hcur hnone
        | setCurrent i =>
            cases hs
            exact .schedCurrent hfr hcur hnone
        | save i => exact absurd rfl (hsave i)
        | restore i => exact absurd rfl (hrestore i)
        | clearCurrent i =>
            have hset : ({ s with sregs := v } : Kernel).setCurrent none = { s with sregs := v } := by
              rw [setCurrent, ← hnone]
            simp only [Kernel.schedStep, hset, Option.some.injEq] at hs
            subst hs
            exact .schedNext hfr hcur hnone .returned
        | setFound i =>
            cases hs
            exact .schedNext hfr hcur hnone .found
        | testFound found =>
            simp only [Kernel.schedStep] at hs
            cases found with
            | true =>
                cases hs
                exact .schedNext hfr hcur hnone .again
            | false =>
                cases hs
                exact .schedNext hfr hcur hnone .search
        | scan i =>
            simp only [Kernel.schedStep] at hs
            split_ifs at hs with hi
            · cases hs
              exact .schedNext hfr hcur hnone (.scan hi)
            · cases hs
              exact .schedNext hfr hcur hnone (.scanEnd hi)
        | testActive i =>
            simp only [Kernel.schedStep] at hs
            split_ifs at hs with hst
            · cases hs
              exact .schedNext hfr hcur hnone (.active hst)
            · cases hs
              exact .schedNext hfr hcur hnone (.inactive hst)
        | testDone active =>
            simp only [Kernel.schedStep] at hs
            cases active with
            | true =>
                cases hs
                exact .schedNext hfr hcur hnone .wait
            | false =>
                cases hs
                exact .schedExit hfr hcur hnone
        | wfi =>
            cases hs
            exact .schedNext hfr hcur hnone .wake
  · cases hs
    exact .schedSave _ hfr hcur hsome
  · rcases h.dispatched hcur hfr hused with ⟨a, fs, hstack, _, _, hload, hfs⟩
    simp only [Kernel.schedStep] at hs
    rw [hload _ (by rfl)] at hs
    cases hs
    exact .dispatch hfr hcur hsome hstack hfs

lemma Wf.does_forkret (h : Wf s) {pc : ForkretPc} {rest : List Frame}
    (hfr : s.frames = .forkret pc :: rest)
    (hs : ({ s with sregs := v } : Kernel).forkretStep rest pc = some s') : Does s (.step v) s' := by
  rcases h.forkretTop hfr with ⟨k, hsome⟩
  cases pc with
  | test =>
      simp only [Kernel.forkretStep] at hs
      split at hs
      · split_ifs at hs
        · cases hs
          exact .forkretNext hfr hsome (.inl ⟨rfl, rfl⟩)
        · cases hs
          exact .forkretNoEntry hfr hsome
      · cases hs
        exact .forkretNoEntry hfr hsome
  | call =>
      simp only [Kernel.forkretStep] at hs
      split at hs
      · split_ifs at hs
        cases hs
        exact .forkretCall hfr hsome
      · exact absurd hs (by simp)
  | inEntry => exact absurd hs (by simp [Kernel.forkretStep])
  | testCurrent =>
      simp only [Kernel.forkretStep] at hs
      split_ifs at hs with hcur
      · cases hs
        exact .forkretNext hfr hsome (.inr ⟨rfl, rfl⟩)
      · exact absurd (hsome ▸ rfl : s.current.isSome = true) hcur
  | setZombie =>
      simp only [Kernel.forkretStep, hsome, Option.some.injEq] at hs
      rw [← hs, ← hsome]
      exact .forkretZombie hfr hsome
  | callYield =>
      cases hs
      exact .forkretYield hfr hsome
  | spin =>
      cases hs
      exact .own hfr (.inr (.inr rfl))

lemma does_create {r : Request} {pc : CreatePc} {rest : List Frame}
    (hfr : s.frames = .create r pc :: rest)
    (hs : ({ s with sregs := v } : Kernel).createStep rest r pc = some s') : Does s (.step v) s' := by
  cases pc with
  | scan i =>
      simp only [Kernel.createStep] at hs
      split_ifs at hs with hi
      · cases hs
        exact .createNext hfr (.inl ⟨i, hi, rfl, rfl⟩)
      · cases hs
        exact .returns hfr (.createFull hi)
  | testState i =>
      simp only [Kernel.createStep] at hs
      split_ifs at hs with hun
      · cases hs
        exact .createNext hfr (.inr ⟨i, rfl, .inl ⟨rfl, hun⟩⟩)
      · cases hs
        exact .createNext hfr (.inr ⟨i, rfl, .inr ⟨rfl, hun⟩⟩)
  | alloc k => exact absurd hs (by simp [Kernel.createStep])
  | fill id n k a =>
      simp only [Kernel.createStep] at hs
      split at hs
      · rename_i f hf
        cases hs
        refine .createFill hfr (List.mem_of_getElem? hf) ?_
        split_ifs
        · exact .inl rfl
        · exact .inr rfl
      · exact absurd hs (by simp)
  | done id k =>
      cases hs
      exact .createDone hfr

/-- **Inversion**: a step from a well-formed state follows one of the rules. -/
theorem does_of_step {a : Act} (h : Wf s) (hs : s.step a = some s') : Does s a s' := by
  cases a with
  | step v =>
      simp only [Kernel.step] at hs
      cases hfr : s.frames with
      | nil =>
          rw [hfr] at hs
          exact absurd hs (by simp [Kernel.statement])
      | cons f rest =>
          have hself : ({ s with sregs := v } : Kernel).setFrames (f :: rest) = { s with sregs := v } := by
            rw [setFrames, ← hfr, frames, Function.update_eq_self]
          rw [hfr] at hs
          cases f with
          | main b =>
              simp only [Kernel.statement, hself, Option.some.injEq] at hs
              subst hs
              exact .own hfr (.inr (.inl ⟨b, rfl⟩))
          | entry =>
              simp only [Kernel.statement, hself, Option.some.injEq] at hs
              subst hs
              exact .own hfr (.inl rfl)
          | sched pc => exact h.does_sched hfr hs
          | forkret pc => exact h.does_forkret hfr hs
          | yield pc p => exact h.does_yield hfr hs
          | create r pc => exact does_create hfr hs
          | trap b =>
              simp only [Kernel.statement, Option.some.injEq] at hs
              subst hs
              rcases Option.eq_none_or_eq_some s.current with hnone | ⟨k, hsome⟩
              · exact @Does.idle s _ [] _ _ _ _ hfr trivial hnone (by simp)
              · exact .trap hfr hsome
  | alloc o =>
      simp only [Kernel.step] at hs
      split at hs
      · rename_i r k rest hfr
        cases o with
        | none =>
            cases hs
            exact .returns (v := s.sregs) hfr .createFailed
        | some a =>
            simp only [allocStep] at hs
            split_ifs at hs with ha
            cases hs
            exact .alloc hfr ha (h.fill r _ rest hfr)
      · exact absurd hs (by simp)
  | callYield =>
      simp only [Kernel.step] at hs
      split at hs
      · rename_i rest hfr
        cases hs
        rcases h.callerTop hfr (.inl rfl) with ⟨k, _, hsome, _⟩ | ⟨b, hb, _⟩
        · exact .callYield hfr hsome
        · exact absurd hb (by simp)
      · exact absurd hs (by simp)
  | callCreate r =>
      simp only [Kernel.step] at hs
      split at hs
      · rename_i rest hfr
        cases hs
        exact .callCreate hfr (.inl rfl)
      · rename_i rest hfr
        cases hs
        rcases h.callerTop hfr (.inr ⟨false, rfl⟩) with ⟨_, hb, _⟩ | ⟨_, _, rfl, _, _⟩
        · exact absurd hb (by simp)
        · exact .callCreate hfr (.inr ⟨rfl, rfl⟩)
      · exact absurd hs (by simp)
  | setSie b =>
      simp only [Kernel.step] at hs
      split at hs
      · rename_i rest hfr
        cases hs
        exact .setSie hfr
      · exact absurd hs (by simp)
  | entryReturns =>
      simp only [Kernel.step] at hs
      split at hs
      · rename_i rest hfr
        cases hs
        rcases h.callerTop hfr (.inl rfl) with ⟨k, _, hsome, _⟩ | ⟨b, hb, _⟩
        · exact .entryReturns hfr hsome
        · exact absurd hb (by simp)
      · exact absurd hs (by simp)
  | callScheduler =>
      simp only [Kernel.step] at hs
      split at hs
      · rename_i rest hfr
        cases hs
        rcases h.callerTop hfr (.inr ⟨false, rfl⟩) with ⟨_, hb, _⟩ | ⟨_, _, rfl, hcur, hnone⟩
        · exact absurd hb (by simp)
        · exact .callScheduler hfr hcur hnone
      · exact absurd hs (by simp)
  | interrupt =>
      simp only [Kernel.step] at hs
      split_ifs at hs with hsie
      cases hs
      exact .interrupt hsie

end Inversion

end Kernel

end NetStack
