import NetStack.Process.States

/-!
# The process table

What the table says at every hand-over, for processes that are created, run, yield, are preempted and end in
any order: `process_table`.  A pass of `scheduler` that starts with every slot unused or ended takes
`passLength` statements and ends in `main`; `wfi` is not reached.
-/

namespace NetStack

open Transition

namespace Kernel

/-! ## States from one step to the next -/

/-- **No step wakes the dead**, and none frees a slot. -/
lemma Does.state {s s' : Kernel} {a : Act} (h : Does s a s') (hwf : Wf s) (halive : Alive s) (k : Slot) :
    (s'.procs k).state = (s.procs k).state ∨
      (s.procs k).state ≠ .zombie ∧ (s'.procs k).state ≠ .unused := by
  cases h with
  | @yieldRunnable i rest v hfr hsome =>
      refine (eq_or_ne k i).elim ?_ fun hk => .inl (congrArg Proc.state (Function.update_of_ne hk _ _))
      rintro rfl
      rcases halive.active hwf hfr hsome (by simp) with ⟨_, _, _, _, hshape, _⟩
      refine .inr ⟨fun hz => hshape.noSet hz (some k) List.mem_cons_self, ?_⟩
      show ((Kernel.setState _ k .runnable).procs k).state ≠ .unused
      rw [setState_state, if_pos rfl]
      simp
  | @schedRunning i v hfr hcur hnone =>
      refine (eq_or_ne k i).elim ?_ fun hk => .inl (congrArg Proc.state (Function.update_of_ne hk _ _))
      rintro rfl
      have hrun : (s.procs k).state = .runnable := halive.pass _ _ hfr
      refine .inr ⟨by simp [hrun], ?_⟩
      show ((Kernel.setState _ k .running).procs k).state ≠ .unused
      rw [setState_state, if_pos rfl]
      simp
  | @forkretZombie i rest v hfr hsome =>
      refine (eq_or_ne k i).elim ?_ fun hk => .inl (congrArg Proc.state (Function.update_of_ne hk _ _))
      rintro rfl
      rcases halive.active hwf hfr hsome (by simp) with ⟨_, _, _, _, hshape, _⟩
      rcases hshape.forkret with ⟨_, _, _, hz⟩
      refine .inr ⟨fun hzombie => absurd (hz hzombie) (by simp), ?_⟩
      show ((Kernel.setState _ k .zombie).procs k).state ≠ .unused
      rw [setState_state, if_pos rfl]
      simp
  | @yieldSave i a rest v c =>
      refine .inl ?_
      show (Function.update s.procs i { s.procs i with context := c } k).state = (s.procs k).state
      by_cases hk : k = i
      · rw [hk, Function.update_self]
      · rw [Function.update_of_ne hk]
  | @createFill r id n i a f pc' rest v hfr hf =>
      refine (eq_or_ne k i).elim ?_ fun hk => .inl (congrArg Proc.state (Function.update_of_ne hk _ _))
      rintro rfl
      have hself : (Function.update s.procs k (f (s.procs k)) k).state = (f (s.procs k)).state :=
        congrArg Proc.state (Function.update_self ..)
      rcases (store_keeps hf (s.procs k)).2 with hst | hst
      · exact .inl (hself.trans hst)
      · rcases hwf.fill r _ rest hfr with ⟨_, _, ⟨p, hp, _, hprocs⟩, _⟩
        have hold := applyStores_state (a := a) (r := r) (i := k) _ p
          (fun g hg => List.mem_of_mem_take (i := n) hg) (.inl hp)
        rw [← hprocs] at hold
        refine .inr ⟨?_, ?_⟩
        · rcases hold with hold | hold <;> rw [hold] <;> simp
        · show (Function.update s.procs k (f (s.procs k)) k).state ≠ .unused
          rw [hself, hst]
          simp
  | _ => exact .inl rfl

/-! ## The table -/

/-- The frames of process code: an entry function, `forkret` around it, and `proc_create`. -/
def processCode : Frame → Bool
  | .entry | .forkret _ | .create .. => true
  | _ => false

/-- **What the process table says.** -/
structure TableOk (s : Kernel) : Prop where
  oneRunning : ∀ j k, (s.procs j).state = .running → (s.procs k).state = .running → j = k
  /-- process code runs with its process current, and running until its entry function has returned -/
  process : ∀ a f rest, s.cur = .page a → s.frames = f :: rest → processCode f = true →
    ∃ k, s.current = some k ∧ (s.procs k).stack = some a ∧
      ((s.procs k).state = .running ∨ (s.procs k).state = .zombie ∧ s.entryDone (.page a) = true)
  scheduler : betweenDispatches s → s.current = none ∧ ∀ k, (s.procs k).state ≠ .running
  /-- what `scheduler` switches to is no zombie -/
  dispatched : ∀ i rest, s.frames = .sched (.restore i) :: rest → (s.procs i).state ≠ .zombie
  entryOnce : ∀ k a, (s.procs k).stack = some a → s.entryCalls (.page a) ≤ 1
  /-- `scheduler` exits only after a pass in which every slot was unused or a zombie -/
  lastPass : ∀ rest, s.frames = .sched (.testFound false) :: rest ∨ s.frames = .main true :: rest →
    ∀ k, Finished s k
  noWfi : ∀ rest, s.frames ≠ .sched .wfi :: rest

/-- One process at a time has the hart, or is being given it. -/
lemma Runs.unique {s : Kernel} {j k : Slot} (hwf : Wf s) (hj : Runs s j) (hk : Runs s k) : j = k := by
  have huniq : ∀ {pc : SchedPc}, dispatching j pc → dispatching k pc → j = k := by
    intro pc h₁ h₂
    cases pc with
    | setCurrent => exact h₁.symm.trans h₂
    | save => exact h₁.symm.trans h₂
    | restore => exact h₁.symm.trans h₂
    | _ => exact absurd h₁ (by simp [dispatching])
  rcases hj with ⟨pc, rest, hfr, hj⟩ | ⟨hcur, hj, _⟩
  · rcases hk with ⟨pc', rest', hfr', hk⟩ | ⟨hcur, _, _⟩
    · obtain ⟨rfl, _⟩ : pc = pc' ∧ rest = rest' := by simpa using hfr.symm.trans hfr'
      exact huniq hj hk
    · exact absurd (hwf.schedTop hfr).1 hcur
  · rcases hk with ⟨pc', rest', hfr', _⟩ | ⟨_, hk, _⟩
    · exact absurd (hwf.schedTop hfr').1 hcur
    · exact Option.some.inj (hj.symm.trans hk)

lemma Alive.tableOk {s : Kernel} (h : Alive s) (hwf : Wf s) : TableOk s where
  oneRunning := fun j k hj hk => (h.running j hj).unique hwf (h.running k hk)
  process := by
    intro a f rest hcur hfr hf
    rcases hwf.onHart hcur with ⟨k, hk, _, _, hflow⟩
    rw [hfr] at hflow
    have hsome : s.current = some k := by
      rcases hflow.top with ⟨hs, _⟩ | ⟨_, hidle, _⟩ | ⟨_, rfl, _⟩ | ⟨_, rfl, _⟩
      · exact hs
      · cases f with
        | yield => exact absurd hf (by simp [processCode])
        | trap => exact absurd hf (by simp [processCode])
        | _ => exact absurd hidle (by simp [Idle])
      · exact absurd hf (by simp [processCode])
      · exact absurd hf (by simp [processCode])
    have hne : ∀ pc, f ≠ .sched pc := by
      rintro pc rfl
      exact absurd hf (by simp [processCode])
    have hclear : ∀ p, f ≠ .yield .clearCurrent p := by
      rintro p rfl
      exact absurd hf (by simp [processCode])
    rcases h.active hwf hfr hsome hne with ⟨b, hb, hkb, _, hshape, hst⟩
    obtain rfl : a = b := StackId.page.inj (hcur.symm.trans hb)
    refine ⟨k, hsome, hk, ?_⟩
    rcases hst hclear with hrun | hz
    · exact .inl hrun
    · rcases hshape.base with ⟨_, pc, _, _, hd, _, hpc⟩
      refine .inr ⟨hz, ?_⟩
      rcases hpc hz with rfl | rfl <;> exact hd
  scheduler := by
    intro hbetween
    refine ⟨?_, (h.noneLost hwf).notRunning hbetween⟩
    rcases hbetween with ⟨_, pc, rest, hfr, hpc⟩
    rcases hwf.schedTop hfr with ⟨_, _, ⟨hnone, _⟩ | ⟨i, _, _, rfl | rfl⟩⟩
    · exact hnone
    · exact absurd rfl (hpc i)
    · exact absurd rfl (hpc i)
  dispatched := by
    intro i rest hfr hz
    have hrun : (s.procs i).state = .running := h.pass _ _ hfr
    exact absurd (hrun.symm.trans hz) (by simp)
  entryOnce := by
    intro k a hk
    rcases h.shape k a hk with ⟨hempty, _⟩ | hshape
    · exact (h.fresh a hempty).2 ▸ Nat.zero_le 1
    · rcases hshape.base with ⟨_, _, _, _, _, hcalls, _⟩
      omega
  lastPass := by
    rintro rest (hfr | hfr)
    · exact h.pass _ _ hfr
    · exact h.exit rest hfr
  noWfi := fun rest hfr => h.pass _ _ hfr

/-! ## The last pass -/

/-- The statements of a pass in which nothing is runnable. -/
def lastPassPc : SchedPc → Prop
  | .start => True
  | .loop i found => found = false ∧ i ≤ nproc
  | .testState _ found | .testFound found => found = false
  | .scan i => i ≤ nproc
  | .testActive _ => True
  | .testDone active => active = false
  | _ => False

/-- How many statements of it are left. -/
def statementsLeft : SchedPc → ℕ
  | .start => 4 * nproc + 5
  | .loop i _ => 4 * nproc + 4 - 2 * i
  | .testState i _ => 4 * nproc + 3 - 2 * i
  | .testFound _ => 2 * nproc + 3
  | .scan i => 2 * nproc + 2 - 2 * i
  | .testActive i => 2 * nproc + 1 - 2 * i
  | .testDone _ => 1
  | _ => 0

/-- A pass in which every slot is unused or ended. -/
def passLength : ℕ := 4 * nproc + 5

lemma SchedNext.lastPass {s : Kernel} {pc pc' : SchedPc} (h : SchedNext s pc pc') (hpc : lastPassPc pc)
    (hfin : ∀ k, Finished s k) : lastPassPc pc' ∧ statementsLeft pc = statementsLeft pc' + 1 := by
  cases h with
  | start => exact ⟨⟨rfl, Nat.zero_le _⟩, rfl⟩
  | @loop i found hi => exact ⟨hpc.1, by simp only [statementsLeft, nproc] at hi ⊢; omega⟩
  | @loopEnd i found hi =>
      refine ⟨hpc.1, ?_⟩
      have := hpc.2
      simp only [statementsLeft, nproc] at hi this ⊢
      omega
  | @runnable i found hst =>
      rcases hfin i with hf | hf <;> exact absurd (hst.symm.trans hf) (by simp)
  | @skip i found hst =>
      have := i.isLt
      refine ⟨⟨hpc, this⟩, ?_⟩
      simp only [statementsLeft, nproc] at this ⊢
      omega
  | returned => exact absurd hpc (by simp [lastPassPc])
  | found => exact absurd hpc (by simp [lastPassPc])
  | again => exact absurd hpc (by simp [lastPassPc])
  | search => exact ⟨Nat.zero_le _, rfl⟩
  | @scan i hi => exact ⟨trivial, by simp only [statementsLeft, nproc] at hi ⊢; omega⟩
  | @scanEnd i hi =>
      refine ⟨rfl, ?_⟩
      have : i ≤ nproc := hpc
      simp only [statementsLeft, nproc] at hi this ⊢
      omega
  | @active i hst => exact absurd (hfin i) (fun hf => hf.elim hst.1 hst.2)
  | @inactive i hst =>
      have := i.isLt
      refine ⟨this, ?_⟩
      simp only [statementsLeft, nproc] at this ⊢
      omega
  | wait => exact absurd hpc (by simp [lastPassPc])
  | wake => exact absurd hpc (by simp [lastPassPc])

/-- **One statement of the last pass.** -/
lemma lastPass_step {s s' : Kernel} {a : Act} {pc : SchedPc} (hwf : Wf s) (hs : Step Resumable s a s')
    (hfr : s.frames = [.sched pc, .main false]) (hpc : lastPassPc pc) (hfin : ∀ k, Finished s k) :
    (∀ k, Finished s' k) ∧
      ((∃ pc', s'.frames = [.sched pc', .main false] ∧ lastPassPc pc' ∧
          statementsLeft pc = statementsLeft pc' + 1) ∨
        s'.frames = [.main true] ∧ statementsLeft pc = 1) := by
  cases does_of_step hwf hs.1 with
  | @schedNext pc₀ pc' v hfr' hcur hnone hnext =>
      obtain rfl : pc = pc₀ := by simpa using hfr.symm.trans hfr'
      rcases hnext.lastPass hpc hfin with ⟨hpc', hleft⟩
      exact ⟨hfin, .inl ⟨pc', frames_setFrames .., hpc', hleft⟩⟩
  | schedExit hfr' =>
      obtain rfl : pc = .testDone false := by simpa using hfr.symm.trans hfr'
      exact ⟨hfin, .inr ⟨frames_setFrames .., rfl⟩⟩
  | schedRunning hfr' =>
      obtain rfl : pc = .setRunning _ := by simpa using hfr.symm.trans hfr'
      exact absurd hpc (by simp [lastPassPc])
  | schedCurrent hfr' =>
      obtain rfl : pc = .setCurrent _ := by simpa using hfr.symm.trans hfr'
      exact absurd hpc (by simp [lastPassPc])
  | schedSave _ hfr' =>
      obtain rfl : pc = .save _ := by simpa using hfr.symm.trans hfr'
      exact absurd hpc (by simp [lastPassPc])
  | dispatch hfr' =>
      obtain rfl : pc = .restore _ := by simpa using hfr.symm.trans hfr'
      exact absurd hpc (by simp [lastPassPc])
  | interrupt => exact absurd (hwf.schedTop hfr).1 (hs.2 rfl).1
  | idle hfr' hf =>
      rw [← (List.cons.inj (hfr.symm.trans hfr')).1] at hf
      exact absurd hf (by simp [Idle])
  | returns hfr' hf =>
      rw [← (List.cons.inj (hfr.symm.trans hfr')).1] at hf
      cases hf
  | own hfr' hf =>
      rw [← (List.cons.inj (hfr.symm.trans hfr')).1] at hf
      exact absurd hf (by simp)
  | callCreate hfr' hf =>
      rw [← (List.cons.inj (hfr.symm.trans hfr')).1] at hf
      exact absurd hf (by simp)
  | _ => simp_all

/-- **A pass that starts with every slot unused or ended comes to its end**, in `main`. -/
lemma lastPass_run : ∀ {ls : List Act} {s s' : Kernel} {pc : SchedPc}, Wf s → Run (Step Resumable) s ls s' →
    s.frames = [.sched pc, .main false] → lastPassPc pc → (∀ k, Finished s k) →
      ls.length = statementsLeft pc → s'.frames = [.main true] := by
  intro ls
  induction ls with
  | nil =>
      intro s s' pc _ _ _ hpc _ hlen
      cases pc with
      | loop i found => exact absurd hpc.2 (by simp [statementsLeft, nproc] at hlen ⊢; omega)
      | testState i found => exact absurd i.isLt (by simp [statementsLeft, nproc] at hlen ⊢; omega)
      | testActive i => exact absurd i.isLt (by simp [statementsLeft, nproc] at hlen ⊢; omega)
      | scan i => exact absurd hpc (by simp [statementsLeft, lastPassPc, nproc] at hlen ⊢; omega)
      | start => exact absurd hlen (by simp [statementsLeft])
      | testFound found => exact absurd hlen (by simp [statementsLeft])
      | testDone active => exact absurd hlen (by simp [statementsLeft])
      | _ => exact absurd hpc (by simp [lastPassPc])
  | cons a ls ih =>
      intro s s' pc hwf hrun hfr hpc hfin hlen
      cases hrun with
      | cons hs hrun =>
          have hwf' := Step.wf ⟨hs.1, fun ha => (hs.2 ha).atRest⟩ hwf
          rcases lastPass_step hwf hs hfr hpc hfin with ⟨hfin', ⟨pc', hfr', hpc', hleft⟩ | ⟨hfr', hleft⟩⟩
          · refine ih hwf' hrun hfr' hpc' hfin' ?_
            simp only [List.length_cons] at hlen
            omega
          · obtain rfl : ls = [] := by
              apply List.eq_nil_of_length_eq_zero
              simp only [List.length_cons] at hlen
              omega
            cases hrun
            exact hfr'

/-- Nothing stops such a pass. -/
lemma lastPass_progress {s : Kernel} {pc : SchedPc} (hfr : s.frames = [.sched pc, .main false])
    (hpc : lastPassPc pc) : ∃ s', Step Resumable s (.step 0) s' := by
  have hsome : ∃ s', s.step (.step 0) = some s' := by
    simp only [Kernel.step, hfr, statement]
    cases pc with
    | start => exact ⟨_, rfl⟩
    | loop i found =>
        simp only [schedStep]
        split_ifs <;> exact ⟨_, rfl⟩
    | testState i found =>
        simp only [schedStep]
        split_ifs <;> exact ⟨_, rfl⟩
    | testFound found =>
        simp only [schedStep]
        split_ifs <;> exact ⟨_, rfl⟩
    | scan i =>
        simp only [schedStep]
        split_ifs <;> exact ⟨_, rfl⟩
    | testActive i =>
        simp only [schedStep]
        split_ifs <;> exact ⟨_, rfl⟩
    | testDone active =>
        simp only [schedStep]
        split_ifs <;> exact ⟨_, rfl⟩
    | _ => exact absurd hpc (by simp [lastPassPc])
  rcases hsome with ⟨s', hs'⟩
  exact ⟨s', hs', by simp⟩

lemma lastPass_exists : ∀ (n : ℕ) {s : Kernel} {pc : SchedPc}, Wf s → s.frames = [.sched pc, .main false] →
    lastPassPc pc → (∀ k, Finished s k) → statementsLeft pc = n →
      ∃ ls s', ls.length = n ∧ Run (Step Resumable) s ls s'
  | 0, s, _, _, _, _, _, _ => ⟨[], s, rfl, .nil s⟩
  | n + 1, s, pc, hwf, hfr, hpc, hfin, hleft => by
      rcases lastPass_progress hfr hpc with ⟨s', hs⟩
      have hwf' := Step.wf ⟨hs.1, fun ha => (hs.2 ha).atRest⟩ hwf
      rcases lastPass_step hwf hs hfr hpc hfin with ⟨hfin', ⟨pc', hfr', hpc', hleft'⟩ | ⟨_, hleft'⟩⟩
      · rcases lastPass_exists n hwf' hfr' hpc' hfin' (by omega) with ⟨ls, t, hlen, hrun⟩
        exact ⟨.step 0 :: ls, t, by simp [hlen], .cons hs hrun⟩
      · exact ⟨[.step 0], s', by simp; omega, .cons hs (.nil s')⟩

end Kernel

open Kernel

/-- **The process table.**  In every state of every run whose interrupts are taken in resumable states (those in
the code of entry functions are): the table is in order; no step wakes a zombie; and from the start of
a pass of `scheduler` with every slot unused or ended, there is a run of `passLength` steps, and every run of that
length is out of `scheduler`. -/
theorem process_table {sie : Bool} {ls : List Act} {s : Kernel}
    (hrun : Run (Step Resumable) (boot sie) ls s) :
    TableOk s ∧
      (∀ a s' k, Step Resumable s a s' → (s.procs k).state = .zombie → (s'.procs k).state = .zombie) ∧
      (s.frames = [.sched .start, .main false] → (∀ k, Finished s k) →
        (∃ ls' s', ls'.length = passLength ∧ Run (Step Resumable) s ls' s') ∧
        ∀ ls' s', ls'.length = passLength → Run (Step Resumable) s ls' s' → s'.frames = [.main true]) := by
  rcases alive_of_run hrun with ⟨hwf, halive⟩
  refine ⟨halive.tableOk hwf, ?_, ?_⟩
  · intro a s' k hs hz
    rcases (does_of_step hwf hs.1).state hwf halive k with hst | ⟨hst, _⟩
    · exact hst.trans hz
    · exact absurd hz hst
  · intro hfr hfin
    refine ⟨lastPass_exists passLength hwf hfr trivial hfin rfl, ?_⟩
    intro ls' s' hlen hrun'
    exact lastPass_run hwf hrun' hfr trivial hfin hlen

/-- A process has been created, dispatched, and taken off the hart by a timer interrupt. -/
theorem process_table_preempted : ∃ ls s, Run (Step Resumable) (boot true) ls s ∧
    s.dispatches = [0] ∧ betweenDispatches s ∧ TableOk s := by
  have hentry : InEntry (firstEntry 4096 ⟨some 0, none⟩) := ⟨by simp [firstEntry], _, firstEntry_frames ..⟩
  rcases (reaches_firstPreempted 4096 (r := ⟨some 0, none⟩) rfl hentry.resumable).run with ⟨ls, hrun⟩
  have hbetween : betweenDispatches (firstPreempted 4096 ⟨some 0, none⟩) :=
    ⟨rfl, .loop 1 true, [.main false], by rfl, by simp [dispatching]⟩
  exact ⟨ls, _, hrun, rfl, hbetween, (process_table hrun).1⟩

end NetStack
