import NetStack.Process.SchedulerInv

/-!
# What the kernel does when left alone

Paths without interrupts: `proc_create` fills the first free slot, `scheduler` comes to the first runnable
slot from where its loop is, a process that has not run comes to its entry function, and `yield` hands the hart
back to `scheduler`.  The registers `s0`–`s11` are left as they are on these paths.
-/

namespace NetStack

namespace Kernel

open Transition

/-- A step in which process code does not turn interrupts on or off, and a timer interrupt is taken only where `P`
allows it. -/
def PlainStep (P : Kernel → Prop) (s : Kernel) (a : Act) (s' : Kernel) : Prop :=
  Step P s a s' ∧ ∀ b, a ≠ .setSie b

/-- There is a run from `s` to `s'`. -/
def Reaches (P : Kernel → Prop) (s s' : Kernel) : Prop := ∃ ls, Run (PlainStep P) s ls s'

section Paths

variable {P : Kernel → Prop} {s s' : Kernel}

lemma Reaches.run (h : Reaches P s s') : ∃ ls, Run (Step P) s ls s' := by
  rcases h with ⟨ls, hl⟩
  exact ⟨ls, hl.mono fun _ _ _ hs => hs.1⟩

lemma Reaches.refl (s : Kernel) : Reaches P s s := ⟨[], .nil s⟩

lemma Reaches.trans {a b c : Kernel} (h : Reaches P a b) (h' : Reaches P b c) : Reaches P a c := by
  rcases h with ⟨ls, hl⟩
  rcases h' with ⟨ls', hl'⟩
  exact ⟨ls ++ ls', hl.append hl'⟩

/-- A step that is not an interrupt. -/
lemma Reaches.act {a : Act} (ha : a ≠ .interrupt) (hs : s.step a = some s')
    (hsie : ∀ b, a ≠ .setSie b := by simp) : Reaches P s s' :=
  ⟨[a], .cons ⟨⟨hs, fun h => absurd h ha⟩, hsie⟩ (.nil s')⟩

/-- The next statement. -/
lemma Reaches.next {L : List Frame} (hfr : s.frames = L) (hs : s.statement L = some s') :
    Reaches P s s' :=
  .act (a := .step s.sregs) (by simp) (by subst hfr; exact hs)

lemma Reaches.interrupt (hok : P s) (hsie : s.sie = true) :
    Reaches P s ({ s with sie := false }.setFrames (.yield .load none :: .trap s.sie :: s.frames)) := by
  refine ⟨[.interrupt], .cons ⟨⟨?_, fun _ => hok⟩, by simp⟩ (.nil _)⟩
  simp only [step, hsie, if_true]

/-! ## `proc_create` -/

/-- The search stops at the first free slot. -/
lemma reaches_alloc {r : Request} {l : List Frame} {k : Slot} (hk : (s.procs k).state = .unused) :
    ∀ (n i : ℕ), i + n = k → (∀ j : Slot, i ≤ j → j < k → (s.procs j).state ≠ .unused) →
      Reaches P (s.setFrames (.create r (.scan i) :: l)) (s.setFrames (.create r (.alloc k) :: l))
  | n, i, hi, hused => by
      have hlt : i < nproc := by
        have := k.isLt
        omega
      have htest : Reaches P (s.setFrames (.create r (.scan i) :: l))
          (s.setFrames (.create r (.testState ⟨i, hlt⟩) :: l)) :=
        .next (frames_setFrames ..) (by simp only [statement, createStep, dif_pos hlt, setFrames_setFrames])
      refine htest.trans ?_
      cases n with
      | zero =>
          obtain rfl : k = ⟨i, hlt⟩ := Fin.ext (by simpa using hi.symm)
          refine .next (frames_setFrames ..) ?_
          have hst : ((s.setFrames (.create r (.testState ⟨i, hlt⟩) :: l)).procs ⟨i, hlt⟩).state =
              .unused := hk
          simp only [statement, createStep, if_pos hst, setFrames_setFrames]
      | succ n =>
          have hst : ((s.setFrames (.create r (.testState ⟨i, hlt⟩) :: l)).procs ⟨i, hlt⟩).state ≠
              .unused := hused ⟨i, hlt⟩ (le_refl i) (Fin.lt_def.mpr (by simp only; omega))
          have hskip : Reaches P (s.setFrames (.create r (.testState ⟨i, hlt⟩) :: l))
              (s.setFrames (.create r (.scan (i + 1)) :: l)) :=
            .next (frames_setFrames ..) (by simp only [statement, createStep, if_neg hst, setFrames_setFrames])
          exact hskip.trans (reaches_alloc hk n (i + 1) (by omega) fun j hj => hused j (by omega))

lemma applyStores_take_succ (fs : List (Proc → Proc)) (p : Proc) {n : ℕ} (h : n < fs.length) :
    applyStores (fs.take (n + 1)) p = fs[n] (applyStores (fs.take n) p) := by
  rw [List.take_add_one, List.getElem?_eq_getElem h, applyStores_append]
  rfl

/-- The first `n` stores. -/
lemma reaches_stores {r : Request} {l : List Frame} {k : Slot} {a id : ℕ} :
    ∀ n, n < (createStores k a r).length →
      Reaches P (s.setFrames (.create r (.fill id 0 k a) :: l))
        ((s.setProc k (applyStores ((createStores k a r).take n) (s.procs k))).setFrames
          (.create r (.fill id n k a) :: l))
  | 0, _ => by
      have hself : s.setProc k (applyStores ((createStores k a r).take 0) (s.procs k)) = s := by
        simp [setProc, applyStores]
      rw [hself]
      exact .refl _
  | n + 1, hn => by
      refine (reaches_stores n (by omega)).trans (.next (frames_setFrames ..) ?_)
      have hget : (createStores k a r)[n]? = some (createStores k a r)[n] :=
        List.getElem?_eq_getElem (by omega)
      simp only [statement, createStep, hget, if_pos hn, applyStores_take_succ _ _ (Nat.lt_of_succ_lt hn)]
      simp [setFrames, setProc]

/-- **`proc_create` up to its `n`-th store**, in the first free slot. -/
lemma reaches_fill {r : Request} {f : Frame} {l : List Frame} {k : Slot} {a n : ℕ}
    (hfr : s.frames = f :: l) (hf : f = .entry ∨ f = .main false) (hk : (s.procs k).state = .unused)
    (hused : ∀ j < k, (s.procs j).state ≠ .unused) (ha : a ∉ s.pages)
    (hn : n < (createStores k a r).length) :
    Reaches P s ({ s with
      procs := Function.update s.procs k (applyStores ((createStores k a r).take n) (s.procs k))
      pages := a :: s.pages
      claimed := s.claimed ++ [(k, r)]
      hasRun := Function.update s.hasRun k false }.setFrames
        (.create r (.fill s.claimed.length n k a) :: f :: l)) := by
  have hcall : Reaches P s (s.setFrames (.create r (.scan 0) :: f :: l)) := by
    refine .act (a := .callCreate r) (by simp) ?_
    rcases hf with rfl | rfl <;> simp only [step, hfr]
  have halloc : Reaches P (s.setFrames (.create r (.alloc k) :: f :: l)) ({ s with
      pages := a :: s.pages
      claimed := s.claimed ++ [(k, r)]
      hasRun := Function.update s.hasRun k false }.setFrames
        (.create r (.fill s.claimed.length 0 k a) :: f :: l)) := by
    refine .act (a := .alloc (some a)) (by simp) ?_
    have hpages : a ∉ (s.setFrames (.create r (.alloc k) :: f :: l)).pages := ha
    simp only [step, frames_setFrames, allocStep, if_neg hpages]
    simp [setFrames]
  have hscan := reaches_alloc (P := P) (r := r) (l := f :: l) hk k 0 (by simp)
    (fun j _ hj => hused j hj)
  exact ((hcall.trans hscan).trans halloc).trans (reaches_stores n hn)

/-- Slot `k` has been filled for `r`, with a stack at `a`. -/
def created (s : Kernel) (k : Slot) (a : ℕ) (r : Request) : Kernel :=
  { s with
    procs := Function.update s.procs k (applyStores (createStores k a r) (s.procs k))
    pages := a :: s.pages
    claimed := s.claimed ++ [(k, r)]
    hasRun := Function.update s.hasRun k false
    returned := (s.claimed.length, k) :: s.returned }

/-- **`proc_create`, to its end.** -/
lemma reaches_created {r : Request} {f : Frame} {l : List Frame} {k : Slot} {a : ℕ}
    (hfr : s.frames = f :: l) (hf : f = .entry ∨ f = .main false) (hk : (s.procs k).state = .unused)
    (hused : ∀ j < k, (s.procs j).state ≠ .unused) (ha : a ∉ s.pages) :
    Reaches P s (s.created k a r) := by
  have hlen : 0 < (createStores k a r).length := by simp [createStores]
  obtain ⟨n, hn⟩ : ∃ n, (createStores k a r).length = n + 1 := ⟨_, (Nat.succ_pred_eq_of_pos hlen).symm⟩
  have hfill := reaches_fill (P := P) (n := n) (a := a) (r := r) hfr hf hk hused ha (by omega)
  refine hfill.trans ?_
  have hget : (createStores k a r)[n]? = some (createStores k a r)[n] :=
    List.getElem?_eq_getElem (by omega)
  have htake : applyStores (createStores k a r) (s.procs k) =
      (createStores k a r)[n] (applyStores ((createStores k a r).take n) (s.procs k)) := by
    have hall : (createStores k a r).take (n + 1) = createStores k a r :=
      List.take_of_length_le (by omega)
    exact (congrArg (applyStores · (s.procs k)) hall.symm).trans (applyStores_take_succ _ _ (by omega))
  let done : Kernel := { s with
    procs := Function.update s.procs k (applyStores (createStores k a r) (s.procs k))
    pages := a :: s.pages
    claimed := s.claimed ++ [(k, r)]
    hasRun := Function.update s.hasRun k false }
  refine Reaches.trans (b := done.setFrames (.create r (.done s.claimed.length k) :: f :: l))
    (.next (frames_setFrames ..) ?_) (.next (frames_setFrames ..) ?_)
  · have hlast : ¬ n + 1 < (createStores k a r).length := by omega
    simp only [statement, createStep, hget, if_neg hlast, done, htake]
    simp [setFrames, setProc]
  · simp only [statement, createStep, done, created]
    simp [setFrames, ← hfr, frames]

/-! ## `scheduler` -/

/-- The loop passes over slots that are not runnable. -/
lemma reaches_loop {l : List Frame} {b : Bool} {k : ℕ} (hk : k ≤ nproc) : ∀ (n i : ℕ), i + n = k →
    (∀ j : Slot, i ≤ j → j < k → (s.procs j).state ≠ .runnable) →
      Reaches P (s.setFrames (.sched (.loop i b) :: l)) (s.setFrames (.sched (.loop k b) :: l))
  | 0, i, hi, _ => by
      obtain rfl : i = k := hi
      exact .refl _
  | n + 1, i, hi, hst => by
      have hlt : i < nproc := by omega
      have htest : Reaches P (s.setFrames (.sched (.loop i b) :: l))
          (s.setFrames (.sched (.testState ⟨i, hlt⟩ b) :: l)) :=
        .next (frames_setFrames ..) (by simp only [statement, schedStep, dif_pos hlt, setFrames_setFrames])
      have hne : ((s.setFrames (.sched (.testState ⟨i, hlt⟩ b) :: l)).procs ⟨i, hlt⟩).state ≠
          .runnable := hst ⟨i, hlt⟩ (le_refl i) (by simp only; omega)
      have hskip : Reaches P (s.setFrames (.sched (.testState ⟨i, hlt⟩ b) :: l))
          (s.setFrames (.sched (.loop (i + 1) b) :: l)) :=
        .next (frames_setFrames ..) (by simp only [statement, schedStep, if_neg hne, setFrames_setFrames])
      exact (htest.trans hskip).trans (reaches_loop hk n (i + 1) (by omega) fun j hj => hst j (by omega))

/-- The state in which `scheduler` is about to load the context of `k`. -/
def switching (s : Kernel) (k : Slot) (l : List Frame) : Kernel :=
  let c : Context := ⟨.scheduler, some (s.cur, l.length + 1), s.sregs⟩
  ({ (s.setState k .running).setCurrent (some k) with schedContext := c }.remember c).setFrames
    (.sched (.restore k) :: l)

/-- **`scheduler` picks the first runnable slot** from where its loop is. -/
lemma reaches_switching {l : List Frame} {b : Bool} {i : ℕ} {k : Slot} (hik : i ≤ k)
    (hk : (s.procs k).state = .runnable)
    (hst : ∀ j : Slot, i ≤ j → j < k → (s.procs j).state ≠ .runnable) :
    Reaches P (s.setFrames (.sched (.loop i b) :: l)) (s.switching k l) := by
  have hloop := reaches_loop (P := P) (s := s) (l := l) (b := b) (k := k)
    (le_of_lt k.isLt) (k - i) i (by omega) (fun j hj hlt => hst j hj (Fin.lt_def.mpr hlt))
  have htest : Reaches P (s.setFrames (.sched (.loop k b) :: l))
      (s.setFrames (.sched (.testState k b) :: l)) :=
    .next (frames_setFrames ..) (by simp only [statement, schedStep, dif_pos k.isLt, setFrames_setFrames])
  have hpick : Reaches P (s.setFrames (.sched (.testState k b) :: l))
      (s.setFrames (.sched (.setRunning k) :: l)) := by
    have hrun : ((s.setFrames (.sched (.testState k b) :: l)).procs k).state = .runnable := hk
    exact .next (frames_setFrames ..) (by simp only [statement, schedStep, if_pos hrun, setFrames_setFrames])
  have hrunning : Reaches P (s.setFrames (.sched (.setRunning k) :: l))
      ((s.setState k .running).setFrames (.sched (.setCurrent k) :: l)) :=
    .next (frames_setFrames ..) (by simp [statement, schedStep, setState, setProc, setFrames])
  have hcurrent : Reaches P ((s.setState k .running).setFrames (.sched (.setCurrent k) :: l))
      (((s.setState k .running).setCurrent (some k)).setFrames (.sched (.save k) :: l)) :=
    .next (frames_setFrames ..) (by simp [statement, schedStep, setCurrent, setFrames])
  have hsave : Reaches P (((s.setState k .running).setCurrent (some k)).setFrames
      (.sched (.save k) :: l)) (s.switching k l) := by
    refine .next (frames_setFrames ..) ?_
    simp [statement, schedStep, switching, context, remember, setCurrent, setFrames, setState, setProc, frames]
  exact ((((hloop.trans htest).trans hpick).trans hrunning).trans hcurrent).trans hsave

lemma setFrames_of_frames {l : List Frame} (hfr : s.frames = l) : s.setFrames l = s := by
  simp [setFrames, ← hfr, frames]

lemma reaches_pick {l : List Frame} {b : Bool} {i : ℕ} {k : Slot} (hfr : s.frames = .sched (.loop i b) :: l)
    (hik : i ≤ k) (hk : (s.procs k).state = .runnable)
    (hst : ∀ j : Slot, i ≤ j → j < k → (s.procs j).state ≠ .runnable) : Reaches P s (s.switching k l) := by
  have hpick := reaches_switching (P := P) (b := b) (l := l) hik hk hst
  rwa [setFrames_of_frames hfr] at hpick

/-- The hart has gone to process `k`, with frames `l` on its stack at `a`. -/
def dispatched (s : Kernel) (k : Slot) (a : ℕ) (l : List Frame) (v : ℕ) : Kernel :=
  { s with
    dispatches := s.dispatches ++ [k]
    hasRun := Function.update s.hasRun k true
    cur := .page a
    stack := Function.update s.stack (.page a) l
    sregs := v }

/-- The dispatch of a process that has not run. -/
lemma step_started {k : Slot} {a : ℕ} {l : List Frame} (hfr : s.frames = .sched (.restore k) :: l)
    (hra : (s.procs k).context.ra = .forkret) (hsp : (s.procs k).context.sp = some (.page a, 0)) :
    s.step (.step s.sregs) = some (s.dispatched k a [.forkret .test] (s.procs k).context.s) := by
  simp [step, hfr, statement, schedStep, load, load.go, hra, hsp, dispatched]

/-- `forkret` has called the entry function. -/
def called (s : Kernel) : Kernel :=
  { s with entryCalls := Function.update s.entryCalls s.cur (s.entryCalls s.cur + 1) }.setFrames
    [.entry, .forkret .inEntry]

lemma reaches_called {k : Slot} (hfr : s.frames = [.forkret .test]) (hcurrent : s.current = some k)
    (hentry : (s.procs k).entry.isSome = true) : Reaches P s s.called := by
  have htest : Reaches P s (s.setFrames [.forkret .call]) :=
    .next hfr (by simp only [statement, forkretStep, hcurrent, hentry, if_true])
  refine htest.trans (.next (frames_setFrames ..) ?_)
  have hc : (s.setFrames [.forkret .call]).current = some k := hcurrent
  have he : ((s.setFrames [.forkret .call]).procs k).entry.isSome = true := hentry
  simp only [statement, forkretStep]
  rw [hc]
  simp only [he, if_true]
  simp [setFrames, hcurrent, called]

/-- **A process that has not run** comes to its entry function. -/
lemma reaches_entry {k : Slot} {a : ℕ} {l : List Frame} (hfr : s.frames = .sched (.restore k) :: l)
    (hcurrent : s.current = some k) (hra : (s.procs k).context.ra = .forkret)
    (hsp : (s.procs k).context.sp = some (.page a, 0)) (hentry : (s.procs k).entry.isSome = true) :
    Reaches P s { s with
      dispatches := s.dispatches ++ [k]
      hasRun := Function.update s.hasRun k true
      cur := .page a
      stack := Function.update s.stack (.page a) [.entry, .forkret .inEntry]
      sregs := (s.procs k).context.s
      entryCalls := Function.update s.entryCalls (.page a) (s.entryCalls (.page a) + 1) } := by
  have hload : Reaches P s _ := .act (by simp) (step_started hfr hra hsp)
  have hcall := reaches_called (P := P) (s := s.dispatched k a [.forkret .test] (s.procs k).context.s) (k := k)
    (Function.update_self ..) hcurrent hentry
  have hend := hload.trans hcall
  simpa [setFrames, dispatched, called] using hend

/-! ## `yield` -/

/-- The state in which `yield` of process `k` has saved its context. -/
def leaving (s : Kernel) (k : Slot) (st : ProcState) (l : List Frame) : Kernel :=
  let c : Context := ⟨.yield, some (s.cur, l.length + 1), s.sregs⟩
  ((((s.setState k st).setCurrent none).setProc k { s.procs k with state := st, context := c }).remember
    c).setFrames (.yield .restore (some k) :: l)

/-- **The end of `yield`**: `current_process` is cleared, and the context saved. -/
lemma reaches_leaving {k : Slot} {l : List Frame} (hfr : s.frames = .yield .clearCurrent (some k) :: l) :
    Reaches P s (s.leaving k (s.procs k).state l) := by
  have hclear : Reaches P s ((s.setCurrent none).setFrames (.yield .save (some k) :: l)) :=
    .next hfr rfl
  have hsave : Reaches P ((s.setCurrent none).setFrames (.yield .save (some k) :: l))
      (s.leaving k (s.procs k).state l) := by
    refine .next (frames_setFrames ..) ?_
    simp [statement, yieldStep, leaving, context, remember, setCurrent, setFrames, setState, setProc, frames]
  exact hclear.trans hsave

/-- **`yield` of the running process.** -/
lemma reaches_yield {k : Slot} {p : Option Slot} {l : List Frame}
    (hfr : s.frames = .yield .load p :: l) (hcurrent : s.current = some k)
    (hst : (s.procs k).state = .running) :
    Reaches P s ((s.setState k .runnable).setFrames (.yield .clearCurrent (some k) :: l)) := by
  have hload : Reaches P s (s.setFrames (.yield .test (some k) :: l)) :=
    .next hfr (by simp only [statement, yieldStep, hcurrent])
  have htest : Reaches P (s.setFrames (.yield .test (some k) :: l))
      (s.setFrames (.yield .testState (some k) :: l)) :=
    .next (frames_setFrames ..) (by simp only [statement, yieldStep, setFrames_setFrames])
  have hrunning : Reaches P (s.setFrames (.yield .testState (some k) :: l))
      (s.setFrames (.yield .setRunnable (some k) :: l)) := by
    have hrun : ((s.setFrames (.yield .testState (some k) :: l)).procs k).state = .running := hst
    exact .next (frames_setFrames ..) (by simp only [statement, yieldStep, if_pos hrun, setFrames_setFrames])
  have hset : Reaches P (s.setFrames (.yield .setRunnable (some k) :: l))
      ((s.setState k .runnable).setFrames (.yield .clearCurrent (some k) :: l)) :=
    .next (frames_setFrames ..) (by simp [statement, yieldStep, setState, setProc, setFrames])
  exact ((hload.trans htest).trans hrunning).trans hset

/-- `yield` of a process that is not running, in the handler of an interrupt. -/
lemma reaches_yieldPast {k : Slot} {p : Option Slot} {l : List Frame}
    (hfr : s.frames = .yield .load p :: l) (hcurrent : s.current = some k)
    (hst : (s.procs k).state ≠ .running) :
    Reaches P s (s.setFrames (.yield .clearCurrent (some k) :: l)) := by
  have hload : Reaches P s (s.setFrames (.yield .test (some k) :: l)) :=
    .next hfr (by simp only [statement, yieldStep, hcurrent])
  have htest : Reaches P (s.setFrames (.yield .test (some k) :: l))
      (s.setFrames (.yield .testState (some k) :: l)) :=
    .next (frames_setFrames ..) (by simp only [statement, yieldStep, setFrames_setFrames])
  have hpast : Reaches P (s.setFrames (.yield .testState (some k) :: l))
      (s.setFrames (.yield .clearCurrent (some k) :: l)) := by
    have hrun : ((s.setFrames (.yield .testState (some k) :: l)).procs k).state ≠ .running := hst
    exact .next (frames_setFrames ..) (by simp only [statement, yieldStep, if_neg hrun, setFrames_setFrames])
  exact (hload.trans htest).trans hpast

/-- **Back in `scheduler`'s loop**, after `swtch` in `yield`. -/
lemma reaches_back {k i : Slot} {l below : List Frame} {v : ℕ}
    (hfr : s.frames = .yield .restore (some k) :: l) (hnone : s.current = none)
    (hboot : s.stack .boot = .sched (.restore i) :: below)
    (hctx : s.schedContext = ⟨.scheduler, some (.boot, below.length + 1), v⟩) :
    Reaches P s { s with
      cur := .boot
      stack := Function.update s.stack .boot (.sched (.loop (i + 1) true) :: below)
      sregs := v } := by
  let t : Kernel := { s with
    cur := .boot
    stack := Function.update s.stack .boot (.sched (.clearCurrent i) :: below)
    sregs := v }
  have hload : Reaches P s t := by
    refine .next hfr ?_
    simp [statement, yieldStep, load, load.go, hctx, hboot, t]
  have hclear : Reaches P t (t.setFrames (.sched (.setFound i) :: below)) := by
    refine .next (L := .sched (.clearCurrent i) :: below) (by simp [frames, t]) ?_
    have hset : t.setCurrent none = t := by
      have hc : t.current = none := hnone
      rw [setCurrent, ← hc]
    simp only [statement, schedStep, hset]
  have hfound : Reaches P (t.setFrames (.sched (.setFound i) :: below))
      (t.setFrames (.sched (.loop (i + 1) true) :: below)) :=
    .next (frames_setFrames ..) (by simp only [statement, schedStep, setFrames_setFrames])
  have hend := (hload.trans hclear).trans hfound
  simpa [setFrames, t] using hend

/-- The dispatch of a process that has left the hart in `yield`. -/
lemma step_resumed {k : Slot} {p : Option Slot} {a v : ℕ} {l below : List Frame}
    (hfr : s.frames = .sched (.restore k) :: below)
    (hctx : (s.procs k).context = ⟨.yield, some (.page a, l.length + 1), v⟩)
    (hstack : s.stack (.page a) = .yield .restore p :: l) :
    s.step (.step s.sregs) = some (s.dispatched k a (.yield .ret p :: l) v) := by
  simp [step, hfr, statement, schedStep, load, load.go, hctx, hstack, dispatched]

/-- **Back in `yield`**, after `swtch` in `scheduler`; and out of it. -/
lemma reaches_resumed {k : Slot} {p : Option Slot} {a v : ℕ} {l below : List Frame}
    (hfr : s.frames = .sched (.restore k) :: below)
    (hctx : (s.procs k).context = ⟨.yield, some (.page a, l.length + 1), v⟩)
    (hstack : s.stack (.page a) = .yield .restore p :: l) : Reaches P s (s.dispatched k a l v) := by
  let t : Kernel := s.dispatched k a (.yield .ret p :: l) v
  have hload : Reaches P s t := .act (by simp) (step_resumed hfr hctx hstack)
  have hret : Reaches P t (t.setFrames l) := by
    refine .next (L := .yield .ret p :: l) (by simp [frames, t, dispatched]) ?_
    cases p <;> simp only [statement, yieldStep]
  have hend := hload.trans hret
  simpa [setFrames, t, dispatched] using hend

/-- A pass of `scheduler` that finds nothing after slot `i` starts again. -/
lemma reaches_nextPass {l : List Frame} {i : ℕ} (hi : i ≤ nproc)
    (hst : ∀ j : Slot, i ≤ j → (s.procs j).state ≠ .runnable) :
    Reaches P (s.setFrames (.sched (.loop i true) :: l)) (s.setFrames (.sched (.loop 0 false) :: l)) := by
  have hloop := reaches_loop (P := P) (s := s) (l := l) (b := true) (le_refl nproc) (nproc - i) i (by omega)
    (fun j hj _ => hst j hj)
  have hend : Reaches P (s.setFrames (.sched (.loop nproc true) :: l))
      (s.setFrames (.sched (.testFound true) :: l)) :=
    .next (frames_setFrames ..) (by simp [statement, schedStep])
  have hfound : Reaches P (s.setFrames (.sched (.testFound true) :: l)) (s.setFrames (.sched .start :: l)) :=
    .next (frames_setFrames ..) (by simp [statement, schedStep])
  have hstart : Reaches P (s.setFrames (.sched .start :: l)) (s.setFrames (.sched (.loop 0 false) :: l)) :=
    .next (frames_setFrames ..) (by simp [statement, schedStep])
  exact ((hloop.trans hend).trans hfound).trans hstart

/-! ## A first process -/

/-- `main` has created a process for `r` on page `a` and called `scheduler`, which starts its first pass. -/
def firstPass (a : ℕ) (r : Request) : Kernel :=
  ((boot true).created 0 a r).setFrames [.sched (.loop 0 false), .main false]

lemma firstPass_proc (a : ℕ) (r : Request) :
    (firstPass a r).procs 0 = applyStores (createStores 0 a r) ((boot true).procs 0) := by
  simp [firstPass, setFrames, created]

/-- `main` calls `scheduler`. -/
lemma reaches_scheduler (hfr : s.frames = [.main false]) :
    Reaches P s (s.setFrames [.sched (.loop 0 false), .main false]) := by
  have hcall : Reaches P s (s.setFrames [.sched .start, .main false]) :=
    .act (a := .callScheduler) (by simp) (by simp only [step, hfr])
  have hstart : Reaches P (s.setFrames [.sched .start, .main false])
      (s.setFrames [.sched (.loop 0 false), .main false]) :=
    .next (frames_setFrames ..) (by simp only [statement, schedStep, setFrames_setFrames])
  exact hcall.trans hstart

lemma reaches_firstPass (a : ℕ) (r : Request) : Reaches P (boot true) (firstPass a r) := by
  have hcreated := reaches_created (P := P) (s := boot true) (f := .main false) (l := []) (k := 0) (a := a)
    (r := r) rfl (.inr rfl) rfl (by simp) (by simp [boot])
  exact hcreated.trans (reaches_scheduler rfl)

/-- The first process is about to be switched to. -/
lemma reaches_firstSwitch (a : ℕ) (r : Request) :
    Reaches P (boot true) ((firstPass a r).switching 0 [.main false]) := by
  have hrunnable : ((firstPass a r).procs 0).state = .runnable := by
    rw [firstPass_proc]
    exact (applyStores_all 0 a r _).2.2
  exact (reaches_firstPass a r).trans (reaches_pick (i := 0) (frames_setFrames ..) (le_refl 0) hrunnable (by simp))

lemma firstSwitch_context (a : ℕ) (r : Request) :
    (((firstPass a r).switching 0 [.main false]).procs 0).context = ⟨.forkret, some (.page a, 0), 0⟩ := by
  have hctx := (applyStores_all 0 a r ((boot true).procs 0)).2.1
  rw [← firstPass_proc] at hctx
  simpa [switching, setFrames, remember, setCurrent, setState, setProc] using hctx

/-- The first process is in its entry function. -/
def firstEntry (a : ℕ) (r : Request) : Kernel :=
  let t := (firstPass a r).switching 0 [.main false]
  { t with
    dispatches := t.dispatches ++ [0]
    hasRun := Function.update t.hasRun 0 true
    cur := .page a
    stack := Function.update t.stack (.page a) [.entry, .forkret .inEntry]
    sregs := 0
    entryCalls := Function.update t.entryCalls (.page a) (t.entryCalls (.page a) + 1) }

lemma firstEntry_frames (a : ℕ) (r : Request) : (firstEntry a r).frames = [.entry, .forkret .inEntry] :=
  Function.update_self ..

lemma reaches_firstEntry (a : ℕ) {r : Request} (hr : r.entry.isSome = true) :
    Reaches P (boot true) (firstEntry a r) := by
  have hctx := firstSwitch_context a r
  have hentry : (((firstPass a r).switching 0 [.main false]).procs 0).entry.isSome = true := by
    have hdesc := (applyStores_all 0 a r ((boot true).procs 0)).1.entry
    rw [← firstPass_proc] at hdesc
    have hsame : (((firstPass a r).switching 0 [.main false]).procs 0).entry = ((firstPass a r).procs 0).entry := by
      simp [switching, setFrames, remember, setCurrent, setState, setProc]
    rw [hsame, hdesc]
    exact hr
  have hpath := reaches_entry (P := P) (s := (firstPass a r).switching 0 [.main false]) (k := 0) (a := a)
    (l := [.main false]) (frames_setFrames ..) rfl (by rw [hctx]) (by rw [hctx]) hentry
  rw [hctx] at hpath
  exact (reaches_firstSwitch a r).trans hpath

/-- Process `k` has gone off the hart at frames `l`, and `scheduler`'s loop goes on after slot `i`. -/
def offHart (s : Kernel) (k i : Slot) (l below : List Frame) (v : ℕ) : Kernel :=
  let y := (s.setState k .runnable).setFrames (.yield .clearCurrent (some k) :: l)
  let w := y.leaving k .runnable l
  { w with
    cur := .boot
    stack := Function.update w.stack .boot (.sched (.loop (i + 1) true) :: below)
    sregs := v }

/-- **`yield`, and back in `scheduler`'s loop.** -/
lemma reaches_offHart {k i : Slot} {a : ℕ} {l below : List Frame} {v : ℕ} (hcur : s.cur = .page a)
    (hcurrent : s.current = some k) (hst : (s.procs k).state = .running)
    (hboot : s.stack .boot = .sched (.restore i) :: below)
    (hctx : s.schedContext = ⟨.scheduler, some (.boot, below.length + 1), v⟩) :
    Reaches P (s.setFrames (.yield .load none :: l)) (s.offHart k i l below v) := by
  let y := (s.setState k .runnable).setFrames (.yield .clearCurrent (some k) :: l)
  let w := y.leaving k .runnable l
  have hy : Reaches P (s.setFrames (.yield .load none :: l)) y := by
    have hyield := reaches_yield (P := P) (s := s.setFrames (.yield .load none :: l)) (k := k)
      (frames_setFrames ..) hcurrent hst
    simpa [setFrames, setState, setProc, y] using hyield
  have hw : Reaches P y w := by
    have hleave := reaches_leaving (P := P) (s := y) (k := k) (l := l) (frames_setFrames ..)
    have hstate : (y.procs k).state = .runnable := by simp [y, setFrames, setState, setProc]
    rw [hstate] at hleave
    exact hleave
  have hb : Reaches P w (s.offHart k i l below v) := by
    refine reaches_back (k := k) (i := i) (frames_setFrames ..) rfl ?_ hctx
    simp [w, y, leaving, setFrames, remember, setProc, setCurrent, setState, hcur, hboot]
  exact hy.trans (hw.trans hb)

/-- A timer interrupt has taken the first process off the hart, and `scheduler`'s loop goes on. -/
def firstPreempted (a : ℕ) (r : Request) : Kernel :=
  { firstEntry a r with sie := false }.offHart 0 0 (.trap true :: (firstEntry a r).frames) [.main false] 0

lemma reaches_firstPreempted (a : ℕ) {r : Request} (hr : r.entry.isSome = true) (hP : P (firstEntry a r)) :
    Reaches P (boot true) (firstPreempted a r) := by
  have hi : Reaches P (firstEntry a r) _ := .interrupt hP rfl
  have hb : Reaches P _ (firstPreempted a r) :=
    reaches_offHart (s := { firstEntry a r with sie := false }) (a := a) (l := .trap true :: (firstEntry a r).frames)
      rfl rfl rfl rfl rfl
  exact (reaches_firstEntry a hr).trans (hi.trans hb)

/-! ## Two processes -/

/-- `main` has created two processes and called `scheduler`, which starts its first pass. -/
def pairPass : Kernel :=
  (((boot true).created 0 4096 ⟨some 0, none⟩).created 1 8192 ⟨some 0, none⟩).setFrames
    [.sched (.loop 0 false), .main false]

lemma reaches_pairPass : Reaches P (boot true) pairPass := by
  have hfirst : Reaches P (boot true) ((boot true).created 0 4096 ⟨some 0, none⟩) :=
    reaches_created (f := .main false) (l := []) rfl (.inr rfl) rfl (by simp) (by simp [boot])
  have hsecond : Reaches P ((boot true).created 0 4096 ⟨some 0, none⟩)
      (((boot true).created 0 4096 ⟨some 0, none⟩).created 1 8192 ⟨some 0, none⟩) := by
    refine reaches_created (f := .main false) (l := []) rfl (.inr rfl) rfl ?_ (by simp [boot, created])
    intro j hj
    obtain rfl : j = 0 := by simpa using hj
    decide
  exact hfirst.trans (hsecond.trans (reaches_scheduler rfl))

/-- The first of the two is in its entry function, ... -/
def pairFirst : Kernel := ((pairPass.switching 0 [.main false]).dispatched 0 4096 [.forkret .test] 0).called

/-- ... has been taken off the hart by a timer interrupt, ... -/
def pairPreempted : Kernel :=
  { pairFirst with sie := false }.offHart 0 0 [.trap true, .entry, .forkret .inEntry] [.main false] 0

/-- ... and the second one is in its entry function. -/
def pairSecond : Kernel := ((pairPreempted.switching 1 [.main false]).dispatched 1 8192 [.forkret .test] 0).called

lemma reaches_pairSwitch : Reaches P (boot true) (pairPass.switching 0 [.main false]) :=
  reaches_pairPass.trans (reaches_pick (i := 0) (frames_setFrames ..) (le_refl 0) rfl (by simp))

/-- From the first dispatch to the interrupt. -/
lemma reaches_pairOff (hP : P pairFirst) :
    Reaches P ((pairPass.switching 0 [.main false]).dispatched 0 4096 [.forkret .test] 0) pairPreempted := by
  have hfirst : Reaches P _ pairFirst := reaches_called (k := 0) rfl rfl rfl
  have hint : Reaches P pairFirst _ := .interrupt hP rfl
  have hoff : Reaches P _ pairPreempted :=
    reaches_offHart (s := { pairFirst with sie := false }) (a := 4096) rfl rfl rfl rfl rfl
  exact hfirst.trans (hint.trans hoff)

/-- From the first dispatch. -/
lemma reaches_pairSecond (hP : P pairFirst) :
    Reaches P ((pairPass.switching 0 [.main false]).dispatched 0 4096 [.forkret .test] 0) pairSecond := by
  have hpick : Reaches P pairPreempted (pairPreempted.switching 1 [.main false]) :=
    reaches_pick (i := 1) rfl (le_refl 1) rfl fun j hj hlt => absurd hj (not_le.mpr hlt)
  have hload : Reaches P (pairPreempted.switching 1 [.main false]) _ :=
    .act (by simp) (step_started (k := 1) (a := 8192) (frames_setFrames ..) rfl rfl)
  have hsecond : Reaches P _ pairSecond := reaches_called (k := 1) rfl rfl rfl
  exact (reaches_pairOff hP).trans (hpick.trans (hload.trans hsecond))

lemma reaches_pairDispatch : Reaches P (boot true)
    ((pairPass.switching 0 [.main false]).dispatched 0 4096 [.forkret .test] 0) :=
  reaches_pairSwitch.trans (.act (by simp) (step_started (k := 0) (a := 4096) (frames_setFrames ..) rfl rfl))

end Paths

end Kernel

end NetStack
