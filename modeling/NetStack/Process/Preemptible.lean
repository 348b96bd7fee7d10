import NetStack.Process.ProcessTable

/-!
# Processes stay preemptible

`struct context` does not hold `sstatus`, and `forkret` does not set it, so a process goes on with the `SIE` that the
process before it left behind.  After a timer interrupt that is 0, and only `sret` sets it again: a process that the
interrupt had taken off the hart gets its `SIE` back, a new one or one that had called `yield` does not
(`preemption_lost`).

With interrupts in the code of entry functions only, the stack of a process has one of a few shapes (`Tidy`).  While
`scheduler` does not switch to a process of the second kind with `SIE` at 0 (`SwitchOk`), a process is in its entry
function with `SIE` at 1 (`preemptible`).
-/

namespace NetStack

open Transition

namespace Kernel

/-- A process is in its entry function, or in what that has called, and not in a trap handler. -/
def InOwnCode (s : Kernel) : Prop := s.cur ≠ .boot ∧ .entry ∈ s.frames ∧ ∀ b, .trap b ∉ s.frames

/-- When `scheduler` switches to a process, `SIE` is set, or the process will set it by `sret`, or it is new and has no
entry function. -/
def SwitchOk (s : Kernel) : Prop :=
  ∀ i rest, s.frames = .sched (.restore i) :: rest → s.sie = true ∨
    (∃ a p b l, (s.procs i).stack = some a ∧ s.stack (.page a) = .yield .restore p :: .trap b :: l) ∨
    s.hasRun i = false ∧ (s.procs i).entry = none

/-! ## The stacks -/

/-- What stands on the stack of a process that has run. -/
inductive Tidy : List Frame → Prop
  | forkret (pc : ForkretPc) : Tidy [.forkret pc]
  | ending (pc : YieldPc) (p : Option Slot) : Tidy [.yield pc p, .forkret .spin]
  | entry : Tidy [.entry, .forkret .inEntry]
  | create (r : Request) (pc : CreatePc) : Tidy [.create r pc, .entry, .forkret .inEntry]
  | yield (pc : YieldPc) (p : Option Slot) : Tidy [.yield pc p, .entry, .forkret .inEntry]
  | trap : Tidy [.trap true, .entry, .forkret .inEntry]
  | preempted (pc : YieldPc) (p : Option Slot) : Tidy [.yield pc p, .trap true, .entry, .forkret .inEntry]

/-- From these frames the process comes to its entry function with `SIE` as it is. -/
def Exposed (s : Kernel) (fs : List Frame) : Prop :=
  (.entry ∈ fs ∧ ∀ b, .trap b ∉ fs) ∨
    (fs = [.forkret .test] ∨ fs = [.forkret .call]) ∧
      ∃ k, s.current = some k ∧ (s.procs k).entry.isSome = true

structure Ready (s : Kernel) : Prop where
  tidy : ∀ a, s.stack (.page a) = [] ∨ Tidy (s.stack (.page a))
  leaving : s.cur ≠ .boot → s.current = none →
    ∃ p rest, s.frames = .yield .save p :: rest ∨ s.frames = .yield .restore p :: rest
  sieSet : s.cur ≠ .boot → Exposed s s.frames → s.sie = true

lemma Tidy.ofYield {pc pc' : YieldPc} {p p' : Option Slot} {rest : List Frame} (h : Tidy (.yield pc p :: rest)) :
    Tidy (.yield pc' p' :: rest) := by
  cases h with
  | ending => exact .ending ..
  | yield => exact .yield ..
  | preempted => exact .preempted ..

/-- What a `yield` returns to. -/
lemma Tidy.rest {pc : YieldPc} {p : Option Slot} {rest : List Frame} (h : Tidy (.yield pc p :: rest)) :
    Tidy rest ∧ rest ≠ [.forkret .test] ∧ rest ≠ [.forkret .call] := by
  cases h with
  | ending => exact ⟨.forkret _, by simp, by simp⟩
  | yield => exact ⟨.entry, by simp, by simp⟩
  | preempted => exact ⟨.trap, by simp, by simp⟩

lemma Exposed.ofYield {s s' : Kernel} {pc pc' : YieldPc} {p p' : Option Slot} {rest : List Frame}
    (h : Exposed s' (.yield pc' p' :: rest)) : Exposed s (.yield pc p :: rest) := by
  rcases h with ⟨hentry, htrap⟩ | ⟨h | h, _⟩
  · exact .inl ⟨by simpa using hentry, by simpa using htrap⟩
  · exact absurd h (by simp)
  · exact absurd h (by simp)

section Step

variable {s s' : Kernel} {L : List Frame}

/-- A step that stays on its stack. -/
lemma Ready.move (h : Ready s) (hcur : s'.cur = s.cur) (hstack : s'.stack = Function.update s.stack s.cur L)
    (htidy : s.cur ≠ .boot → Tidy L)
    (hleaving : s.cur ≠ .boot → s'.current = none →
      ∃ p rest, L = .yield .save p :: rest ∨ L = .yield .restore p :: rest)
    (hsie : s.cur ≠ .boot → Exposed s' L → s'.sie = true) : Ready s' := by
  have hfr : s'.frames = L := by rw [frames, hcur, hstack, Function.update_self]
  refine ⟨?_, ?_, ?_⟩
  · intro a
    rw [hstack]
    rcases eq_or_ne s.cur (.page a) with ha | ha
    · rw [← ha, Function.update_self]
      exact .inr (htidy (by simp [ha]))
    · rw [Function.update_of_ne (Ne.symm ha)]
      exact h.tidy a
  · rw [hcur, hfr]
    exact hleaving
  · rw [hcur, hfr]
    exact hsie

/-- A step to, or on, the boot stack. -/
lemma Ready.onBoot (h : Ready s) (hcur : s'.cur = .boot) (hstack : ∀ a, s'.stack (.page a) = s.stack (.page a)) :
    Ready s' := by
  refine ⟨?_, fun hne => absurd hcur hne, fun hne => absurd hcur hne⟩
  intro a
  rw [hstack a]
  exact h.tidy a

lemma Ready.top {f : Frame} {rest : List Frame} (h : Ready s) (hcur : s.cur ≠ .boot) (hfr : s.frames = f :: rest) :
    Tidy (f :: rest) := by
  cases hc : s.cur with
  | boot => exact absurd hc hcur
  | page a =>
      have hstack : s.stack (.page a) = f :: rest := by rw [← hc]; exact hfr
      rcases h.tidy a with hempty | htidy
      · exact absurd (hempty.symm.trans hstack) (by simp)
      · rwa [hstack] at htidy

/-- Only `yield` clears `current_process`. -/
lemma Ready.hasCurrent {f : Frame} {rest : List Frame} (h : Ready s) (hcur : s.cur ≠ .boot)
    (hfr : s.frames = f :: rest) (hsave : ∀ p, f ≠ .yield .save p) (hrestore : ∀ p, f ≠ .yield .restore p) :
    s.current ≠ none := by
  intro hnone
  rcases h.leaving hcur hnone with ⟨p, l, hp | hp⟩
  · exact hsave p (List.cons.inj (hfr.symm.trans hp)).1
  · exact hrestore p (List.cons.inj (hfr.symm.trans hp)).1

/-- An interrupt always finds a current process. -/
lemma Ready.not_idle {f : Frame} {rest : List Frame} (h : Ready s) (halive : Alive s) (hfr : s.frames = f :: rest)
    (hnone : s.current = none) : ¬ Idle f := by
  intro hidle
  rcases eq_or_ne s.cur .boot with hcur | hcur
  · rw [frames, hcur] at hfr
    exact halive.bootTop f rest hfr hidle
  · refine h.hasCurrent hcur hfr ?_ ?_ hnone <;>
    · rintro p rfl
      exact hidle

/-- Another statement of `yield`. -/
lemma Ready.yieldStep {pc pc' : YieldPc} {p p' : Option Slot} {rest : List Frame} (h : Ready s)
    (hfr : s.frames = .yield pc p :: rest) (hcur : s'.cur = s.cur)
    (hstack : s'.stack = Function.update s.stack s.cur (.yield pc' p' :: rest)) (hsie : s'.sie = s.sie)
    (hleaving : s'.current = none → pc' = .save ∨ pc' = .restore) : Ready s' := by
  refine h.move hcur hstack (fun hne => (h.top hne hfr).ofYield) ?_ ?_
  · rintro _ hnone
    rcases hleaving hnone with rfl | rfl
    · exact ⟨p', rest, .inl rfl⟩
    · exact ⟨p', rest, .inr rfl⟩
  · intro hne hexp
    rw [hsie]
    refine h.sieSet hne ?_
    rw [hfr]
    exact hexp.ofYield

/-- A statement of `proc_create`, or its end. -/
lemma Ready.createStep {r : Request} {pc : CreatePc} {rest : List Frame} (h : Ready s)
    (hfr : s.frames = .create r pc :: rest) (hcur : s'.cur = s.cur)
    (hstack : s'.stack = Function.update s.stack s.cur L) (hL : L = rest ∨ ∃ pc', L = .create r pc' :: rest)
    (hsie : s'.sie = s.sie) (hcurrent : s'.current = s.current) : Ready s' := by
  have hrest : s.cur ≠ .boot → rest = [.entry, .forkret .inEntry] := by
    intro hne
    cases h.top hne hfr with
    | create => rfl
  refine h.move hcur hstack ?_ ?_ ?_
  · intro hne
    rw [hrest hne] at hL
    rcases hL with rfl | ⟨pc', rfl⟩
    · exact .entry
    · exact .create ..
  · intro hne hnone
    exact absurd (hcurrent.symm.trans hnone) (h.hasCurrent hne hfr (by simp) (by simp))
  · intro hne _
    rw [hsie]
    refine h.sieSet hne (.inl ?_)
    rw [hfr, hrest hne]
    simp

/-- `forkret` before its entry function is called, and after that has returned. -/
lemma Ready.forkretStep {pc pc' : ForkretPc} {rest : List Frame} (h : Ready s)
    (hfr : s.frames = .forkret pc :: rest) (hcur : s'.cur = s.cur)
    (hstack : s'.stack = Function.update s.stack s.cur (.forkret pc' :: rest)) (hsie : s'.sie = s.sie)
    (hcurrent : s'.current ≠ none) (hsame : Exposed s' [.forkret pc'] → Exposed s [.forkret pc]) : Ready s' := by
  have hrest : s.cur ≠ .boot → rest = [] := by
    intro hne
    cases h.top hne hfr with
    | forkret => rfl
  refine h.move hcur hstack ?_ (fun _ hnone => absurd hnone hcurrent) ?_
  · intro hne
    rw [hrest hne]
    exact .forkret pc'
  · intro hne hexp
    rw [hrest hne] at hexp hfr
    rw [hsie]
    refine h.sieSet hne ?_
    rw [hfr]
    exact hsame hexp

/-- `forkret` calls an entry function that is there. -/
lemma entry_of_call {k : Slot} {rest : List Frame} {v : ℕ} (hs : s.step (.step v) = some s')
    (hfr : s.frames = .forkret .call :: rest) (hsome : s.current = some k) : (s.procs k).entry.isSome = true := by
  simp only [Kernel.step, hfr, statement, Kernel.forkretStep, hsome] at hs
  split_ifs at hs with hentry
  exact hentry

lemma not_exposed {pc : ForkretPc} (htest : pc ≠ .test) (hcall : pc ≠ .call) : ¬ Exposed s [.forkret pc] := by
  rintro (⟨hentry, _⟩ | ⟨h | h, _⟩)
  · exact absurd hentry (by simp)
  · exact htest (by simpa using h)
  · exact hcall (by simpa using h)

/-- A process is dispatched. -/
lemma Ready.dispatch {i : Slot} {a : ℕ} {fs rest : List Frame} (h : Ready s) (hok : SwitchOk s)
    (hfr : s.frames = .sched (.restore i) :: rest) (hsome : s.current = some i)
    (hstack : (s.procs i).stack = some a)
    (hfs : fs = [.forkret .test] ∧ s.hasRun i = false ∧ s.stack (.page a) = [] ∨
      ∃ l, fs = .yield .ret (some i) :: l ∧ s.hasRun i = true ∧ s.stack (.page a) = .yield .restore (some i) :: l)
    (hcur' : s'.cur = .page a) (hstack' : s'.stack = Function.update s.stack (.page a) fs)
    (hcurrent : s'.current = s.current) (hprocs : s'.procs = s.procs) (hsie : s'.sie = s.sie) : Ready s' := by
  have hfr' : s'.frames = fs := by rw [frames, hcur', hstack', Function.update_self]
  refine ⟨?_, ?_, ?_⟩
  · intro b
    rw [hstack']
    rcases eq_or_ne b a with rfl | hne
    · rw [Function.update_self]
      rcases hfs with ⟨rfl, _, _⟩ | ⟨l, rfl, _, hl⟩
      · exact .inr (.forkret _)
      · rcases h.tidy b with hempty | htidy
        · exact absurd (hempty.symm.trans hl) (by simp)
        · rw [hl] at htidy
          exact .inr htidy.ofYield
    · rw [Function.update_of_ne (by simpa using hne)]
      exact h.tidy b
  · rintro _ hnone
    exact absurd ((hcurrent.trans hsome).symm.trans hnone) (by simp)
  · intro _ hexp
    rw [hfr'] at hexp
    rw [hsie]
    rcases hok i rest hfr with hon | ⟨b, p, c, l', hb, hl'⟩ | ⟨hnew, hentry⟩
    · exact hon
    · obtain rfl : a = b := Option.some.inj (hstack.symm.trans hb)
      rcases hfs with ⟨_, _, hempty⟩ | ⟨l, rfl, _, hl⟩
      · exact absurd (hempty.symm.trans hl') (by simp)
      · obtain ⟨_, rfl⟩ := List.cons.inj (hl.symm.trans hl')
        rcases hexp with ⟨_, htrap⟩ | ⟨hf | hf, _⟩
        · exact absurd (htrap c) (by simp)
        · exact absurd hf (by simp)
        · exact absurd hf (by simp)
    · rcases hfs with ⟨rfl, _, _⟩ | ⟨l, _, hrun, _⟩
      · rcases hexp with ⟨hmem, _⟩ | ⟨_, k, hk, hke⟩
        · exact absurd hmem (by simp)
        · obtain rfl : i = k := Option.some.inj (hsome.symm.trans (hcurrent.symm.trans hk))
          rw [hprocs, hentry] at hke
          exact absurd hke (by simp)
      · exact absurd (hnew.symm.trans hrun) (by simp)

/-- **One step.** -/
theorem Ready.step {a : Act} (h : Ready s) (hwf : Wf s) (halive : Alive s) (hs : PlainStep InEntry s a s')
    (hok : SwitchOk s) : Ready s' := by
  have hpage : ∀ {fs : List Frame}, s.cur = .boot →
      ∀ b, Function.update s.stack s.cur fs (.page b) = s.stack (.page b) := by
    intro fs hcur b
    rw [hcur, Function.update_of_ne (by simp)]
  cases does_of_step hwf hs.1.1 with
  | own => exact ⟨h.tidy, h.leaving, h.sieSet⟩
  | idle hfr hf hnone => exact absurd hf (h.not_idle halive hfr hnone)
  | yieldNext hfr hsome =>
      exact h.yieldStep hfr rfl rfl rfl fun hnone => absurd (hsome.symm.trans hnone) (by simp)
  | yieldRunnable hfr hsome =>
      exact h.yieldStep hfr rfl rfl rfl fun hnone => absurd (hsome.symm.trans hnone) (by simp)
  | yieldClear hfr => exact h.yieldStep hfr rfl rfl rfl fun _ => .inl rfl
  | yieldSave c hfr => exact h.yieldStep hfr rfl rfl rfl fun _ => .inr rfl
  | park => exact h.onBoot rfl fun b => by simp
  | schedNext _ hcur => exact h.onBoot hcur (hpage hcur)
  | schedExit _ hcur => exact h.onBoot hcur (hpage hcur)
  | schedRunning _ hcur => exact h.onBoot hcur (hpage hcur)
  | schedCurrent _ hcur => exact h.onBoot hcur (hpage hcur)
  | schedSave _ _ hcur => exact h.onBoot hcur (hpage hcur)
  | dispatch hfr _ hsome hstack hfs =>
      refine h.dispatch hok hfr hsome hstack ?_ rfl rfl rfl rfl rfl
      rcases hfs with ⟨hnew, hrun, _, _, _, hempty⟩ | ⟨l, hl, hrun, _, hold⟩
      · exact .inl ⟨hnew, hrun, hempty⟩
      · exact .inr ⟨l, hl, hrun, hold⟩
  | forkretNext hfr hsome hpc =>
      refine h.forkretStep hfr rfl rfl rfl (by simp [setFrames, hsome]) ?_
      rcases hpc with ⟨rfl, rfl⟩ | ⟨rfl, rfl⟩
      · rintro (⟨hentry, _⟩ | ⟨_, hk⟩)
        · exact absurd hentry (by simp)
        · exact .inr ⟨.inl rfl, hk⟩
      · exact fun hexp => absurd hexp (not_exposed (by simp) (by simp))
  | forkretNoEntry hfr hsome =>
      exact h.forkretStep hfr rfl rfl rfl (by simp [setFrames, hsome]) fun hexp =>
        absurd hexp (not_exposed (by simp) (by simp))
  | forkretZombie hfr hsome =>
      exact h.forkretStep hfr rfl rfl rfl (by simp [setFrames, setState, setProc, hsome]) fun hexp =>
        absurd hexp (not_exposed (by simp) (by simp))
  | @forkretCall k rest v hfr hsome =>
      have hentry := entry_of_call hs.1.1 hfr hsome
      have hrest : s.cur ≠ .boot → rest = [] := by
        intro hne
        cases h.top hne hfr with
        | forkret => rfl
      refine h.move rfl rfl ?_ (fun _ hnone => absurd (hsome.symm.trans hnone) (by simp)) ?_
      · intro hne
        rw [hrest hne]
        exact .entry
      · intro hne _
        refine h.sieSet hne (.inr ⟨.inr ?_, k, hsome, hentry⟩)
        rw [hfr, hrest hne]
  | @forkretYield k rest v hfr hsome =>
      have hrest : s.cur ≠ .boot → rest = [] := by
        intro hne
        cases h.top hne hfr with
        | forkret => rfl
      refine h.move rfl rfl ?_ (fun _ hnone => absurd (hsome.symm.trans hnone) (by simp)) ?_
      · intro hne
        rw [hrest hne]
        exact .ending ..
      · intro hne hexp
        rw [hrest hne] at hexp
        rcases hexp with ⟨hentry, _⟩ | ⟨hf | hf, _⟩ <;> simp at *
  | createNext hfr => exact h.createStep hfr rfl rfl (.inr ⟨_, rfl⟩) rfl rfl
  | createFill hfr => exact h.createStep hfr rfl rfl (.inr ⟨_, rfl⟩) rfl rfl
  | createDone hfr => exact h.createStep hfr rfl rfl (.inl rfl) rfl rfl
  | alloc hfr => exact h.createStep hfr rfl rfl (.inr ⟨_, rfl⟩) rfl rfl
  | @returns f rest a v hfr hf =>
      cases hf with
      | createFull => exact h.createStep hfr rfl rfl (.inl rfl) rfl rfl
      | createFailed => exact h.createStep hfr rfl rfl (.inl rfl) rfl rfl
      | yield p hsome =>
          refine h.move rfl rfl (fun hne => (h.top hne hfr).rest.1)
            (fun _ hnone => absurd (hsome.symm.trans hnone) (by simp)) ?_
          intro hne hexp
          rcases (h.top hne hfr).rest with ⟨_, htest, hcall⟩
          rcases hexp with ⟨hentry, htrap⟩ | ⟨hf | hf, _⟩
          · refine h.sieSet hne (.inl ?_)
            rw [hfr]
            exact ⟨by simpa using hentry, by simpa using htrap⟩
          · exact absurd hf htest
          · exact absurd hf hcall
  | @trap k b rest v hfr hsome =>
      have htrap : s.cur ≠ .boot → b = true ∧ rest = [.entry, .forkret .inEntry] := by
        intro hne
        cases h.top hne hfr with
        | trap => exact ⟨rfl, rfl⟩
      refine h.move rfl rfl ?_ (fun _ hnone => absurd (hsome.symm.trans hnone) (by simp)) fun hne _ => (htrap hne).1
      intro hne
      rw [(htrap hne).2]
      exact .entry
  | @callYield k rest hfr hsome =>
      have hrest : s.cur ≠ .boot → rest = [.forkret .inEntry] := by
        intro hne
        cases h.top hne hfr with
        | entry => rfl
      refine h.move rfl rfl ?_ (fun _ hnone => absurd (hsome.symm.trans hnone) (by simp)) ?_
      · intro hne
        rw [hrest hne]
        exact .yield ..
      · intro hne _
        refine h.sieSet hne (.inl ?_)
        rw [hfr, hrest hne]
        simp
  | @callCreate r f rest hfr hf =>
      have hrest : s.cur ≠ .boot → f = .entry ∧ rest = [.forkret .inEntry] := by
        intro hne
        have htidy := h.top hne hfr
        rcases hf with rfl | ⟨rfl, _⟩
        · cases htidy with
          | entry => exact ⟨rfl, rfl⟩
        · cases htidy
      refine h.move rfl rfl ?_ ?_ ?_
      · intro hne
        rw [(hrest hne).1, (hrest hne).2]
        exact .create ..
      · intro hne hnone
        refine absurd hnone (h.hasCurrent hne hfr ?_ ?_) <;> simp [(hrest hne).1]
      · intro hne _
        refine h.sieSet hne (.inl ?_)
        rw [hfr, (hrest hne).1, (hrest hne).2]
        simp
  | @setSie b => exact absurd rfl (hs.2 b)
  | @entryReturns k rest hfr hsome =>
      have hrest : s.cur ≠ .boot → rest = [] := by
        intro hne
        cases h.top hne hfr with
        | entry => rfl
      refine h.move rfl rfl ?_ (fun _ hnone => absurd (hsome.symm.trans hnone) (by simp)) ?_
      · intro hne
        rw [hrest hne]
        exact .forkret _
      · intro hne hexp
        rw [hrest hne] at hexp
        exact absurd hexp (not_exposed (by simp) (by simp))
  | callScheduler _ hcur => exact h.onBoot hcur (hpage hcur)
  | interrupt hsie =>
      rcases hs.1.2 rfl with ⟨hcur, rest, hfr⟩
      have hrest : rest = [.forkret .inEntry] := by
        cases h.top hcur hfr with
        | entry => rfl
      refine h.move rfl rfl ?_ ?_ ?_
      · intro _
        rw [hfr, hrest, hsie]
        exact .preempted ..
      · intro hne hnone
        exact absurd hnone (h.hasCurrent hne hfr (by simp) (by simp))
      · rintro _ (⟨_, htrap⟩ | ⟨hf | hf, _⟩)
        · exact absurd (htrap s.sie) (by simp)
        · exact absurd hf (by simp)
        · exact absurd hf (by simp)

/-- Without interrupts, `SIE` stays set. -/
lemma Ready.stays_set {a : Act} (h : Ready s) (halive : Alive s) (hdoes : Does s a s') (ha : a ≠ .interrupt)
    (hb : ∀ b, a ≠ .setSie b) (hsie : s.sie = true) : s'.sie = true := by
  cases hdoes with
  | idle hfr hf hnone => exact absurd hf (h.not_idle halive hfr hnone)
  | @trap k b rest v hfr hsome =>
      rcases eq_or_ne s.cur .boot with hcur | hcur
      · rw [frames, hcur] at hfr
        exact absurd trivial (halive.bootTop _ _ hfr)
      · cases h.top hcur hfr with
        | trap => rfl
  | @setSie b => exact absurd rfl (hb b)
  | interrupt => exact absurd rfl ha
  | _ => exact hsie

end Step

lemma boot_ready : Ready (boot true) := ⟨fun _ => .inl rfl, fun _ _ => by simp_all [boot], fun _ _ => rfl⟩

/-- A step of a schedule in which no process is switched to with `SIE` at 0 that will not set it itself. -/
def GuardedStep (s : Kernel) (a : Act) (s' : Kernel) : Prop := PlainStep InEntry s a s' ∧ SwitchOk s

/-- **A run stays ready.** -/
lemma ready_of_run {ls : List Act} {s : Kernel} (h : Run GuardedStep (boot true) ls s) :
    (Wf s ∧ Alive s) ∧ Ready s := by
  refine h.invariant (P := fun s => (Wf s ∧ Alive s) ∧ Ready s) ?_ ⟨⟨boot_wf true, boot_alive true⟩, boot_ready⟩
  rintro t a t' ⟨hs, hok⟩ ⟨⟨hwf, halive⟩, hready⟩
  have hs' : Step Resumable t a t' := ⟨hs.1.1, fun ha => (hs.1.2 ha).resumable⟩
  exact ⟨⟨Step.wf ⟨hs.1.1, fun ha => (hs'.2 ha).atRest⟩ hwf, halive.step hwf hs'⟩, hready.step hwf halive hs hok⟩

/-- A run without interrupts is such a schedule. -/
lemma guarded_of_plain {ls : List Act} {s s' : Kernel} (h : Run (PlainStep fun _ => False) s ls s') :
    Wf s → Alive s → Ready s → s.sie = true → Run GuardedStep s ls s' := by
  induction h with
  | nil s => exact fun _ _ _ _ => .nil s
  | @cons s t s' a ls hs _ ih =>
      intro hwf halive hready hsie
      have hplain : PlainStep InEntry s a t := ⟨⟨hs.1.1, fun ha => (hs.1.2 ha).elim⟩, hs.2⟩
      have hok : SwitchOk s := fun _ _ _ => .inl hsie
      have hs' : Step Resumable s a t := ⟨hs.1.1, fun ha => (hs.1.2 ha).elim⟩
      have hdoes := does_of_step hwf hs.1.1
      refine .cons ⟨hplain, hok⟩ (ih ?_ (halive.step hwf hs') (hready.step hwf halive hplain hok) ?_)
      · exact Step.wf ⟨hs.1.1, fun ha => (hs'.2 ha).atRest⟩ hwf
      · exact hready.stays_set halive hdoes (fun ha => hs.1.2 ha) hs.2 hsie

end Kernel

open Kernel

/-- **Processes stay preemptible**, in every schedule that never switches to a new process, or to one that had called
`yield`, with `SIE` at 0: the code of a process runs with `SIE` set. -/
theorem preemptible {ls : List Act} {s : Kernel} (hrun : Run GuardedStep (boot true) ls s) (hown : InOwnCode s) :
    s.sie = true :=
  (ready_of_run hrun).2.sieSet hown.1 (.inl hown.2)

/-- A process in its entry function. -/
theorem preemptible_firstEntry : ∃ ls s, Run GuardedStep (boot true) ls s ∧ InOwnCode s ∧ s.sie = true := by
  rcases reaches_firstEntry (P := fun _ => False) 4096 (r := ⟨some 0, none⟩) rfl with ⟨ls, hrun⟩
  have hguarded := guarded_of_plain hrun (boot_wf true) (boot_alive true) boot_ready rfl
  have hown : InOwnCode (firstEntry 4096 ⟨some 0, none⟩) := by
    refine ⟨by simp [firstEntry], ?_⟩
    rw [firstEntry_frames]
    simp
  exact ⟨ls, _, hguarded, hown, preemptible hguarded hown⟩

/-- Two processes: a timer interrupt takes the first off the hart, and the second starts with `SIE` at 0. -/
theorem preemption_lost : ∃ ls s, Run (PlainStep InEntry) (boot true) ls s ∧ InOwnCode s ∧ s.sie = false := by
  have hentry : InEntry pairFirst := ⟨by simp [pairFirst, called, dispatched, setFrames], _, rfl⟩
  rcases reaches_pairDispatch.trans (reaches_pairSecond hentry) with ⟨ls, hrun⟩
  have hfr : pairSecond.frames = [.entry, .forkret .inEntry] := rfl
  refine ⟨ls, pairSecond, hrun, ⟨by simp [pairSecond, called, dispatched, setFrames], ?_⟩, rfl⟩
  rw [hfr]
  simp

end NetStack
