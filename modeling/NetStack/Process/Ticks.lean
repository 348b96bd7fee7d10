import NetStack.Process.MachineTrap

/-!
# Ticks and the clock

`MachineTrap` says what the two traps of the timer do to the hart; here the clock runs.  The platform compares `mtime`
with `mtimecmp`, so the machine timer interrupt comes no earlier than the deadline of the last `set_timer`.  The
supervisor calls `set_timer` at two places: once in `main`, and in `handle_timer_interrupt`, each time before it lets
the next tick in.  Between the two instructions of `set_timer` that read the clock and make the call, time passes.

`TickInv` has one case for every place the supervisor can be at.  `ticks_spaced`: ticks are at least ten million cycles
apart, and none of them is lost or seen twice.
-/

namespace NetStack

open ByteMem Riscv Transition

/-- What `main` passes to `set_timer`, and what `handle_timer_interrupt` does. -/
def firstInterval : ℕ := 1000000
def nextInterval : ℕ := 10000000

/-- Where the supervisor is. -/
inductive TickPhase
  /-- In `main`, before the call of `set_timer`. -/
  | boot
  /-- In `handle_timer_interrupt`, before its call. -/
  | handling
  /-- In `set_timer`, which has read the clock; the deadline is in `a0`. -/
  | calling (deadline : ℕ)
  | free
  deriving DecidableEq, Repr

/-- The hart and the clock.  `ticks` has the time of every machine timer interrupt, the last one first, and `taken` is
the number of supervisor timer interrupts. -/
structure TickSys where
  hart : MHart
  mtime : ℕ
  phase : TickPhase
  ticks : List ℕ
  taken : ℕ

/-- The supervisor at work.  The page tables do not map the timer (`KernelMap`), so `mtimecmp` stays. -/
structure TickQuiet (h h' : MHart) : Prop extends SupervisorStep h h' where
  timer : load h'.mem mtimecmp = load h.mem mtimecmp

/-- The interval of the call that comes next. -/
def TickPhase.interval : TickPhase → Option ℕ
  | .boot => some firstInterval
  | .handling => some nextInterval
  | .calling _ | .free => none

inductive TickEvent
  | clock
  | work
  | readTime
  | ecall
  | timer
  | trap
  deriving DecidableEq, Repr

inductive TickStep : TickSys → TickEvent → TickSys → Prop
  | clock {s : TickSys} {t : ℕ} (hle : s.mtime ≤ t) : TickStep s .clock { s with mtime := t }
  | work {s : TickSys} {h : MHart} (hphase : ∀ d, s.phase ≠ .calling d) (hs : TickQuiet s.hart h) :
      TickStep s .work { s with hart := h }
  | readTime {s : TickSys} {h : MHart} {interval : ℕ} (hcall : s.phase.interval = some interval)
      (hs : TickQuiet s.hart h) (ha0 : h.reg .a0 = BitVec.ofNat 64 s.mtime + BitVec.ofNat 64 interval)
      (ha7 : h.reg .a7 = 0) : TickStep s .readTime { s with hart := h, phase := .calling (s.mtime + interval) }
  | ecall {s : TickSys} {h : MHart} {d : ℕ} (hphase : s.phase = .calling d)
      (hret : Returns mtrap (s.hart.trap causeEcall) h) : TickStep s .ecall { s with hart := h, phase := .free }
  /-- `MTIE` is set and the comparator of the platform has raised `MTIP`. -/
  | timer {s : TickSys} {h : MHart} (harmed : mtie s.hart = true) (hdue : (load s.hart.mem mtimecmp).toNat ≤ s.mtime)
      (hret : Returns mtrap (s.hart.trap causeTimer) h) :
      TickStep s .timer { s with hart := h, ticks := s.mtime :: s.ticks }
  /-- `trap_vector` is entered.  From there to the call of `set_timer`, `SIE` is clear. -/
  | trap {s : TickSys} {h : MHart} (hphase : s.phase = .free) (hpending : stip s.hart = true)
      (hs : TickQuiet s.hart h) : TickStep s .trap { s with hart := h, phase := .handling, taken := s.taken + 1 }

def tickStart (L : MLayout) (g : MHart) (start : ℕ) : TickSys := ⟨startHart L g, start, .boot, [], 0⟩

/-! ## The invariant -/

/-- All ticks so far have been taken, and none came after `t`, which is late enough for the next one. -/
structure AllTaken (start t : ℕ) (s : TickSys) : Prop where
  count : s.ticks.length = s.taken
  last : ∀ a ∈ s.ticks.head?, a + nextInterval ≤ t
  first : start + firstInterval ≤ t

/-- **Where the timer stands**, for each place of the supervisor. -/
def TickCase (start : ℕ) (s : TickSys) : TickPhase → Prop
  | .boot => mtie s.hart = false ∧ s.ticks = [] ∧ s.taken = 0
  | .handling => mtie s.hart = false ∧ stip s.hart = true ∧ s.ticks.length = s.taken ∧ s.ticks ≠ []
  | .calling d => mtie s.hart = false ∧ s.hart.reg .a0 = BitVec.ofNat 64 d ∧ s.hart.reg .a7 = 0 ∧
      d ≤ s.mtime + nextInterval ∧ AllTaken start d s
  | .free => mtie s.hart = true ∧ stip s.hart = false ∧ AllTaken start (load s.hart.mem mtimecmp).toNat s ∨
      mtie s.hart = false ∧ stip s.hart = true ∧ s.ticks.length = s.taken + 1

structure TickInv (L : MLayout) (start : ℕ) (s : TickSys) : Prop where
  ready : MReady L s.hart
  spaced : s.ticks.IsChain fun b a => a + nextInterval ≤ b
  between : ∀ a ∈ s.ticks, start + firstInterval ≤ a ∧ a ≤ s.mtime
  started : start ≤ s.mtime
  phase : TickCase start s s.phase

section Step

variable {L : MLayout} {start : ℕ} {s s' : TickSys} {e : TickEvent} {h : MHart}

lemma AllTaken.mono {t t' : ℕ} (ht : AllTaken start t s) (hcount : s'.ticks.length = s'.taken)
    (hticks : s'.ticks = s.ticks) (hle : t ≤ t') : AllTaken start t' s' :=
  ⟨hcount, fun a ha => (ht.last a (hticks ▸ ha)).trans hle, ht.first.trans hle⟩

lemma startHart_mtie (L : MLayout) (g : MHart) : mtie (startHart L g) = false := by
  have hmie : (execOps (startCode L) g).mcsr .mie = 0 := rfl
  rw [mtie, startHart]
  generalize execOps (startCode L) g = f at hmie
  rw [MHart.mret_mcsr _ (by decide), hmie]
  exact BitVec.getLsbD_zero

lemma tickStart_inv (L : MLayout) (g : MHart) (start : ℕ) : TickInv L start (tickStart L g start) :=
  ⟨startHart_ready L g, .nil, fun _ ha => absurd ha List.not_mem_nil, le_rfl, startHart_mtie L g, rfl, rfl⟩

lemma TickQuiet.ready (hs : TickQuiet s.hart h) (hr : MReady L s.hart) : MReady L h :=
  ⟨hs.mode.trans hr.mode, hs.mtvec.trans hr.mtvec, hs.mscratch.trans hr.mscratch⟩

/-- **Supervisor work** is nothing to the timer, but for `a0` and `a7`. -/
lemma TickInv.work (hi : TickInv L start s) (hphase : ∀ d, s.phase ≠ .calling d) (hs : TickQuiet s.hart h) :
    TickInv L start { s with hart := h } := by
  refine ⟨hs.ready hi.ready, hi.spaced, hi.between, hi.started, ?_⟩
  have hcase := hi.phase
  show TickCase start { s with hart := h } s.phase
  cases hp : s.phase with
  | boot =>
      rw [hp] at hcase
      exact ⟨hs.mtie.trans hcase.1, hcase.2⟩
  | handling =>
      rw [hp] at hcase
      exact ⟨hs.mtie.trans hcase.1, hs.stip.trans hcase.2.1, hcase.2.2⟩
  | calling d => exact absurd hp (hphase d)
  | free =>
      rw [hp] at hcase
      rcases hcase with ⟨harmed, hclear, hall⟩ | ⟨hoff, hpending, hcount⟩
      · refine .inl ⟨hs.mtie.trans harmed, hs.stip.trans hclear, ?_⟩
        show AllTaken start (load h.mem mtimecmp).toNat _
        rw [hs.timer]
        exact hall.mono hall.count rfl le_rfl
      · exact .inr ⟨hs.mtie.trans hoff, hs.stip.trans hpending, hcount⟩

lemma TickInv.clock {t : ℕ} (hi : TickInv L start s) (hle : s.mtime ≤ t) : TickInv L start { s with mtime := t } := by
  refine ⟨hi.ready, hi.spaced, fun a ha => ⟨(hi.between a ha).1, (hi.between a ha).2.trans hle⟩,
    hi.started.trans hle, ?_⟩
  have hcase := hi.phase
  show TickCase start { s with mtime := t } s.phase
  cases hp : s.phase with
  | boot =>
      rw [hp] at hcase
      exact hcase
  | handling =>
      rw [hp] at hcase
      exact hcase
  | calling d =>
      rw [hp] at hcase
      obtain ⟨hoff, ha0, ha7, hd, hall⟩ := hcase
      exact ⟨hoff, ha0, ha7, hd.trans (Nat.add_le_add_right hle _), hall.mono hall.count rfl le_rfl⟩
  | free =>
      rw [hp] at hcase
      exact hcase.imp (fun h => ⟨h.1, h.2.1, h.2.2.mono h.2.2.count rfl le_rfl⟩) id

/-- The clock is read: all ticks are in the past. -/
lemma TickInv.readTime {interval : ℕ} (hi : TickInv L start s) (hcall : s.phase.interval = some interval)
    (hs : TickQuiet s.hart h) (ha0 : h.reg .a0 = BitVec.ofNat 64 s.mtime + BitVec.ofNat 64 interval)
    (ha7 : h.reg .a7 = 0) : TickInv L start { s with hart := h, phase := .calling (s.mtime + interval) } := by
  refine ⟨hs.ready hi.ready, hi.spaced, hi.between, hi.started, ?_⟩
  have hcase := hi.phase
  have hdeadline : h.reg .a0 = BitVec.ofNat 64 (s.mtime + interval) := by rw [ha0, BitVec.ofNat_add]
  have hstarted := hi.started
  cases hp : s.phase with
  | boot =>
      rw [hp] at hcase hcall
      obtain rfl : firstInterval = interval := Option.some.inj hcall
      obtain ⟨hoff, hnone, hzero⟩ := hcase
      refine ⟨hs.mtie.trans hoff, hdeadline, ha7, Nat.add_le_add_left (by decide) _, ?_, ?_, ?_⟩
      · show s.ticks.length = s.taken
        rw [hnone, hzero, List.length_nil]
      · show ∀ a ∈ s.ticks.head?, _
        rw [hnone]
        exact fun a ha => absurd ha (by simp)
      · exact Nat.add_le_add_right hstarted _
  | handling =>
      rw [hp] at hcase hcall
      obtain rfl : nextInterval = interval := Option.some.inj hcall
      obtain ⟨hoff, hpending, hcount, hsome⟩ := hcase
      refine ⟨hs.mtie.trans hoff, hdeadline, ha7, le_rfl, hcount, fun a ha => ?_, ?_⟩
      · exact Nat.add_le_add_right (hi.between a (List.mem_of_mem_head? ha)).2 _
      · obtain ⟨a, ha⟩ := List.exists_mem_of_ne_nil _ hsome
        have hle := (hi.between a ha).1.trans (hi.between a ha).2
        exact hle.trans (Nat.le_add_right _ _)
  | calling d =>
      rw [hp] at hcall
      exact absurd hcall (by simp [TickPhase.interval])
  | free =>
      rw [hp] at hcall
      exact absurd hcall (by simp [TickPhase.interval])

/-- **The call**: the deadline gets into the comparator, if it has not wrapped around. -/
lemma TickInv.ecall {d : ℕ} (hi : TickInv L start s) (hwrap : s.mtime + nextInterval < 2 ^ 64)
    (hphase : s.phase = .calling d) (hret : Returns mtrap (s.hart.trap causeEcall) h) :
    TickInv L start { s with hart := h, phase := .free } := by
  have hcase := hi.phase
  rw [hphase] at hcase
  obtain ⟨-, ha0, -, hd, hall⟩ := hcase
  rcases hi.ready.returns hret with ⟨-, -, hdone⟩ | ⟨hcause, -⟩
  swap
  · exact absurd hcause (by decide)
  refine ⟨hi.ready.of_transparent hdone.toMTransparent, hi.spaced, hi.between, hi.started, .inl ⟨hdone.armed, ?_, ?_⟩⟩
  · have hone := hdone.oneOf
    rw [OneOf, hdone.armed] at hone
    exact Bool.eq_false_iff.mpr hone.symm
  · have htimer : (load h.mem mtimecmp).toNat = d := by
      rw [hdone.timer, ha0, BitVec.toNat_ofNat, Nat.mod_eq_of_lt (by omega)]
    show AllTaken start (load h.mem mtimecmp).toNat _
    rw [htimer]
    exact hall.mono hall.count rfl le_rfl

/-- **The tick**: its deadline has passed, so it is late enough. -/
lemma TickInv.timer (hi : TickInv L start s) (harmed : mtie s.hart = true)
    (hdue : (load s.hart.mem mtimecmp).toNat ≤ s.mtime) (hret : Returns mtrap (s.hart.trap causeTimer) h) :
    TickInv L start { s with hart := h, ticks := s.mtime :: s.ticks } := by
  rcases hi.ready.returns hret with ⟨hcause, -⟩ | ⟨-, hdone⟩
  · exact absurd hcause (by decide)
  have hcase := hi.phase
  have hoff : ∀ {p : Prop}, mtie s.hart = false → p := fun h => absurd (harmed.symm.trans h) (by decide)
  cases hp : s.phase with
  | boot =>
      rw [hp] at hcase
      exact hoff hcase.1
  | handling =>
      rw [hp] at hcase
      exact hoff hcase.1
  | calling d =>
      rw [hp] at hcase
      exact hoff hcase.1
  | free =>
      rw [hp] at hcase
      obtain ⟨-, -, hall⟩ := hcase.resolve_right fun h => hoff h.1
      refine ⟨hi.ready.of_transparent hdone.toMTransparent, ?_, ?_, hi.started, ?_⟩
      · exact List.isChain_cons.mpr ⟨fun a ha => (hall.last a ha).trans hdue, hi.spaced⟩
      · intro a ha
        rcases List.mem_cons.mp ha with rfl | ha
        · exact ⟨hall.first.trans hdue, le_rfl⟩
        · exact hi.between a ha
      · show TickCase start _ .free
        have hone := hdone.oneOf
        have hmtie : mtie h = false := by
          rw [mtie, hdone.mie, BitVec.getLsbD_and]
          simp [mieMtie]
        rw [OneOf, hmtie] at hone
        refine .inr ⟨hmtie, Bool.eq_true_of_not_eq_false hone.symm, ?_⟩
        rw [List.length_cons, hall.count]

lemma TickInv.trap (hi : TickInv L start s) (hphase : s.phase = .free) (hpending : stip s.hart = true)
    (hs : TickQuiet s.hart h) : TickInv L start { s with hart := h, phase := .handling, taken := s.taken + 1 } := by
  have hcase := hi.phase
  rw [hphase] at hcase
  rcases hcase with ⟨-, hclear, -⟩ | ⟨hoff, -, hcount⟩
  · exact absurd (hpending.symm.trans hclear) (by decide)
  · refine ⟨hs.ready hi.ready, hi.spaced, hi.between, hi.started, hs.mtie.trans hoff, hs.stip.trans hpending, hcount, ?_⟩
    rintro (hnil : s.ticks = [])
    rw [hnil] at hcount
    exact absurd hcount (by simp)

/-- **A step.** -/
lemma TickStep.inv (hstep : TickStep s e s') (hi : TickInv L start s) (hwrap : s'.mtime + nextInterval < 2 ^ 64) :
    TickInv L start s' := by
  cases hstep with
  | clock hle => exact hi.clock hle
  | work hphase hs => exact hi.work hphase hs
  | readTime hcall hs ha0 ha7 => exact hi.readTime hcall hs ha0 ha7
  | ecall hphase hret => exact hi.ecall hwrap hphase hret
  | timer harmed hdue hret => exact hi.timer harmed hdue hret
  | trap hphase hpending hs => exact hi.trap hphase hpending hs

lemma TickStep.mtime_le (hstep : TickStep s e s') : s.mtime ≤ s'.mtime := by
  cases hstep with
  | clock hle => exact hle
  | _ => exact le_rfl

/-- **A run** in which the clock does not come near its end. -/
lemma Run.tickInv {es : List TickEvent} (hrun : Run TickStep s es s') (hi : TickInv L start s)
    (hwrap : s'.mtime + nextInterval < 2 ^ 64) : TickInv L start s' := by
  have hall := hrun.invariant (P := fun t => t.mtime + nextInterval < 2 ^ 64 → TickInv L start t)
    fun t _ t' hstep ht hlt => hstep.inv (ht ((Nat.add_le_add_right hstep.mtime_le _).trans_lt hlt)) hlt
  exact hall (fun _ => hi) hwrap

/-- Times that are `gap` apart, the last one first. -/
lemma length_of_spaced {gap lo h : ℕ} : ∀ {l : List ℕ}, (l.IsChain fun b a => a + gap ≤ b) →
    (∀ a ∈ l, lo ≤ a) → (∀ a ∈ l.head?, a ≤ h) → l ≠ [] → lo + (l.length - 1) * gap ≤ h
  | [], _, _, _, hne => absurd rfl hne
  | [a], _, hlo, hhi, _ => by
      have hle := (hlo a List.mem_cons_self).trans (hhi a rfl)
      simpa using hle
  | b :: a :: l, hchain, hlo, hhi, _ => by
      rw [List.isChain_cons_cons] at hchain
      have ih := length_of_spaced (h := a) hchain.2 (fun x hx => hlo x (List.mem_cons_of_mem b hx))
        (fun x hx => (Option.mem_some_iff.mp hx).ge) (List.cons_ne_nil _ _)
      have hb := hhi b rfl
      rw [List.length_cons, Nat.add_sub_cancel] at ih ⊢
      rw [List.length_cons, Nat.add_mul, Nat.one_mul]
      omega

/-- Ticks and supervisor interrupts, when the timer stands as it should. -/
lemma TickInv.count (hi : TickInv L start s) :
    s.ticks.length = s.taken + if s.phase = .free ∧ stip s.hart = true then 1 else 0 := by
  have hcase := hi.phase
  cases hp : s.phase with
  | boot =>
      rw [hp] at hcase
      rw [if_neg fun h => nomatch h.1]
      exact (congrArg List.length hcase.2.1).trans hcase.2.2.symm
  | handling =>
      rw [hp] at hcase
      rw [if_neg fun h => nomatch h.1]
      exact hcase.2.2.1
  | calling d =>
      rw [hp] at hcase
      rw [if_neg fun h => nomatch h.1]
      exact hcase.2.2.2.2.count
  | free =>
      rw [hp] at hcase
      rcases hcase with ⟨-, hclear, hall⟩ | ⟨-, hpending, hcount⟩
      · rw [if_neg fun h => absurd (h.2.symm.trans hclear) (by decide), hall.count, Nat.add_zero]
      · rw [if_pos ⟨rfl, hpending⟩, hcount]

end Step

/-- **Ticks come in time, and none is lost.**  In every run from `Start.S` on in which the clock does not wrap around:
machine timer interrupts are at least ten million cycles apart, the first one a million cycles after the start, so
their number is bounded by the time; and the supervisor has taken as many timer interrupts, up to one that is pending
while it is free to take it. -/
theorem ticks_spaced (L : MLayout) (g : MHart) (start : ℕ) (es : List TickEvent) (s : TickSys)
    (hrun : Run TickStep (tickStart L g start) es s) (hwrap : s.mtime + nextInterval < 2 ^ 64) :
    (s.ticks.IsChain fun b a => a + nextInterval ≤ b) ∧ (∀ a ∈ s.ticks, start + firstInterval ≤ a ∧ a ≤ s.mtime) ∧
    (s.ticks ≠ [] → start + firstInterval + (s.ticks.length - 1) * nextInterval ≤ s.mtime) ∧
    s.ticks.length = s.taken + if s.phase = .free ∧ stip s.hart = true then 1 else 0 := by
  have hi := Run.tickInv hrun (tickStart_inv L g start) hwrap
  refine ⟨hi.spaced, hi.between, fun hne => ?_, hi.count⟩
  exact length_of_spaced hi.spaced (fun a ha => (hi.between a ha).1)
    (fun a ha => (hi.between a (List.mem_of_mem_head? ha)).2) hne

lemma tickQuiet_set (h : MHart) (r : Reg) (v : BitVec 64) : TickQuiet h (h.set r v) :=
  ⟨⟨rfl, rfl, rfl, rfl, rfl⟩, rfl⟩

/-- The hart with the deadline of the first call in `a0`. -/
def firstCall : MHart := (startHart sampleMLayout zeroHart).set .a0 (BitVec.ofNat 64 0 + BitVec.ofNat 64 firstInterval)

/-- The first tick, exactly a million cycles after the start. -/
theorem ticks_spaced_first : ∃ s, Run TickStep (tickStart sampleMLayout zeroHart 0)
    [.readTime, .ecall, .clock, .timer, .trap] s ∧ s.ticks = [firstInterval] ∧
    s.ticks.length = s.taken + if s.phase = .free ∧ stip s.hart = true then 1 else 0 := by
  have hquiet : TickQuiet (startHart sampleMLayout zeroHart) firstCall := tickQuiet_set _ _ _
  have hr := hquiet.ready (s := tickStart sampleMLayout zeroHart 0) (startHart_ready sampleMLayout zeroHart)
  have ha0 : firstCall.reg .a0 = BitVec.ofNat 64 firstInterval := by decide
  obtain ⟨h₁, hret₁⟩ : ∃ h₁, Returns mtrap (firstCall.trap causeEcall) h₁ :=
    ⟨_, (returns_iff hr.mscratch).mpr (.inl ⟨rfl, rfl, rfl⟩)⟩
  rcases hr.returns hret₁ with ⟨-, -, hd₁⟩ | ⟨hcause, -⟩
  swap
  · exact absurd hcause (by decide)
  have hr₁ := hr.of_transparent hd₁.toMTransparent
  have hdue : (load h₁.mem mtimecmp).toNat ≤ firstInterval := by
    rw [hd₁.timer, ha0]
    decide
  obtain ⟨h₂, hret₂⟩ : ∃ h₂, Returns mtrap (h₁.trap causeTimer) h₂ :=
    ⟨_, (returns_iff hr₁.mscratch).mpr (.inr ⟨rfl, rfl⟩)⟩
  rcases hr₁.returns hret₂ with ⟨hcause, -⟩ | ⟨-, hd₂⟩
  · exact absurd hcause (by decide)
  have hpending : stip h₂ = true := by
    rw [stip, hd₂.mip, BitVec.getLsbD_or]
    simp [mipStip]
  have hrun : Run TickStep (tickStart sampleMLayout zeroHart 0) [.readTime, .ecall, .clock, .timer, .trap]
      ⟨h₂, firstInterval, .handling, [firstInterval], 1⟩ :=
    .cons (.readTime rfl hquiet rfl rfl) <| .cons (.ecall rfl hret₁) <| .cons (.clock (Nat.zero_le firstInterval)) <|
      .cons (.timer hd₁.armed hdue hret₂) <| .cons (.trap rfl hpending ⟨⟨rfl, rfl, rfl, rfl, rfl⟩, rfl⟩) (.nil _)
  have hwrap : firstInterval + nextInterval < 2 ^ 64 := by decide
  exact ⟨_, hrun, rfl, (ticks_spaced sampleMLayout zeroHart 0 _ _ hrun hwrap).2.2.2⟩

end NetStack
