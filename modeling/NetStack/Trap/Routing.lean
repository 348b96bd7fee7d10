import NetStack.Process.MachinePanic
import NetStack.Trap.Vector

/-!
# Where traps go

`Start.S` delegates the three supervisor interrupts and all exceptions but the `ecall` of the supervisor, and leaves
`mie` empty; later `main` calls `trap_init` and then `enable_timer_interrupt`, and `mtrap_vector` sets and clears
`MTIE`.  That is all that ever decides which trap is taken.  A step is anything that can happen on the hart: any code
of the supervisor, which has no other way to those CSRs; the platform raising and dropping its interrupt lines; and any
trap that the architecture allows.

`TrapSys.Ready` is the invariant: `mie` has no bits but those of the two timers, and that of the supervisor's timer
only after `trap_init`.  `traps_routed`: in every run, whatever lines are up, the two timer interrupts are the only ones
taken, both have a handler that returns, and no exception gets past the table of `trap.c` but the three codes that the
architecture reserves.
-/

namespace NetStack.Trap

open ByteMem Riscv Transition EventLog

/-! ## The hart and its steps -/

/-- What `main` does that bears on traps, in its order. -/
inductive MainOp
  | trapInit
  | enableTimerInterrupt
  deriving DecidableEq, Repr

def mainOps : List MainOp := [.trapInit, .enableTimerInterrupt]

structure TrapSys where
  hart : MHart
  stvec : BitVec 64
  /-- What `main` has still to do. -/
  todo : List MainOp

inductive TrapEvent
  | main (op : MainOp)
  | kernel
  | clearSsip
  | lines
  | interrupt (i : ℕ) (level : Mode)
  | exception (code : ℕ) (level : Mode)
  deriving DecidableEq, Repr

/-- `SSIP` and `STIE`. -/
def sipSsip : BitVec 64 := 1 <<< 1
def sieStie : BitVec 64 := 1 <<< 5

/-- The bits of `mip` that software writes: `SSIP` and `STIP`.  The others are lines of the platform. -/
def softwareBits : BitVec 64 := 0x22

/-- The supervisor enters `trap_vector`, or whatever `stvec` holds. -/
def TrapSys.enter (s : TrapSys) (cause : BitVec 64) : TrapSys :=
  { s with hart := { s.hart with toMachine := s.hart.toMachine.trap s.stvec cause } }

inductive TrapStep (trapVector : BitVec 64) : TrapSys → TrapEvent → TrapSys → Prop
  /-- Any code of the kernel and of its processes: registers, memory, `pc` and the supervisor's CSRs. -/
  | kernel {s : TrapSys} (m : Machine) : TrapStep trapVector s .kernel { s with hart := { s.hart with toMachine := m } }
  | trapInit {s : TrapSys} {todo : List MainOp} (htodo : s.todo = .trapInit :: todo) :
      TrapStep trapVector s (.main .trapInit) { s with stvec := trapVector, todo := todo }
  | enableTimerInterrupt {s : TrapSys} {todo : List MainOp} (htodo : s.todo = .enableTimerInterrupt :: todo) :
      TrapStep trapVector s (.main .enableTimerInterrupt) { s with hart := s.hart.setSie sieStie, todo := todo }
  /-- `csrc sip, SSIP` of `handle_software_interrupt`. -/
  | clearSsip {s : TrapSys} : TrapStep trapVector s .clearSsip { s with hart := s.hart.clearSip sipSsip }
  | lines {s : TrapSys} (v : BitVec 64) : TrapStep trapVector s .lines
      { s with hart := s.hart.setMcsr .mip (s.hart.mcsr .mip &&& softwareBits ||| v &&& ~~~ softwareBits) }
  | interruptSupervisor {s : TrapSys} {i : ℕ} (hi : s.hart.InterruptsSupervisor i) :
      TrapStep trapVector s (.interrupt i .supervisor) (s.enter (interruptCause i))
  | interruptMachine {s : TrapSys} {i : ℕ} {h : MHart} (hi : s.hart.InterruptsMachine i)
      (hret : Returns mtrap (s.hart.trap (interruptCause i)) h) :
      TrapStep trapVector s (.interrupt i .machine) { s with hart := h }
  | exceptionSupervisor {s : TrapSys} {code : ℕ} (hd : s.hart.Delegates code) :
      TrapStep trapVector s (.exception code .supervisor) (s.enter (BitVec.ofNat 64 code))
  | exceptionMachine {s : TrapSys} {code : ℕ} {h : MHart} (hlt : code < 64) (hd : ¬ s.hart.Delegates code)
      (hret : Returns mtrap (s.hart.trap (BitVec.ofNat 64 code)) h) :
      TrapStep trapVector s (.exception code .machine) { s with hart := h }

/-- When `Start.S` has done its part. -/
def trapStart (L : MLayout) (stvec : BitVec 64) (g : MHart) : TrapSys := ⟨startHart L g, stvec, mainOps⟩

/-! ## The invariant -/

/-- `medeleg` and `mideleg`, as `Start.S` sets them. -/
def delegatedExceptions : BitVec 64 := 0xfdff
def delegatedInterrupts : BitVec 64 := 0x222

/-- `STIE` and `MTIE`. -/
def stie : ℕ := 5
def mtieBit : ℕ := 7

/-- **Who may interrupt.** -/
structure TrapSys.Ready (L : MLayout) (trapVector : BitVec 64) (s : TrapSys) : Prop extends MReady L s.hart where
  exceptions : s.hart.mcsr .medeleg = delegatedExceptions
  interrupts : s.hart.mcsr .mideleg = delegatedInterrupts
  enabled : ∀ i, s.hart.bit .mie i = true → i = stie ∨ i = mtieBit
  todo : s.todo <:+ mainOps
  stvec : .trapInit ∉ s.todo → s.stvec = trapVector
  late : s.hart.bit .mie stie = true → .enableTimerInterrupt ∉ s.todo

variable {L : MLayout} {trapVector : BitVec 64} {s s' : TrapSys} {e : TrapEvent}

/-- The bits of a constant. -/
lemma getLsbD_iff {v : BitVec 64} {p : ℕ → Prop} [DecidablePred p] (hlow : ∀ i < 64, v.getLsbD i = decide (p i))
    (hlt : ∀ i, p i → i < 64) (i : ℕ) : v.getLsbD i = true ↔ p i := by
  by_cases hi : i < 64
  · rw [hlow i hi, decide_eq_true_iff]
  · rw [BitVec.getLsbD_of_ge v i (by omega)]
    exact ⟨fun hfalse => absurd hfalse Bool.false_ne_true, fun hp => absurd (hlt i hp) hi⟩

lemma mieMtie_bit (i : ℕ) : mieMtie.getLsbD i = true ↔ i = mtieBit :=
  getLsbD_iff (p := fun j => j = mtieBit) (by decide) (fun _ hj => hj.trans_lt (by decide)) i

lemma sieStie_bit (i : ℕ) : sieStie.getLsbD i = true ↔ i = stie :=
  getLsbD_iff (p := fun j => j = stie) (by decide) (fun _ hj => hj.trans_lt (by decide)) i

/-- All exceptions but the `ecall` of the supervisor. -/
lemma delegatedExceptions_bit (code : ℕ) :
    delegatedExceptions.getLsbD code = true ↔ code < 16 ∧ code ≠ excEnvCallS :=
  getLsbD_iff (p := fun c => c < 16 ∧ c ≠ excEnvCallS) (by decide) (fun _ hc => hc.1.trans (by decide)) code

lemma startHart_mcsr (L : MLayout) (g : MHart) : (startHart L g).mcsr .medeleg = delegatedExceptions ∧
    (startHart L g).mcsr .mideleg = delegatedInterrupts ∧ (startHart L g).mcsr .mie = 0 := by
  have hmedeleg : (execOps (startCode L) g).mcsr .medeleg = delegatedExceptions := rfl
  have hmideleg : (execOps (startCode L) g).mcsr .mideleg = delegatedInterrupts := rfl
  have hmie : (execOps (startCode L) g).mcsr .mie = 0 := rfl
  rw [startHart]
  generalize execOps (startCode L) g = f at hmedeleg hmideleg hmie
  rw [MHart.mret_mcsr _ (by decide), MHart.mret_mcsr _ (by decide), MHart.mret_mcsr _ (by decide)]
  exact ⟨hmedeleg, hmideleg, hmie⟩

lemma trapStart_ready (L : MLayout) (trapVector stvec : BitVec 64) (g : MHart) :
    (trapStart L stvec g).Ready L trapVector := by
  obtain ⟨hmedeleg, hmideleg, hmie⟩ := startHart_mcsr L g
  have hoff : ∀ i, (trapStart L stvec g).hart.bit .mie i = false := fun i => by
    rw [MHart.bit, trapStart, hmie]
    exact BitVec.getLsbD_zero
  refine ⟨startHart_ready L g, hmedeleg, hmideleg, fun i hi => ?_, List.suffix_rfl, fun hnot => ?_, fun hon => ?_⟩
  · exact absurd hi (by rw [hoff i]; exact Bool.false_ne_true)
  · exact absurd List.mem_cons_self hnot
  · exact absurd hon (by rw [hoff stie]; exact Bool.false_ne_true)

/-- Only the supervisor's part of the hart changes. -/
lemma TrapSys.Ready.machine (hr : s.Ready L trapVector) (m : Machine) :
    ({ s with hart := { s.hart with toMachine := m } } : TrapSys).Ready L trapVector :=
  ⟨⟨hr.mode, hr.mtvec, hr.mscratch⟩, hr.exceptions, hr.interrupts, hr.enabled, hr.todo, hr.stvec, hr.late⟩

/-- Only `mip` changes. -/
lemma TrapSys.Ready.mip (hr : s.Ready L trapVector) (v : BitVec 64) :
    ({ s with hart := s.hart.setMcsr .mip v } : TrapSys).Ready L trapVector := by
  have hne : ∀ {c : MCsr}, c ≠ .mip → (s.hart.setMcsr .mip v).mcsr c = s.hart.mcsr c := s.hart.setMcsr_of_ne v
  have hmie : ∀ i, (s.hart.setMcsr .mip v).bit .mie i = s.hart.bit .mie i := fun i => by
    rw [MHart.bit, hne (by decide)]
    rfl
  refine ⟨⟨hr.mode, (hne (by decide)).trans hr.mtvec, (hne (by decide)).trans hr.mscratch⟩,
    (hne (by decide)).trans hr.exceptions, (hne (by decide)).trans hr.interrupts, fun i hi => ?_, hr.todo, hr.stvec,
    fun hon => ?_⟩
  · exact hr.enabled i ((hmie i).symm.trans hi)
  · exact hr.late ((hmie stie).symm.trans hon)

/-- In `mie`, `mtrap_vector` sets and clears `MTIE` only. -/
lemma mtrap_mie {h h' : MHart} {cause : BitVec 64} (hr : MReady L h) (hret : Returns mtrap (h.trap cause) h') {i : ℕ}
    (hi : i ≠ mtieBit) : h'.bit .mie i = h.bit .mie i := by
  have hmask : mieMtie.getLsbD i = false := Bool.eq_false_iff.mpr fun hset => hi ((mieMtie_bit i).mp hset)
  rcases hr.returns hret with ⟨-, -, hd⟩ | ⟨-, hd⟩
  · rw [MHart.bit, hd.mie, BitVec.getLsbD_or, hmask, Bool.or_false]
    rfl
  · rw [MHart.bit, hd.mie, BitVec.getLsbD_and, BitVec.getLsbD_not, hmask, Bool.not_false, Bool.and_true]
    by_cases hlt : i < 64
    · rw [decide_eq_true hlt, Bool.and_true]
      rfl
    · rw [MHart.bit, BitVec.getLsbD_of_ge _ _ (by omega), Bool.false_and]

/-- A trap to machine mode that returns. -/
lemma TrapSys.Ready.mtrap {h : MHart} {cause : BitVec 64} (hr : s.Ready L trapVector)
    (hret : Returns mtrap (s.hart.trap cause) h) : ({ s with hart := h } : TrapSys).Ready L trapVector := by
  have hready : MReady L h := by
    rcases hr.toMReady.returns hret with ⟨-, -, hd⟩ | ⟨-, hd⟩
    · exact hr.toMReady.of_transparent hd.toMTransparent
    · exact hr.toMReady.of_transparent hd.toMTransparent
  refine ⟨hready, (mtrap_mcsr hret (by decide)).trans hr.exceptions, (mtrap_mcsr hret (by decide)).trans hr.interrupts,
    fun i hi => ?_, hr.todo, hr.stvec, fun hon => ?_⟩
  · by_cases hm : i = mtieBit
    · exact .inr hm
    · exact hr.enabled i ((mtrap_mie hr.toMReady hret hm).symm.trans hi)
  · exact hr.late ((mtrap_mie hr.toMReady hret (by decide)).symm.trans hon)

/-- How far `main` can be. -/
lemma todo_cases {todo : List MainOp} (h : todo <:+ mainOps) :
    todo = mainOps ∨ todo = [.enableTimerInterrupt] ∨ todo = [] := by
  rwa [mainOps, List.suffix_cons_iff, List.suffix_cons_iff, List.suffix_nil] at h

/-- Nothing comes after `enable_timer_interrupt`. -/
lemma enable_last {todo : List MainOp} (h : .enableTimerInterrupt :: todo <:+ mainOps) : todo = [] := by
  rcases todo_cases h with h | h | h
  · exact absurd (List.cons.inj h).1 (by decide)
  · exact (List.cons.inj h).2
  · exact absurd h (List.cons_ne_nil _ _)

/-- **A step.** -/
lemma TrapStep.ready (hstep : TrapStep trapVector s e s') (hr : s.Ready L trapVector) : s'.Ready L trapVector := by
  cases hstep with
  | kernel m => exact hr.machine m
  | @trapInit todo htodo =>
      have hsuffix : todo <:+ mainOps := (List.suffix_cons _ _).trans (htodo ▸ hr.todo)
      refine ⟨hr.toMReady, hr.exceptions, hr.interrupts, hr.enabled, hsuffix, fun _ => rfl, fun hon hmem => ?_⟩
      exact hr.late hon (htodo ▸ List.mem_cons_of_mem _ hmem)
  | @enableTimerInterrupt todo htodo =>
      -- `trap_init` comes before it
      obtain rfl : todo = [] := enable_last (htodo ▸ hr.todo)
      have hne : ∀ {c : MCsr}, c ≠ .mie → (s.hart.setSie sieStie).mcsr c = s.hart.mcsr c :=
        s.hart.setMcsr_of_ne _
      refine ⟨⟨hr.mode, (hne (by decide)).trans hr.mtvec, (hne (by decide)).trans hr.mscratch⟩,
        (hne (by decide)).trans hr.exceptions, (hne (by decide)).trans hr.interrupts, fun i hi => ?_,
        List.nil_suffix, fun _ => hr.stvec ?_, fun _ => List.not_mem_nil⟩
      · rw [MHart.bit, MHart.setSie, MHart.setMcsr_self, BitVec.getLsbD_or, BitVec.getLsbD_and, Bool.or_eq_true,
          Bool.and_eq_true] at hi
        exact hi.elim (hr.enabled i) fun hnew => .inl ((sieStie_bit i).mp hnew.1)
      · rw [htodo]
        decide
  | clearSsip => exact hr.mip _
  | lines v => exact hr.mip _
  | interruptSupervisor hi => exact hr.machine _
  | interruptMachine hi hret => exact hr.mtrap hret
  | exceptionSupervisor hd => exact hr.machine _
  | exceptionMachine hlt hd hret => exact hr.mtrap hret

lemma Run.ready {es : List TrapEvent} (hrun : Run (TrapStep trapVector) s es s') (hr : s.Ready L trapVector) :
    s'.Ready L trapVector :=
  hrun.invariant (P := fun t => t.Ready L trapVector) (fun _ _ _ hstep ht => hstep.ready ht) hr

/-! ## Every trap finds its handler -/

/-- Codes that the architecture reserves, or that are raised in machine mode only; `exception_names` is null there. -/
def reservedCodes : List ℕ := [10, 11, 14]

/-- **Every trap that can come now** has its handler.  The two timer interrupts are handled and returned from; all
exceptions are delegated but the `ecall` of the supervisor, and reported if their code is one that the architecture
has; of the others, the call of `set_timer` is returned from. -/
structure Routed (trapVector : BitVec 64) (s : TrapSys) : Prop where
  mode : s.hart.mode = .supervisor
  machineInterrupt : ∀ i, s.hart.InterruptsMachine i →
    i = mtieBit ∧ ∃ h', Returns mtrap (s.hart.trap (interruptCause i)) h'
  supervisorInterrupt : ∀ i, s.hart.InterruptsSupervisor i → i = stie ∧ s.stvec = trapVector ∧
    ∀ (input : TimerInput) (ctx : TrapContext), ctx.scause = interruptCause i →
      (trapHandler input ctx).res = .ok () ∧ .yield ∈ (trapHandler input ctx).out
  delegates : ∀ code, s.hart.Delegates code ↔ code < 16 ∧ code ≠ excEnvCallS
  supervisorException : ∀ code, s.hart.Delegates code →
    ∀ (input : TimerInput) (ctx : TrapContext), ctx.scause = BitVec.ofNat 64 code →
      (ReportedSafely input ctx ↔ code ∉ reservedCodes)
  machineException : ∀ code < 64, ¬ s.hart.Delegates code →
    ((∃ h', Returns mtrap (s.hart.trap (BitVec.ofNat 64 code)) h') ↔ code = excEnvCallS ∧ s.hart.reg .a7 = 0)

lemma interruptCause_stie : interruptCause stie = timerCause := by decide

lemma interruptCause_mtie : interruptCause mtieBit = causeTimer := by decide

/-- The codes below 16 without a name are the reserved ones, as long as the `ecall` of the supervisor is not among
them. -/
lemma mem_exceptionCases_iff {code : ℕ} (hlt : code < 16) : code ∈ exceptionCases ↔ code ∉ reservedCodes := by
  revert code
  decide

lemma TrapSys.Ready.delegates_iff (hr : s.Ready L trapVector) (code : ℕ) :
    s.hart.Delegates code ↔ code < 16 ∧ code ≠ excEnvCallS := by
  have hbit : s.hart.bit .medeleg code = delegatedExceptions.getLsbD code := by rw [MHart.bit, hr.exceptions]
  constructor
  · intro hd
    exact (delegatedExceptions_bit code).mp (hbit.symm.trans hd.delegated)
  · intro hcode
    refine ⟨?_, hbit.trans ((delegatedExceptions_bit code).mpr hcode)⟩
    rw [hr.mode]
    decide

/-- A delegated exception has the top bit of `scause` clear. -/
lemma exception_flag {code : ℕ} (hlt : code < 16) : BitVec.ofNat 64 code &&& scauseIntrFlag = 0 := by
  have hall : ∀ c < 16, BitVec.ofNat 64 c &&& scauseIntrFlag = 0 := by decide
  exact hall code hlt

lemma ofNat_eq_causeEcall {code : ℕ} (hlt : code < 64) : BitVec.ofNat 64 code = causeEcall ↔ code = excEnvCallS := by
  rw [← BitVec.toNat_inj, BitVec.toNat_ofNat, Nat.mod_eq_of_lt (by omega)]
  rfl

lemma ofNat_ne_causeTimer {code : ℕ} (hlt : code < 64) : BitVec.ofNat 64 code ≠ causeTimer := by
  intro heq
  have hnat := congrArg BitVec.toNat heq
  rw [BitVec.toNat_ofNat, Nat.mod_eq_of_lt (by omega), show causeTimer.toNat = 2 ^ 63 + 7 from rfl] at hnat
  omega

/-- **What the invariant gives.** -/
lemma TrapSys.Ready.routed (hr : s.Ready L trapVector) : Routed trapVector s where
  mode := hr.mode
  machineInterrupt i hi := by
    have hown : delegatedInterrupts.getLsbD i = false := by
      have hown := hi.own
      rwa [MHart.bit, hr.interrupts] at hown
    rcases hr.enabled i hi.enabled with rfl | rfl
    · exact absurd hown (by decide)
    · refine ⟨rfl, _, (returns_iff hr.mscratch).mpr (.inr ⟨interruptCause_mtie, rfl⟩)⟩
  supervisorInterrupt i hi := by
    have hdelegated : delegatedInterrupts.getLsbD i = true := by
      have hdelegated := hi.delegated
      rwa [MHart.bit, hr.interrupts] at hdelegated
    rcases hr.enabled i hi.enabled with rfl | rfl
    · -- it was enabled after `trap_init`
      have hlate := hr.late hi.enabled
      have hinit : .trapInit ∉ s.todo := by
        rcases todo_cases hr.todo with h | h | h
        · exact absurd (by rw [h]; decide) hlate
        · rw [h]
          decide
        · rw [h]
          exact List.not_mem_nil
      refine ⟨rfl, hr.stvec hinit, fun input ctx hcause => ?_⟩
      obtain ⟨text, hout⟩ := trapHandler_timer input (hcause.trans interruptCause_stie)
      rw [hout]
      exact ⟨rfl, List.mem_append_right _ (List.mem_cons_of_mem _ List.mem_cons_self)⟩
    · exact absurd hdelegated (by decide)
  delegates := hr.delegates_iff
  supervisorException code hd input ctx hcause := by
    have hbit := (hr.delegates_iff code).mp hd
    have hnat : ctx.scause.toNat = code := by
      rw [hcause, BitVec.toNat_ofNat]
      omega
    have hflag : ctx.scause &&& scauseIntrFlag = 0 := hcause ▸ exception_flag hbit.1
    rw [reportedSafely_iff_named hflag, named_iff, hnat, mem_exceptionCases_iff hbit.1]
  machineException code hlt hd := by
    constructor
    · rintro ⟨h', hret⟩
      rcases (returns_iff hr.mscratch).mp hret with ⟨hcause, ha7, -⟩ | ⟨hcause, -⟩
      · exact ⟨(ofNat_eq_causeEcall hlt).mp hcause, ha7⟩
      · exact absurd hcause (ofNat_ne_causeTimer hlt)
    · rintro ⟨hcause, ha7⟩
      exact ⟨_, (returns_iff hr.mscratch).mpr (.inl ⟨(ofNat_eq_causeEcall hlt).mpr hcause, ha7, rfl⟩)⟩

/-- **Traps are routed.**  From `Start.S` on, in every run of kernel code, lines of the platform going up and down, and
traps: at every point, every trap that can be taken has its handler. -/
theorem traps_routed (L : MLayout) (trapVector stvec : BitVec 64) (g : MHart) (es : List TrapEvent) (s : TrapSys)
    (hrun : Run (TrapStep trapVector) (trapStart L stvec g) es s) : Routed trapVector s :=
  (Run.ready hrun (trapStart_ready L trapVector stvec g)).routed

/-! ## A tick gets through -/

lemma mtrap_armed {h h' : MHart} (hr : MReady L h) (hret : Returns mtrap (h.trap causeEcall) h') : mtie h' = true := by
  rcases hr.returns hret with ⟨-, -, hd⟩ | ⟨hcause, -⟩
  · exact hd.armed
  · exact absurd hcause (by decide)

lemma mtrap_pending {h h' : MHart} (hr : MReady L h) (hret : Returns mtrap (h.trap causeTimer) h') :
    h'.bit .mip stie = true := by
  rcases hr.returns hret with ⟨hcause, -⟩ | ⟨-, hd⟩
  · exact absurd hcause (by decide)
  · rw [MHart.bit, hd.mip, BitVec.getLsbD_or, Bool.or_eq_true]
    exact .inr (by decide)

/-- The call of `set_timer`, once `main` has enabled the timer. -/
lemma TrapSys.Ready.setTimer (hr : s.Ready L trapVector) (ha7 : s.hart.reg .a7 = 0)
    (hon : s.hart.bit .mie stie = true) : ∃ h, TrapStep trapVector s (.exception 9 .machine) { s with hart := h } ∧
      mtie h = true ∧ h.bit .mie stie = true := by
  have hcall : ¬ s.hart.Delegates 9 := fun hd => ((hr.delegates_iff 9).mp hd).2 rfl
  obtain ⟨h, hret⟩ := (hr.routed.machineException 9 (by decide) hcall).mpr ⟨rfl, ha7⟩
  exact ⟨h, .exceptionMachine (by decide) hcall hret, mtrap_armed hr.toMReady hret,
    (mtrap_mie hr.toMReady hret (by decide)).trans hon⟩

/-- The line of the timer comes up. -/
lemma TrapSys.Ready.timer (hr : s.Ready L trapVector) (harmed : mtie s.hart = true)
    (hon : s.hart.bit .mie stie = true) : ∃ h,
      Run (TrapStep trapVector) s [.lines, .interrupt mtieBit .machine] { s with hart := h } ∧
      h.bit .mip stie = true ∧ h.bit .mie stie = true := by
  have hlines := @TrapStep.lines trapVector s 0x80
  have hr' := hlines.ready hr
  have hmie : ∀ {v : BitVec 64} {i : ℕ}, (s.hart.setMcsr .mip v).bit .mie i = s.hart.bit .mie i := by
    intro v i
    rw [MHart.bit, MHart.setMcsr_of_ne _ _ (by decide)]
    rfl
  have hpending : (s.hart.setMcsr .mip (s.hart.mcsr .mip &&& softwareBits ||| 0x80 &&& ~~~ softwareBits)).bit .mip
      mtieBit = true := by
    rw [MHart.bit, MHart.setMcsr_self, BitVec.getLsbD_or, Bool.or_eq_true]
    exact .inr (by decide)
  generalize s.hart.mcsr .mip &&& softwareBits ||| 0x80 &&& ~~~ softwareBits = v at hlines hr' hpending
  have hi : (s.hart.setMcsr .mip v).InterruptsMachine mtieBit := by
    refine ⟨⟨hpending, hmie.trans harmed⟩, ?_, fun hmode => absurd (hr'.mode.symm.trans hmode) (by decide)⟩
    rw [MHart.bit, hr'.interrupts]
    decide
  obtain ⟨-, h, hret⟩ := hr'.routed.machineInterrupt mtieBit hi
  refine ⟨h, .cons hlines (.cons (.interruptMachine hi hret) (.nil _)), ?_, ?_⟩
  · exact mtrap_pending hr'.toMReady (interruptCause_mtie ▸ hret)
  · exact (mtrap_mie hr'.toMReady hret (by decide)).trans (hmie.trans hon)

/-- The supervisor lets interrupts in. -/
lemma TrapSys.Ready.tick (hr : s.Ready L trapVector) (hpending : s.hart.bit .mip stie = true)
    (hon : s.hart.bit .mie stie = true) : ∃ t,
      Run (TrapStep trapVector) s [.kernel, .interrupt stie .supervisor] t := by
  have hkernel := @TrapStep.kernel trapVector s { s.hart.toMachine with csr := fun _ => 2 }
  have hr' := hkernel.ready hr
  refine ⟨_, .cons hkernel (.cons (.interruptSupervisor ⟨⟨hpending, hon⟩, ?_, ?_, fun _ => ?_⟩) (.nil _))⟩
  · rw [MHart.bit, hr'.interrupts]
    decide
  · rw [hr'.mode]
    decide
  · show BitVec.getLsbD 2 sieBit = true
    decide

/-- The first tick: `main` gets ready and calls `set_timer`, the line of the timer comes up, `mtrap_vector` hands the
tick on, and `trap_vector` is entered. -/
theorem traps_routed_first_tick : ∃ s, Run (TrapStep 0x80000400) (trapStart sampleMLayout 0 zeroHart)
    [.main .trapInit, .main .enableTimerInterrupt, .exception 9 .machine, .lines, .interrupt mtieBit .machine, .kernel,
      .interrupt stie .supervisor] s ∧ Routed 0x80000400 s := by
  have h₁ : TrapStep 0x80000400 (trapStart sampleMLayout 0 zeroHart) (.main .trapInit)
      ⟨startHart sampleMLayout zeroHart, 0x80000400, [.enableTimerInterrupt]⟩ := .trapInit rfl
  have h₂ : TrapStep 0x80000400 ⟨startHart sampleMLayout zeroHart, 0x80000400, [.enableTimerInterrupt]⟩
      (.main .enableTimerInterrupt) ⟨(startHart sampleMLayout zeroHart).setSie sieStie, 0x80000400, []⟩ :=
    .enableTimerInterrupt rfl
  have hr₂ := h₂.ready (h₁.ready (trapStart_ready sampleMLayout 0x80000400 0 zeroHart))
  have hon : ((startHart sampleMLayout zeroHart).setSie sieStie).bit .mie stie = true := by
    rw [MHart.bit, MHart.setSie, MHart.setMcsr_self, (startHart_mcsr _ _).2.1, BitVec.getLsbD_or, Bool.or_eq_true]
    exact .inr (by decide)
  obtain ⟨g₃, h₃, harmed, hon₃⟩ := hr₂.setTimer rfl hon
  have hr₃ := h₃.ready hr₂
  obtain ⟨g₄, h₄, hpending, hon₄⟩ := hr₃.timer harmed hon₃
  obtain ⟨t, h₅⟩ := (Run.ready h₄ hr₃).tick hpending hon₄
  have hrun := (Run.cons h₁ (.cons h₂ (.cons h₃ h₄))).append h₅
  exact ⟨t, hrun, traps_routed sampleMLayout 0x80000400 0 zeroHart _ t hrun⟩

end NetStack.Trap
