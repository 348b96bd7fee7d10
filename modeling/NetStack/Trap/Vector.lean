import NetStack.Process.Transparent
import NetStack.Trap.Exception

/-!
# From the trap to the report

`trap_vector` calls `trap_handler` with a pointer to what it has stored.  `contextAt` is the structure at such a
pointer, and on a trap frame it is the interrupted hart (`contextAt_reg`, `contextAt_scause`).  So what is reported
safely depends on the cause that the hardware wrote (`vector_exception_iff`), and a timer interrupt is what the model
of the processes takes it for, a call of `yield` (`vector_timer_yields`).
-/

namespace NetStack.Trap

open ByteMem Riscv EventLog

/-- `*ctx`. -/
def contextAt (mem : Mem) (b : ℕ) : TrapContext where
  regs i := load mem (b + 8 * i)
  sstatus := load mem (b + 256)
  sepc := load mem (b + 264)
  scause := load mem (b + 272)
  stval := load mem (b + 280)

section Frame

variable {mem : Mem} {b : ℕ} {f : Machine}

lemma regIndex_lt (r : Reg) : regIndex r < 32 := by cases r <;> decide

/-- `regs[n]` is `x`*n*.  There is no register `x0` in a frame: `trap_vector` leaves its place as it was. -/
lemma contextAt_reg (h : TrapFrame mem b f) (r : Reg) :
    (contextAt mem b).regs ⟨regIndex r, regIndex_lt r⟩ = f.reg r := h.regs r

lemma contextAt_scause (h : TrapFrame mem b f) : (contextAt mem b).scause = f.csr .scause := h.scause

end Frame

/-- **Exceptions, from the hardware on.**  `trap_vector` gets to `trap_handler`, whose report is a safe one if and
only if the cause is one that the `switch` knows. -/
theorem vector_exception_iff (input : TimerInput) {m : Machine} {b : ℕ} (hsp : (m.reg .sp).toNat = b + 288)
    (hflag : m.csr .scause &&& scauseIntrFlag = 0) (handler back : BitVec 64) :
    (exec (trapVectorSave handler back) m).pc = handler ∧
      (ReportedSafely input (contextAt (exec (trapVectorSave handler back) m).mem
        ((exec (trapVectorSave handler back) m).reg .a0).toNat) ↔
        (m.csr .scause).toNat ∈ exceptionCases) := by
  rcases trapSave_spec hsp handler back with ⟨m', hexec, hframe, hsp', ha0, -, hpc, -⟩
  rw [hexec, ha0, hsp']
  have hcause := contextAt_scause hframe
  refine ⟨hpc, ?_⟩
  rw [reportedSafely_iff_named (hcause ▸ hflag), named_iff, hcause]

/-- What `trap_handler` does on the cause of a timer interrupt. -/
lemma trapHandler_timer (input : TimerInput) {ctx : TrapContext} (hcause : ctx.scause = timerCause) :
    ∃ text : List Char, trapHandler input ctx
      = ⟨text.map .putc ++ [.setTimer (input.currentTime + 10000000), .yield], .ok ()⟩ := by
  have hflag : timerCause &&& scauseIntrFlag ≠ 0 := by decide
  have hcode : timerCause &&& ~~~scauseIntrFlag = irqSTimer := by decide
  have hsoft : irqSTimer ≠ irqSSoft := by decide
  refine ⟨"Interrupt received: scause = ".toList ++ hex64Text timerCause ++ ", irq_code = ".toList ++
    hex64Text irqSTimer ++ "\n".toList ++ "Current time: ".toList ++ Nat.toDigits 10 input.getTime.toNat ++
    "\n".toList, ?_⟩
  unfold trapHandler interruptSwitch handleTimerInterrupt setTimer
  simp only [hcause, hcode, if_pos hflag, if_neg hsoft, ↓reduceIte, uartPuts_eq, uartDec64_eq, printHex64_text,
    prints_bind, emits_bind_emits, List.append_assoc]
  rfl

/-- **A timer interrupt** prints, sets the next deadline and yields. -/
theorem vector_timer_yields (input : TimerInput) {L : KernelAddrs} {m : Machine} (hcall : TimerCall L m) :
    ∃ text : List Char, trapHandler input (contextAt m.mem (m.reg .a0).toNat)
      = ⟨text.map .putc ++ [.setTimer (input.currentTime + 10000000), .yield], .ok ()⟩ :=
  trapHandler_timer input hcall.2.1

end NetStack.Trap
