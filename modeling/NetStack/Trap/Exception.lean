import NetStack.Trap.Uart

/-!
# How `trap.c` reports an exception

`handle_exception` prints the trap context, then `exception_names[ctx->scause]`, and only then looks with a `switch`
whether the code is one it knows.  The table ends at the largest known code and is null at the codes in between that
the architecture reserves, so what happens depends on the code alone: `handleException_named` for the known ones,
`handleException_unnamed` for all others, which stop the hart at the table and never get to the `switch`.

`exception_reported_iff` is the consequence: an exception is reported safely if and only if its code is one of the
cases of the `switch`.  `trapHandler_returns_iff` says when the interrupted code is gone on with.
-/

namespace NetStack.Trap

open EventLog

/-! ## Codes and names -/

/-- `SCAUSE_INTR_FLAG`. -/
def scauseIntrFlag : BitVec 64 := 1 <<< 63

def irqSSoft : BitVec 64 := 1
def irqSTimer : BitVec 64 := 5
def irqSExt : BitVec 64 := 9

def excInstMisaligned : ℕ := 0
def excInstFault : ℕ := 1
def excIllegalInst : ℕ := 2
def excBreakpoint : ℕ := 3
def excLoadMisaligned : ℕ := 4
def excLoadFault : ℕ := 5
def excStoreMisaligned : ℕ := 6
def excStoreFault : ℕ := 7
def excEnvCallU : ℕ := 8
def excEnvCallS : ℕ := 9
def excInstPageFault : ℕ := 12
def excLoadPageFault : ℕ := 13
def excStorePageFault : ℕ := 15

/-- The designated initialisers of `exception_names`. -/
def exceptionEntries : List (ℕ × String) :=
  [(excInstMisaligned, "Instruction Address Misaligned"),
    (excInstFault, "Instruction Access Fault"),
    (excIllegalInst, "Illegal Instruction"),
    (excBreakpoint, "Breakpoint"),
    (excLoadMisaligned, "Load Address Misaligned"),
    (excLoadFault, "Load Access Fault"),
    (excStoreMisaligned, "Store/AMO Address Misaligned"),
    (excStoreFault, "Store/AMO Access Fault"),
    (excEnvCallU, "Environment Call from U-mode"),
    (excEnvCallS, "Environment Call from S-mode"),
    (excInstPageFault, "Instruction Page Fault"),
    (excLoadPageFault, "Load Page Fault"),
    (excStorePageFault, "Store/AMO Page Fault")]

/-- `exception_names`: an array as long as the largest index needs, null where nothing is named. -/
def exceptionNames : List (Option String) :=
  (List.range (excStorePageFault + 1)).map fun i => exceptionEntries.lookup i

/-- The cases of the `switch` in `handle_exception`. -/
def exceptionCases : List ℕ :=
  [excInstMisaligned, excInstFault, excIllegalInst, excBreakpoint, excLoadMisaligned, excLoadFault,
    excStoreMisaligned, excStoreFault, excEnvCallU, excEnvCallS, excInstPageFault, excLoadPageFault,
    excStorePageFault]

/-- `reg_names`. -/
def regNames : Vector String 32 :=
  #v["zero", "ra", "sp", "gp", "tp", "t0", "t1", "t2",
    "s0", "s1", "a0", "a1", "a2", "a3", "a4", "a5",
    "a6", "a7", "s2", "s3", "s4", "s5", "s6", "s7",
    "s8", "s9", "s10", "s11", "t3", "t4", "t5", "t6"]

/-! ## The handlers -/

/-- `struct trap_context`. -/
structure TrapContext where
  regs : Fin 32 → BitVec 64
  sstatus : BitVec 64
  sepc : BitVec 64
  scause : BitVec 64
  stval : BitVec 64

/-- What `handle_timer_interrupt` finds: the two readings of `time`, and the stack under the buffer of
`uart_dec64`. -/
structure TimerInput where
  getTime : BitVec 64
  currentTime : BitVec 64
  buffer : Vector Char 20

/-- The pointer `exception_names[i]`. -/
def exceptionName (i : BitVec 64) : Console (Option String) := do
  emits [.exceptionName i.toNat]
  match exceptionNames[i.toNat]? with
  | none => stop .outOfBounds
  | some name => pure name

/-- A round of the loop of `dump_registers`. -/
def dumpRegister (ctx : TrapContext) (i : Fin 32) : Console Unit := do
  uartPuts regNames[i]
  -- the name is padded to five characters
  (List.replicate (5 - regNames[i].length) ' ').forM uartPutc
  uartPuts ": "
  printHex64 (ctx.regs i)
  if i.val % 2 = 1 then uartPuts "\n" else uartPuts "  "

/-- `dump_registers`. -/
def dumpRegisters (ctx : TrapContext) : Console Unit := do
  uartPuts "--- Register Dump ---\n"
  uartPuts "sepc:   "
  printHex64 ctx.sepc
  uartPuts "  sstatus: "
  printHex64 ctx.sstatus
  uartPuts "\n"
  uartPuts "scause: "
  printHex64 ctx.scause
  uartPuts "  stval:   "
  printHex64 ctx.stval
  uartPuts "\n"
  (List.finRange 32).forM (dumpRegister ctx)
  uartPuts "\n---------------------\n"

/-- `handle_software_interrupt`. -/
def handleSoftwareInterrupt : Console Unit := do
  uartPuts "Software interrupt received\n"
  emits [.clearSsip]

/-- `set_timer`, the current time being `now`. -/
def setTimer (now interval : BitVec 64) : Console Unit := emits [.setTimer (now + interval)]

/-- `handle_timer_interrupt`. -/
def handleTimerInterrupt (input : TimerInput) : Console Unit := do
  uartPuts "Current time: "
  uartDec64 input.buffer input.getTime
  uartPuts "\n"
  setTimer input.currentTime 10000000
  emits [.yield]

/-- `handle_external_interrupt`. -/
def handleExternalInterrupt : Console Unit := uartPuts "External interrupt received\n"

/-- The `switch` of `handle_exception`. -/
def exceptionSwitch (scause : BitVec 64) : Console Unit :=
  if scause.toNat ∈ exceptionCases then pure ()
  else do
    uartPuts "Unknown exception code: "
    printHex64 scause
    uartPuts "\n"

/-- `handle_exception`. -/
def handleException (ctx : TrapContext) : Console Unit := do
  uartPuts "Kernel exception occurred: scause = "
  printHex64 ctx.scause
  uartPuts ", sepc = "
  printHex64 ctx.sepc
  uartPuts ", stval = "
  printHex64 ctx.stval
  uartPuts "\n"
  dumpRegisters ctx
  uartPuts "Exception: "
  uartPuts (← exceptionName ctx.scause)
  uartPuts "\n"
  exceptionSwitch ctx.scause
  uartPuts "Kernel panic: S-mode exception unhandled. Halted.\n"
  stop .halted

/-- The `switch` of `trap_handler`. -/
def interruptSwitch (input : TimerInput) (irqCode : BitVec 64) : Console Unit :=
  if irqCode = irqSSoft then handleSoftwareInterrupt
  else if irqCode = irqSTimer then handleTimerInterrupt input
  else if irqCode = irqSExt then handleExternalInterrupt
  else do
    uartPuts "Unhandled S-mode interrupt: "
    printHex64 irqCode
    uartPuts "\n"
    stop .halted

/-- `trap_handler`. -/
def trapHandler (input : TimerInput) (ctx : TrapContext) : Console Unit := do
  let scause := ctx.scause
  if scause &&& scauseIntrFlag ≠ 0 then
    let irqCode := scause &&& ~~~scauseIntrFlag
    uartPuts "Interrupt received: scause = "
    printHex64 scause
    uartPuts ", irq_code = "
    printHex64 irqCode
    uartPuts "\n"
    interruptSwitch input irqCode
  else
    handleException ctx

/-! ## Table and `switch` -/

/-- Index `i` of the table holds the name of an exception. -/
def Named (i : ℕ) : Prop := ∃ name, exceptionNames[i]? = some (some name)

lemma exceptionNames_getElem? (i : ℕ) :
    exceptionNames[i]? = if i < excStorePageFault + 1 then some (exceptionEntries.lookup i) else none := by
  rw [exceptionNames, List.getElem?_map]
  split_ifs with hlt
  · rw [List.getElem?_range hlt, Option.map_some]
  · rw [List.getElem?_eq_none (by simpa using hlt), Option.map_none]

/-- The `switch` lists the codes that have an initialiser. -/
lemma exceptionCases_eq : exceptionCases = exceptionEntries.map Prod.fst := rfl

lemma le_of_mem_exceptionCases {i : ℕ} (h : i ∈ exceptionCases) : i ≤ excStorePageFault := by
  have hall : ∀ j ∈ exceptionCases, j ≤ excStorePageFault := by decide
  exact hall i h

/-- **Table and `switch` agree.** -/
lemma named_iff (i : ℕ) : Named i ↔ i ∈ exceptionCases := by
  constructor
  · rintro ⟨name, hname⟩
    rw [exceptionNames_getElem?] at hname
    split_ifs at hname
    obtain ⟨l, l', hl, -⟩ := List.lookup_eq_some_iff.mp (Option.some_inj.mp hname)
    rw [exceptionCases_eq, hl]
    simp
  · intro hmem
    have hlt := Nat.lt_succ_of_le (le_of_mem_exceptionCases hmem)
    rw [exceptionCases_eq, List.mem_map] at hmem
    obtain ⟨entry, hentry, rfl⟩ := hmem
    have hsome : (exceptionEntries.lookup entry.1).isSome :=
      List.lookup_isSome_iff.mpr ⟨entry, hentry, beq_self_eq_true _⟩
    obtain ⟨name, hname⟩ := Option.isSome_iff_exists.mp hsome
    exact ⟨name, by rw [exceptionNames_getElem?, if_pos hlt, hname]⟩

/-! ## The report -/

/-- What `print_hex64` prints. -/
def hex64Text (val : BitVec 64) : List Char := "0x".toList ++ hexText val.toNat 16

def registerText (ctx : TrapContext) (i : Fin 32) : List Char :=
  regNames[i].toList ++ List.replicate (5 - regNames[i].length) ' ' ++ ": ".toList ++ hex64Text (ctx.regs i) ++
    if i.val % 2 = 1 then "\n".toList else "  ".toList

def dumpText (ctx : TrapContext) : List Char :=
  "--- Register Dump ---\n".toList ++ "sepc:   ".toList ++ hex64Text ctx.sepc ++ "  sstatus: ".toList ++
    hex64Text ctx.sstatus ++ "\n".toList ++ "scause: ".toList ++ hex64Text ctx.scause ++ "  stval:   ".toList ++
    hex64Text ctx.stval ++ "\n".toList ++ (List.finRange 32).flatMap (registerText ctx) ++
    "\n---------------------\n".toList

/-- Everything up to the name of the exception. -/
def headerText (ctx : TrapContext) : List Char :=
  "Kernel exception occurred: scause = ".toList ++ hex64Text ctx.scause ++ ", sepc = ".toList ++
    hex64Text ctx.sepc ++ ", stval = ".toList ++ hex64Text ctx.stval ++ "\n".toList ++ dumpText ctx ++
    "Exception: ".toList

/-- The line of the `default` branch. -/
def unknownText (scause : BitVec 64) : List Char :=
  "Unknown exception code: ".toList ++ hex64Text scause ++ "\n".toList

/-- Everything after the name of the exception. -/
def panicText : List Char := "Kernel panic: S-mode exception unhandled. Halted.\n".toList

/-- Texts printed one after the other are one text. -/
lemma prints_bind {α : Type} (text text' : List Char) (f : Unit → Console α) :
    (prints text >>= fun _ => prints text' >>= f) = (prints (text ++ text') >>= f) := by
  rw [← prints_append, bind_assoc]

lemma forM_prints {ι : Type} (l : List ι) (g : ι → List Char) :
    (l.forM fun i => prints (g i)) = prints (l.flatMap g) := by
  rw [prints, List.map_flatMap]
  exact forM_emits (fun i => (g i).map Event.putc) l

lemma printHex64_text (val : BitVec 64) : printHex64 val = prints (hex64Text val) := printHex64_eq val

lemma dumpRegister_eq (ctx : TrapContext) (i : Fin 32) : dumpRegister ctx i = prints (registerText ctx i) := by
  have hpad : (List.replicate (5 - regNames[i].length) ' ').forM uartPutc
      = prints (List.replicate (5 - regNames[i].length) ' ') := by
    refine (forM_prints _ fun c => [c]).trans ?_
    rw [List.flatMap_singleton']
  rw [dumpRegister, registerText]
  split_ifs <;>
    simp only [hpad, uartPuts_eq, printHex64_text, prints_append, List.append_assoc]

lemma dumpRegisters_eq (ctx : TrapContext) : dumpRegisters ctx = prints (dumpText ctx) := by
  have hregs : (List.finRange 32).forM (dumpRegister ctx)
      = prints ((List.finRange 32).flatMap (registerText ctx)) := by
    rw [funext (dumpRegister_eq ctx), forM_prints]
  unfold dumpRegisters dumpText
  simp only [hregs, uartPuts_eq, printHex64_text, prints_append, List.append_assoc]

lemma exceptionSwitch_known {scause : BitVec 64} (h : scause.toNat ∈ exceptionCases) :
    exceptionSwitch scause = pure () := if_pos h

/-- The report up to the table. -/
lemma handleException_eq (ctx : TrapContext) :
    handleException ctx = (prints (headerText ctx) >>= fun _ => exceptionName ctx.scause >>= fun name =>
      uartPuts name >>= fun _ => uartPuts "\n" >>= fun _ => exceptionSwitch ctx.scause >>= fun _ =>
        uartPuts "Kernel panic: S-mode exception unhandled. Halted.\n" >>= fun _ => stop .halted) := by
  unfold handleException headerText
  simp only [uartPuts_eq, printHex64_text, dumpRegisters_eq, prints_bind, List.append_assoc]

lemma prints_event_stop (text text' : List Char) (e : Event) (reason : Stop) :
    (prints text >>= fun _ => emits [e] >>= fun _ => prints text' >>= fun _ => stop reason : Console Unit)
      = ⟨text.map .putc ++ e :: text'.map .putc, .error reason⟩ := by
  rw [prints, prints, emits_bind_stop, emits_bind, emits_bind]
  rfl

/-- **An exception with a name** is reported in full. -/
lemma handleException_named {ctx : TrapContext} {name : String}
    (h : exceptionNames[ctx.scause.toNat]? = some (some name)) :
    handleException ctx = ⟨(headerText ctx).map .putc ++ .exceptionName ctx.scause.toNat ::
      (name.toList ++ "\n".toList ++ panicText).map .putc, .error .halted⟩ := by
  have hswitch := exceptionSwitch_known ((named_iff _).mp ⟨name, h⟩)
  refine (handleException_eq ctx).trans ?_
  unfold exceptionName panicText
  simp only [h, bind_assoc, pure_bind, uartPuts_eq, hswitch, prints_bind, prints_event_stop, List.append_assoc]

/-- **Any other exception** stops the hart at the table: inside it there is a null pointer, and behind its end there
is nothing to be read. -/
lemma handleException_unnamed {ctx : TrapContext} (h : ¬ Named ctx.scause.toNat) :
    handleException ctx = ⟨(headerText ctx).map .putc ++ [.exceptionName ctx.scause.toNat],
      .error (if ctx.scause.toNat ≤ excStorePageFault then .nullPointer else .outOfBounds)⟩ := by
  rw [handleException_eq, exceptionName]
  cases hentry : exceptionNames[ctx.scause.toNat]? with
  | none =>
      have hgt : ¬ ctx.scause.toNat ≤ excStorePageFault := by
        intro hle
        rw [exceptionNames_getElem?, if_pos (Nat.lt_succ_of_le hle)] at hentry
        exact absurd hentry (Option.some_ne_none _)
      rw [if_neg hgt, bind_assoc, stop_bind, emits_bind_stop, prints, emits_bind]
  | some pointer =>
      have hle : ctx.scause.toNat ≤ excStorePageFault := by
        by_contra hgt
        rw [exceptionNames_getElem?, if_neg (by omega)] at hentry
        exact absurd hentry.symm (Option.some_ne_none _)
      cases pointer with
      | some name => exact absurd ⟨name, hentry⟩ h
      | none =>
          rw [if_pos hle, bind_assoc, pure_bind, uartPuts, stop_bind, emits_bind_stop, prints, emits_bind]

/-! ## Dispatch -/

lemma trapHandler_exception (input : TimerInput) {ctx : TrapContext} (h : ctx.scause &&& scauseIntrFlag = 0) :
    trapHandler input ctx = handleException ctx := if_neg (not_not_intro h)

/-- No exception is returned from. -/
lemma handleException_stops (ctx : TrapContext) : ∃ reason, (handleException ctx).res = .error reason := by
  by_cases h : Named ctx.scause.toNat
  · obtain ⟨name, hname⟩ := h
    exact ⟨_, congrArg Emit.res (handleException_named hname)⟩
  · exact ⟨_, congrArg Emit.res (handleException_unnamed h)⟩

lemma res_prints_bind {α : Type} (text : List Char) (f : Unit → Console α) :
    (prints text >>= f).res = (f ()).res := rfl

lemma handleSoftwareInterrupt_res : handleSoftwareInterrupt.res = .ok () := by
  rw [handleSoftwareInterrupt, uartPuts_eq, res_prints_bind, emits]

lemma handleTimerInterrupt_res (input : TimerInput) : (handleTimerInterrupt input).res = .ok () := by
  unfold handleTimerInterrupt
  simp only [uartPuts_eq, uartDec64_eq, res_prints_bind, setTimer]
  rw [emits_bind_emits, emits]

lemma handleExternalInterrupt_res : handleExternalInterrupt.res = .ok () := by
  rw [handleExternalInterrupt, uartPuts_eq, prints, emits]

lemma interruptSwitch_returns_iff (input : TimerInput) (irqCode : BitVec 64) :
    (interruptSwitch input irqCode).res = .ok () ↔ irqCode ∈ [irqSSoft, irqSTimer, irqSExt] := by
  simp only [List.mem_cons, List.not_mem_nil, or_false]
  by_cases hsoft : irqCode = irqSSoft
  · rw [interruptSwitch, if_pos hsoft]
    exact iff_of_true handleSoftwareInterrupt_res (.inl hsoft)
  by_cases htimer : irqCode = irqSTimer
  · rw [interruptSwitch, if_neg hsoft, if_pos htimer]
    exact iff_of_true (handleTimerInterrupt_res input) (.inr (.inl htimer))
  by_cases hext : irqCode = irqSExt
  · rw [interruptSwitch, if_neg hsoft, if_neg htimer, if_pos hext]
    exact iff_of_true handleExternalInterrupt_res (.inr (.inr hext))
  · rw [interruptSwitch, if_neg hsoft, if_neg htimer, if_neg hext]
    simp only [uartPuts_eq, printHex64_text, res_prints_bind, stop, hsoft, htimer, hext, reduceCtorEq, or_self]

/-- **The interrupted code is gone on with** after the three interrupts that have a handler, and after nothing
else. -/
theorem trapHandler_returns_iff (input : TimerInput) (ctx : TrapContext) :
    (trapHandler input ctx).res = .ok () ↔ ctx.scause &&& scauseIntrFlag ≠ 0 ∧
      ctx.scause &&& ~~~scauseIntrFlag ∈ [irqSSoft, irqSTimer, irqSExt] := by
  by_cases hflag : ctx.scause &&& scauseIntrFlag = 0
  · obtain ⟨reason, hres⟩ := handleException_stops ctx
    rw [trapHandler_exception input hflag, hres]
    exact iff_of_false (fun h => nomatch h) fun h => h.1 hflag
  · unfold trapHandler
    simp only [if_pos hflag, uartPuts_eq, printHex64_text, res_prints_bind, interruptSwitch_returns_iff]
    exact (and_iff_right hflag).symm

/-! ## What is reported safely -/

/-- An exception is reported safely: `trap_handler` passes it to `handle_exception`, which reads names that are
there and nothing else, halts in the end, and reports a code without a name in the `default` branch, without a look at
the table. -/
structure ReportedSafely (input : TimerInput) (ctx : TrapContext) : Prop where
  dispatched : trapHandler input ctx = handleException ctx
  names : ∀ i, .exceptionName i ∈ (trapHandler input ctx).out → Named i
  halts : (trapHandler input ctx).res = .error .halted
  unnamed : ¬ Named ctx.scause.toNat → (∀ i, .exceptionName i ∉ (trapHandler input ctx).out) ∧
    (unknownText ctx.scause).map .putc <:+: (trapHandler input ctx).out

lemma exceptionName_notMem_map (i : ℕ) (text : List Char) : Event.exceptionName i ∉ text.map .putc := by
  simp

section ReportedSafely

variable {input : TimerInput} {ctx : TrapContext}

lemma reportedSafely_of_named (hflag : ctx.scause &&& scauseIntrFlag = 0) (h : Named ctx.scause.toNat) :
    ReportedSafely input ctx := by
  obtain ⟨name, hname⟩ := h
  have hrun := trapHandler_exception input hflag
  refine ⟨hrun, fun i hi => ?_, ?_, fun hnot => absurd ⟨name, hname⟩ hnot⟩
  · rw [hrun, handleException_named hname, List.mem_append, List.mem_cons] at hi
    rcases hi with hi | hi | hi
    · exact absurd hi (exceptionName_notMem_map i _)
    · rw [Event.exceptionName.inj hi]
      exact ⟨name, hname⟩
    · exact absurd hi (exceptionName_notMem_map i _)
  · rw [hrun, handleException_named hname]

/-- A code without a name is looked up all the same. -/
lemma not_reportedSafely (hflag : ctx.scause &&& scauseIntrFlag = 0) (h : ¬ Named ctx.scause.toNat) :
    ¬ ReportedSafely input ctx := by
  intro hsafe
  refine (hsafe.unnamed h).1 ctx.scause.toNat ?_
  rw [trapHandler_exception input hflag, handleException_unnamed h]
  exact List.mem_append_right _ List.mem_cons_self

lemma reportedSafely_iff_named (hflag : ctx.scause &&& scauseIntrFlag = 0) :
    ReportedSafely input ctx ↔ Named ctx.scause.toNat :=
  ⟨fun hsafe => by_contra fun h => not_reportedSafely hflag h hsafe, reportedSafely_of_named hflag⟩

end ReportedSafely

/-- **When an exception is reported safely**: when its code is one of the cases of the `switch`. -/
theorem exception_reported_iff (input : TimerInput) (ctx : TrapContext)
    (hflag : ctx.scause &&& scauseIntrFlag = 0) :
    ReportedSafely input ctx ↔ ctx.scause.toNat ∈ exceptionCases := by
  rw [reportedSafely_iff_named hflag, named_iff]

/-- A trap with this cause, all registers zero. -/
def quietContext (scause : BitVec 64) : TrapContext := ⟨fun _ => 0, 0, 0, scause, 0⟩

def quietTimer : TimerInput := ⟨0, 0, Vector.replicate 20 ' '⟩

/-- An illegal instruction. -/
theorem exception_reported_illegal_inst : ReportedSafely quietTimer (quietContext 2) :=
  (exception_reported_iff quietTimer (quietContext 2) (by decide)).mpr (by decide)

/-- The reserved code 10, whose place in the table is null, and the code 16, the first one behind its end. -/
theorem exception_reported_reserved :
    ¬ ReportedSafely quietTimer (quietContext 10) ∧ ¬ ReportedSafely quietTimer (quietContext 16) := by
  have h₁₀ : ¬ Named 10 := by
    rw [named_iff]
    decide
  have h₁₆ : ¬ Named 16 := by
    rw [named_iff]
    decide
  exact ⟨not_reportedSafely (by decide) h₁₀,
    not_reportedSafely (by decide) h₁₆⟩

end NetStack.Trap
