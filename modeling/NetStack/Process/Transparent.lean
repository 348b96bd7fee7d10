import NetStack.Process.Switch
import NetStack.Process.Scheduler

/-!
# Preemption is transparent

One hart, the processes of `procs`, and the scheduler.  The hart runs the code of one process, or the
scheduler; the assembly of `Switch` runs instruction by instruction, and in between run the compiled C
functions, of which only the calling convention and the source's assignments to `current_process` are
known.  Everything else they and the processes do is left open: the step relation allows all of it.
Timer interrupts arrive in a process's own code only.

`preemption_transparent`: a process that is interrupted, and dispatched again after any number of steps
of the others and of the scheduler, goes on with the registers, the `pc` and the interrupt-enable state
it had.
-/

namespace NetStack

open ByteMem Riscv Transition

/-! ## Where things are -/

def stackSize : ℕ := 4096

/-- `sizeof(struct process)`, and the offset of `context` in it. -/
def sizeofProcess : ℕ := 152
def contextOffset : ℕ := 16

/-- The memory a context switch depends on. -/
inductive Region
  | stack (i : Slot)
  | context (i : Slot)
  | schedContext
  | currentProcess
  | schedStack

/-- Where the linker put the kernel's variables and functions, which page each process has for its
stack, and how much of a stack the C functions under `trap_vector` use. -/
structure KernelAddrs where
  procs : ℕ
  currentProcess : ℕ
  schedContext : ℕ
  schedStack : ℕ
  schedStackSize : ℕ
  stack : Slot → ℕ
  room : ℕ
  trapVector : BitVec 64
  trapHandler : BitVec 64
  /-- The instruction after `call trap_handler`. -/
  trapBack : BitVec 64
  swtch : BitVec 64
  forkret : BitVec 64

namespace KernelAddrs

variable (L : KernelAddrs)

/-- `&procs[i]`. -/
def proc (i : Slot) : ℕ := L.procs + sizeofProcess * i

def base : Region → ℕ
  | .stack i => L.stack i
  | .context i => L.proc i + contextOffset
  | .schedContext => L.schedContext
  | .currentProcess => L.currentProcess
  | .schedStack => L.schedStack

def size : Region → ℕ
  | .stack _ => stackSize
  | .context _ => 112
  | .schedContext => 112
  | .currentProcess => 8
  | .schedStack => L.schedStackSize

/-- Two memories agree on a region. -/
def SameOn (r : Region) (m m' : Mem) : Prop :=
  ∀ x, L.base r ≤ x → x < L.base r + L.size r → m' x = m x

end KernelAddrs

/-- Addresses of a linked kernel: regions do not overlap, and no address wraps around. -/
structure KernelLayout extends KernelAddrs where
  bounds : ∀ r, toKernelAddrs.base r + toKernelAddrs.size r ≤ 2 ^ 64
  disjoint : ∀ r r', r ≠ r' → toKernelAddrs.base r + toKernelAddrs.size r ≤ toKernelAddrs.base r' ∨
    toKernelAddrs.base r' + toKernelAddrs.size r' ≤ toKernelAddrs.base r
  notNull : 0 < procs

instance : Coe KernelLayout KernelAddrs := ⟨KernelLayout.toKernelAddrs⟩

/-! ## Conventions of the compiled C code -/

/-- `scause` of a supervisor timer interrupt. -/
def timerCause : BitVec 64 := BitVec.twoPow 64 63 ||| 5

/-- `sp` and `s0`–`s11`. -/
def calleeSaved : List Reg :=
  [.sp, .s0, .s1, .s2, .s3, .s4, .s5, .s6, .s7, .s8, .s9, .s10, .s11]

/-- The end of the stack of a process, or of the scheduler. -/
def KernelAddrs.stackTop (L : KernelAddrs) : Option Slot → ℕ
  | some i => L.stack i + stackSize
  | none => L.schedStack + L.schedStackSize

/-- `m'` is where a call of `swtch` made in `m` returns to: at its return address, with `sp`, `s0`–`s11`
and the stack above `sp` as they were. -/
structure Resumes (L : KernelAddrs) (o : Option Slot) (m m' : Machine) : Prop where
  pc : m'.pc = m.reg .ra
  regs : ∀ r ∈ calleeSaved, m'.reg r = m.reg r
  stack : ∀ x, (m.reg .sp).toNat ≤ x → x < L.stackTop o → m'.mem x = m.mem x

/-- From a C function to the call of `swtch` in `yield()`, which it reaches with `current_process` set: own
frames of at most `room` bytes, `current_process = NULL`, and nothing else that is of interest here. -/
structure YieldCall (L : KernelAddrs) (m m' : Machine) : Prop where
  pc : m'.pc = L.swtch
  old : m'.reg .a0 = load m.mem L.currentProcess + BitVec.ofNat 64 contextOffset
  new : m'.reg .a1 = BitVec.ofNat 64 L.schedContext
  sp_le : (m'.reg .sp).toNat ≤ (m.reg .sp).toNat
  le_sp : (m.reg .sp).toNat ≤ (m'.reg .sp).toNat + L.room
  frame : ∀ r, r ≠ .currentProcess → ∀ x, L.base r ≤ x → x < L.base r + L.size r →
    x + L.room < (m.reg .sp).toNat ∨ (m.reg .sp).toNat ≤ x → m'.mem x = m.mem x

/-- From the return of that `swtch` to the return of the C function that was called in `m`. -/
structure CallReturn (L : KernelAddrs) (m m₂ m₃ : Machine) : Prop where
  pc : m₃.pc = m.reg .ra
  regs : ∀ r ∈ calleeSaved, m₃.reg r = m.reg r
  frame : ∀ r x, L.base r ≤ x → x < L.base r + L.size r →
    x + L.room < (m.reg .sp).toNat ∨ (m.reg .sp).toNat ≤ x → m₃.mem x = m₂.mem x

/-- In `scheduler()`, up to the call of `swtch` for the process `j`. -/
structure SchedulerCall (L : KernelAddrs) (j : Slot) (m m' : Machine) : Prop where
  pc : m'.pc = L.swtch
  old : m'.reg .a0 = BitVec.ofNat 64 L.schedContext
  new : m'.reg .a1 = BitVec.ofNat 64 (L.base (.context j))
  current : load m'.mem L.currentProcess = BitVec.ofNat 64 (L.proc j)
  le_sp : L.schedStack ≤ (m'.reg .sp).toNat
  frame : ∀ r, r ≠ .currentProcess → r ≠ .schedStack → L.SameOn r m.mem m'.mem

/-- A process's own code: it writes its own stack, and no other memory a context switch depends on.
`created` has the processes whose stacks are in use. -/
def EntryCode (L : KernelAddrs) (created : Slot → Prop) (i : Slot) (m m' : Machine) : Prop :=
  ∀ r, (∀ k, r = .stack k → k ≠ i ∧ created k) → L.SameOn r m.mem m'.mem

/-- A process's call of `proc_create`, for the slot `k`. -/
structure ProcCreate (L : KernelAddrs) (created : Slot → Prop) (i k : Slot) (m m' : Machine) : Prop where
  frame : ∀ r, (∀ k, r = .stack k → k ≠ i ∧ created k) → r ≠ .context k → L.SameOn r m.mem m'.mem
  ra : load m'.mem (L.base (.context k)) = L.forkret
  sp : load m'.mem (L.base (.context k) + 8) = BitVec.ofNat 64 (L.stack k + stackSize)

/-! ## The system -/

/-- What a process was doing when it left the hart. -/
inductive Suspension
  | fresh
  | yielded
  | trapped
  deriving DecidableEq

/-- The hart, whose code it runs (`none`: the scheduler's), and what a bystander remembers: which processes
exist, how each of them left the hart, the machine when it (or the scheduler) called `swtch`, and the
machine when it was interrupted. -/
structure Sys where
  m : Machine
  running : Option Slot
  created : Slot → Prop
  susp : Slot → Suspension
  callAt : Option Slot → Machine
  trapAt : Slot → Machine

inductive KernelAct
  | code
  | create (k : Slot)
  | preempt (i : Slot)
  | yield (i : Slot)
  | dispatch (j : Slot)
  deriving DecidableEq

/-- The stack has room for `n` bytes and for the frames of the C functions. -/
def Room (L : KernelAddrs) (i : Slot) (n : ℕ) (m : Machine) : Prop :=
  L.stack i + L.room + n ≤ (m.reg .sp).toNat ∧ (m.reg .sp).toNat ≤ L.stack i + stackSize

/-- The hart in `trap_handler`, for a timer interrupt taken in `m`. -/
def handlerEntry (L : KernelAddrs) (m : Machine) : Machine :=
  exec (trapVectorSave L.trapHandler L.trapBack) (m.trap L.trapVector timerCause)

/-- The scheduler runs, and is where it left off, or has not switched yet. -/
def SchedulerReady (L : KernelAddrs) (s : Sys) : Prop :=
  s.m = s.callAt none ∨ Resumes L none (s.callAt none) s.m

/-- `trap_handler` called for a timer interrupt while a process is running. -/
def TimerCall (L : KernelAddrs) (m : Machine) : Prop :=
  m.pc = L.trapHandler ∧ load m.mem ((m.reg .a0).toNat + 272) = timerCause ∧
    load m.mem L.currentProcess ≠ 0

/-- One step.  A piece of code does what it does when control is where it stands, and anything
otherwise. -/
inductive KernelStep (L : KernelAddrs) : Sys → KernelAct → Sys → Prop
  | code {s : Sys} {i : Slot} {m' : Machine} (hrun : s.running = some i)
      (hcode : EntryCode L s.created i s.m m') : KernelStep L s .code { s with m := m' }
  | create {s : Sys} {i k : Slot} {m' : Machine} (hrun : s.running = some i) (hk : ¬ s.created k)
      (hcode : ProcCreate L s.created i k s.m m') :
      KernelStep L s (.create k) { s with
        m := m'
        created := fun j => j = k ∨ s.created j
        susp := Function.update s.susp k .fresh }
  | preempt {s : Sys} {i : Slot} {m₂ m₃ : Machine} (hrun : s.running = some i)
      (hsie : s.m.sie = true) (hroom : Room L i 288 s.m)
      (hhandler : TimerCall L (handlerEntry L s.m) → YieldCall L (handlerEntry L s.m) m₂)
      (hswtch : m₂.pc = L.swtch → m₃ = exec swtchCode m₂) :
      KernelStep L s (.preempt i) { s with
        m := m₃
        running := none
        susp := Function.update s.susp i .trapped
        callAt := Function.update s.callAt (some i) m₂
        trapAt := Function.update s.trapAt i s.m }
  | yield {s : Sys} {i : Slot} {m₂ m₃ : Machine} (hrun : s.running = some i)
      (hroom : Room L i 0 s.m)
      (hyield : load s.m.mem L.currentProcess ≠ 0 → YieldCall L s.m m₂)
      (hswtch : m₂.pc = L.swtch → m₃ = exec swtchCode m₂) :
      KernelStep L s (.yield i) { s with
        m := m₃
        running := none
        susp := Function.update s.susp i .yielded
        callAt := Function.update s.callAt (some i) m₂ }
  /-- A process that was not interrupted goes on in its own code. -/
  | resume {s : Sys} {j : Slot} {m₁ m₂ : Machine} (hrun : s.running = none) (hj : s.created j)
      (hsusp : s.susp j ≠ .trapped) (hcall : SchedulerReady L s → SchedulerCall L j s.m m₁)
      (hswtch : m₁.pc = L.swtch → m₂ = exec swtchCode m₁) :
      KernelStep L s (.dispatch j) { s with
        m := m₂
        running := some j
        callAt := Function.update s.callAt none m₁ }
  /-- One that was goes through the return of `trap_handler` and the rest of `trap_vector`. -/
  | sret {s : Sys} {j : Slot} {m₁ m₂ m₃ m₄ : Machine} (hrun : s.running = none) (hj : s.created j)
      (hsusp : s.susp j = .trapped) (hcall : SchedulerReady L s → SchedulerCall L j s.m m₁)
      (hswtch : m₁.pc = L.swtch → m₂ = exec swtchCode m₁)
      (hret : Resumes L (some j) (s.callAt (some j)) m₂ →
        CallReturn L (handlerEntry L (s.trapAt j)) m₂ m₃)
      (hrestore : m₃.pc = L.trapBack → m₄ = exec trapVectorRestore m₃) :
      KernelStep L s (.dispatch j) { s with
        m := m₄
        running := some j
        callAt := Function.update s.callAt none m₁ }

/-! ## The invariant -/

section Invariant

variable {L : KernelLayout}

/-- The owner `o` of a context has called `swtch` in `m`: the context and the stack are as `m` left them. -/
structure Saved (L : KernelAddrs) (o : Option Slot) (ctx : Region) (mem : Mem) (m : Machine) : Prop where
  context : SavedContext mem (L.base ctx) m
  stack : ∀ x, (m.reg .sp).toNat ≤ x → x < L.stackTop o → mem x = m.mem x

/-- A process that does not run. -/
inductive Parked (L : KernelAddrs) (s : Sys) (j : Slot) : Prop
  | fresh (susp : s.susp j = .fresh) (ra : load s.m.mem (L.base (.context j)) = L.forkret)
      (sp : load s.m.mem (L.base (.context j) + 8) = BitVec.ofNat 64 (L.stack j + stackSize))
  | yielded (susp : s.susp j = .yielded) (le_sp : L.stack j ≤ ((s.callAt (some j)).reg .sp).toNat)
      (saved : Saved L (some j) (.context j) s.m.mem (s.callAt (some j)))
  | trapped (susp : s.susp j = .trapped) (le_sp : L.stack j ≤ ((s.callAt (some j)).reg .sp).toNat)
      (saved : Saved L (some j) (.context j) s.m.mem (s.callAt (some j)))
      (room : Room L j 288 (s.trapAt j))
      (call : YieldCall L (handlerEntry L (s.trapAt j)) (s.callAt (some j)))

structure KernelInv (L : KernelAddrs) (s : Sys) : Prop where
  scheduler : s.running = none → SchedulerReady L s
  suspended : s.running ≠ none → L.schedStack ≤ ((s.callAt none).reg .sp).toNat ∧
    Saved L none .schedContext s.m.mem (s.callAt none)
  current : ∀ i, s.running = some i →
    s.created i ∧ load s.m.mem L.currentProcess = BitVec.ofNat 64 (L.proc i)
  parked : ∀ j, s.created j → s.running ≠ some j → Parked L s j

/-- What is saved depends on the context and on the stack. -/
lemma Saved.congr {o : Option Slot} {ctx : Region} {mem mem' : Mem} {m : Machine}
    (h : Saved L o ctx mem m) (st : Region) (hctx : L.SameOn ctx mem mem') (hst : L.SameOn st mem mem')
    (hsize : L.size ctx = 112) (hbase : L.base st ≤ (m.reg .sp).toNat)
    (htop : L.base st + L.size st = L.stackTop o) : Saved L o ctx mem' m where
  context := h.context.congr fun x hlo hhi => hctx x hlo (by omega)
  stack := by
    intro x hlo hhi
    rw [hst x (by omega) (by omega)]
    exact h.stack x hlo hhi

lemma load_current {mem mem' : Mem} (h : L.SameOn .currentProcess mem mem') :
    load mem' L.currentProcess = load mem L.currentProcess := load_congr h

/-- A parked process stays parked while its context and its stack are left alone. -/
lemma Parked.congr {s s' : Sys} {j : Slot} (h : Parked L s j) (hsusp : s'.susp j = s.susp j)
    (hcall : s'.callAt (some j) = s.callAt (some j)) (htrap : s'.trapAt j = s.trapAt j)
    (hctx : L.SameOn (.context j) s.m.mem s'.m.mem) (hst : L.SameOn (.stack j) s.m.mem s'.m.mem) :
    Parked L s' j := by
  have hload : ∀ o, o + 8 ≤ 112 → load s'.m.mem (L.base (.context j) + o) =
      load s.m.mem (L.base (.context j) + o) := by
    intro o ho
    exact load_congr fun x hlo hhi => hctx x (by omega) (by
      show x < L.base (.context j) + 112
      omega)
  cases h with
  | fresh susp ra sp =>
      refine .fresh (hsusp.trans susp) ?_ ?_
      · exact (hload 0 (by omega)).trans ra
      · exact (hload 8 (by omega)).trans sp
  | yielded susp le_sp saved =>
      refine .yielded (hsusp.trans susp) ?_ ?_
      · rw [hcall]
        exact le_sp
      · rw [hcall]
        exact saved.congr (.stack j) hctx hst rfl le_sp rfl
  | trapped susp le_sp saved room call =>
      refine .trapped (hsusp.trans susp) ?_ ?_ ?_ ?_
      · rw [hcall]
        exact le_sp
      · rw [hcall]
        exact saved.congr (.stack j) hctx hst rfl le_sp rfl
      · rw [htrap]
        exact room
      · rw [htrap, hcall]
        exact call

/-- A region that a range of addresses inside another one does not touch. -/
lemma outside_of_ne {r r' : Region} (h : r ≠ r') {x : ℕ} (hlo : L.base r ≤ x)
    (hhi : x < L.base r + L.size r) : x < L.base r' ∨ L.base r' + L.size r' ≤ x := by
  have := L.disjoint r r' h
  omega

/-- `swtch` between the contexts `old` and `new`. -/
lemma swtch_between {m : Machine} (old new : Region) (hne : old ≠ new) (ho : L.size old = 112)
    (hn : L.size new = 112) (ha0 : m.reg .a0 = BitVec.ofNat 64 (L.base old))
    (ha1 : m.reg .a1 = BitVec.ofNat 64 (L.base new)) :
    ∃ m', exec swtchCode m = m' ∧ SavedContext m'.mem (L.base old) m ∧
      (∀ x ∈ contextRegs, m'.reg x.1 = load m.mem (L.base new + x.2)) ∧
      m'.pc = load m.mem (L.base new) ∧ ∀ r, r ≠ old → L.SameOn r m.mem m'.mem := by
  have hbo := L.bounds old
  have hbn := L.bounds new
  have hlt : ∀ n, n + 112 ≤ 2 ^ 64 → (BitVec.ofNat 64 n).toNat = n := by
    intro n h
    rw [BitVec.toNat_ofNat, Nat.mod_eq_of_lt (by omega)]
  have hdis := L.disjoint old new hne
  rw [ho, hn] at hdis
  rw [ho] at hbo
  rw [hn] at hbn
  rcases swtch_spec (by rw [ha0, hlt _ hbo]) (by rw [ha1, hlt _ hbn]) hbo hbn hdis
    with ⟨m', hexec, hsaved, hregs, hpc, _, hmem⟩
  refine ⟨m', hexec, hsaved, hregs, hpc, ?_⟩
  intro r hr x hlo hhi
  have hout := outside_of_ne hr hlo hhi
  rw [ho] at hout
  exact hmem x hout

/-- **What `swtch` returns to.**  It goes back to where the owner of the new context called it. -/
lemma resumes_of_swtch {o : Option Slot} {ctx : Region} {m m' f : Machine} {mem : Mem}
    (hregs : ∀ x ∈ contextRegs, m'.reg x.1 = load m.mem (L.base ctx + x.2))
    (hpc : m'.pc = load m.mem (L.base ctx)) (hsaved : Saved L o ctx mem f)
    (hctx : ∀ x, L.base ctx ≤ x → x < L.base ctx + 112 → m.mem x = mem x)
    (hst : ∀ x, (f.reg .sp).toNat ≤ x → x < L.stackTop o → m'.mem x = mem x) :
    Resumes L o f m' := by
  have hc : SavedContext m.mem (L.base ctx) f := hsaved.context.congr hctx
  refine ⟨?_, ?_, ?_⟩
  · rw [hpc]
    exact hc (.ra, 0) (by decide)
  · intro r hr
    have hall : ∀ r ∈ calleeSaved, ∃ x ∈ contextRegs, x.1 = r := by decide
    rcases hall r hr with ⟨x, hx, rfl⟩
    rw [hregs x hx, hc x hx]
  · intro x hlo hhi
    rw [hst x hlo hhi, hsaved.stack x hlo hhi]

/-- `yield()` hands over: the process's context is written, and control returns to the scheduler, where
it had left off. -/
lemma switch_to_scheduler {s : Sys} {i : Slot} {m m₂ m₃ : Machine} (hinv : KernelInv L s)
    (hrun : s.running = some i) (hcur : load m.mem L.currentProcess = BitVec.ofNat 64 (L.proc i))
    (hkeep : ∀ r, r ≠ .stack i → L.SameOn r s.m.mem m.mem)
    (hroom : Room L i 0 m)
    (hcall : YieldCall L m m₂) (hswtch : m₂.pc = L.swtch → m₃ = exec swtchCode m₂) :
    L.stack i ≤ (m₂.reg .sp).toNat ∧ Saved L (some i) (.context i) m₃.mem m₂ ∧
      Resumes L none (s.callAt none) m₃ ∧
      ∀ r, r ≠ .stack i → r ≠ .context i → r ≠ .currentProcess → L.SameOn r s.m.mem m₃.mem := by
  rcases hroom with ⟨hroom, htop⟩
  have hsp : L.stack i ≤ (m₂.reg .sp).toNat := by
    have := hcall.le_sp
    omega
  -- the frames of the C functions are inside the process's own stack
  have hframe : ∀ r, r ≠ .stack i → r ≠ .currentProcess → L.SameOn r m.mem m₂.mem := by
    intro r hr hc x hlo hhi
    refine hcall.frame r hc x hlo hhi ?_
    rcases outside_of_ne hr hlo hhi with h | h
    · left
      have : x < L.stack i := h
      omega
    · right
      have : L.stack i + stackSize ≤ x := h
      omega
  have ha0 : m₂.reg .a0 = BitVec.ofNat 64 (L.base (.context i)) := by
    rw [hcall.old, hcur, ← BitVec.ofNat_add]
    rfl
  rcases swtch_between (.context i) .schedContext (by simp) rfl rfl ha0 hcall.new with
    ⟨m', hexec, hsaved, hregs, hpc, hmem⟩
  have hm₃ : m₃ = m' := (hswtch hcall.pc).trans hexec
  rw [hm₃]
  rcases hinv.suspended (by simp [hrun]) with ⟨hbase, hsched⟩
  have hall : ∀ r, r ≠ .stack i → r ≠ .context i → r ≠ .currentProcess → L.SameOn r s.m.mem m'.mem := by
    intro r hst hctx hc x hlo hhi
    rw [hmem r hctx x hlo hhi, hframe r hst hc x hlo hhi, hkeep r hst x hlo hhi]
  refine ⟨hsp, ⟨hsaved, ?_⟩, ?_, hall⟩
  · intro x hlo hhi
    exact hmem (.stack i) (by simp) x (by
      show L.stack i ≤ x
      omega) hhi
  · refine resumes_of_swtch hregs hpc hsched ?_ ?_
    · intro x hlo hhi
      rw [hframe .schedContext (by simp) (by simp) x hlo hhi, hkeep .schedContext (by simp) x hlo hhi]
    · intro x hlo hhi
      exact hall .schedStack (by simp) (by simp) (by simp) x (le_trans hbase hlo) hhi

/-- `&procs[i]` is not `NULL`. -/
lemma proc_ne_zero (L : KernelLayout) (i : Slot) : BitVec.ofNat 64 (L.proc i) ≠ 0 := by
  have hb : L.proc i + contextOffset + 112 ≤ 2 ^ 64 := L.bounds (.context i)
  have hpos : 0 < L.proc i := lt_of_lt_of_le L.notNull (Nat.le_add_right _ _)
  intro h
  have := congrArg BitVec.toNat h
  rw [BitVec.toNat_ofNat, Nat.mod_eq_of_lt (by omega)] at this
  exact absurd this (by simpa using hpos.ne')

/-- **Entering the handler.**  The trap frame goes to the process's own stack. -/
lemma handlerEntry_spec {i : Slot} {m : Machine} (hroom : Room L i 288 m) :
    TrapFrame (handlerEntry L m).mem ((m.reg .sp).toNat - 288) (m.trap L.trapVector timerCause) ∧
      ((handlerEntry L m).reg .sp).toNat = (m.reg .sp).toNat - 288 ∧
      (handlerEntry L m).reg .ra = L.trapBack ∧ Room L i 0 (handlerEntry L m) ∧
      (load m.mem L.currentProcess ≠ 0 → TimerCall L (handlerEntry L m)) ∧
      ∀ r, r ≠ .stack i → L.SameOn r m.mem (handlerEntry L m).mem := by
  rcases hroom with ⟨hlow, htop⟩
  have hsp : ((m.trap L.trapVector timerCause).reg .sp).toNat = (m.reg .sp).toNat - 288 + 288 := by
    show (m.reg .sp).toNat = _
    omega
  rcases trapSave_spec hsp L.trapHandler L.trapBack with
    ⟨m', hexec, hframe, hsp', ha0, hra, hpc, hmem⟩
  have hentry : handlerEntry L m = m' := hexec
  rw [hentry]
  have hsame : ∀ r, r ≠ .stack i → L.SameOn r m.mem m'.mem := by
    intro r hr x hlo hhi
    refine hmem x ?_
    rcases outside_of_ne hr hlo hhi with h | h
    · left
      have : x < L.stack i := h
      omega
    · right
      have : L.stack i + stackSize ≤ x := h
      omega
  refine ⟨hframe, hsp', hra, ⟨by omega, by omega⟩, ?_, hsame⟩
  intro hcur
  refine ⟨hpc, ?_, ?_⟩
  · rw [ha0, hsp']
    exact hframe.scause
  · rw [load_current (hsame .currentProcess (by simp))]
    exact hcur

/-- The scheduler hands over: its context is written, and control goes to where the process `j` had left
off. -/
lemma switch_to_process {s : Sys} {j : Slot} {m₁ m₂ : Machine} (hcall : SchedulerCall L j s.m m₁)
    (hswtch : m₁.pc = L.swtch → m₂ = exec swtchCode m₁) :
    Saved L none .schedContext m₂.mem m₁ ∧
      load m₂.mem L.currentProcess = BitVec.ofNat 64 (L.proc j) ∧
      (∀ r, r ≠ .schedContext → r ≠ .currentProcess → r ≠ .schedStack →
        L.SameOn r s.m.mem m₂.mem) ∧
      ∀ f, L.stack j ≤ (f.reg .sp).toNat → Saved L (some j) (.context j) s.m.mem f →
        Resumes L (some j) f m₂ := by
  rcases swtch_between .schedContext (.context j) (by simp) rfl rfl hcall.old hcall.new
    with ⟨m', hexec, hsaved, hregs, hpc, hmem⟩
  have hm₂ : m₂ = m' := (hswtch hcall.pc).trans hexec
  rw [hm₂]
  have hall : ∀ r, r ≠ .schedContext → r ≠ .currentProcess → r ≠ .schedStack →
      L.SameOn r s.m.mem m'.mem := by
    intro r hctx hcur hst x hlo hhi
    rw [hmem r hctx x hlo hhi, hcall.frame r hcur hst x hlo hhi]
  refine ⟨⟨hsaved, ?_⟩, ?_, hall, ?_⟩
  · intro x hlo hhi
    exact hmem .schedStack (by simp) x (le_trans hcall.le_sp hlo) hhi
  · rw [load_current (hmem .currentProcess (by simp))]
    exact hcall.current
  · intro f hbase hf
    refine resumes_of_swtch hregs hpc hf ?_ ?_
    · exact hcall.frame (.context j) (by simp) (by simp)
    · intro x hlo hhi
      exact hall (.stack j) (by simp) (by simp) (by simp) x (le_trans hbase hlo) hhi

/-! ## One step -/

/-- The running process leaves the hart. -/
lemma KernelInv.leave {s : Sys} {i : Slot} {m₃ : Machine} {susp : Slot → Suspension}
    {callAt : Option Slot → Machine} {trapAt : Slot → Machine} (hinv : KernelInv L s)
    (hrun : s.running = some i) (hsusp : ∀ j, j ≠ i → susp j = s.susp j)
    (hcallAt : ∀ o, o ≠ some i → callAt o = s.callAt o) (htrapAt : ∀ j, j ≠ i → trapAt j = s.trapAt j)
    (hres : Resumes L none (s.callAt none) m₃)
    (hkeep : ∀ r, r ≠ .stack i → r ≠ .context i → r ≠ .currentProcess → L.SameOn r s.m.mem m₃.mem)
    (hparked : Parked L ⟨m₃, none, s.created, susp, callAt, trapAt⟩ i) :
    KernelInv L ⟨m₃, none, s.created, susp, callAt, trapAt⟩ where
  scheduler := by
    intro _
    right
    dsimp only
    rw [hcallAt none (by simp)]
    exact hres
  suspended := fun h => absurd rfl h
  current := by
    intro _ h
    exact absurd h (by simp)
  parked := by
    intro j hj _
    by_cases hji : j = i
    · rw [hji]
      exact hparked
    · have hpark := hinv.parked j hj (by simpa [hrun] using Ne.symm hji)
      refine hpark.congr (hsusp j hji) (hcallAt _ (by simpa using hji)) (htrapAt j hji) ?_ ?_
      · exact hkeep (.context j) (by simp) (by simpa using hji) (by simp)
      · exact hkeep (.stack j) (by simpa using hji) (by simp) (by simp)

/-- A process gets the hart. -/
lemma KernelInv.enter {s : Sys} {j : Slot} {m₁ m : Machine} (hinv : KernelInv L s)
    (hrun : s.running = none) (hj : s.created j) (hsp : L.schedStack ≤ (m₁.reg .sp).toNat)
    (hsched : Saved L none .schedContext m.mem m₁)
    (hcur : load m.mem L.currentProcess = BitVec.ofNat 64 (L.proc j))
    (hkeep : ∀ k, k ≠ j → L.SameOn (.context k) s.m.mem m.mem ∧ L.SameOn (.stack k) s.m.mem m.mem) :
    KernelInv L { s with m := m, running := some j, callAt := Function.update s.callAt none m₁ } where
  scheduler := fun h => absurd h (by simp)
  suspended := by
    intro _
    dsimp only
    rw [Function.update_self]
    exact ⟨hsp, hsched⟩
  current := by
    rintro i h
    rw [← Option.some.inj h]
    exact ⟨hj, hcur⟩
  parked := by
    intro k hk hne
    have hkj : k ≠ j := by
      rintro rfl
      exact hne rfl
    have hpark := hinv.parked k hk (by simp [hrun])
    refine hpark.congr rfl ?_ rfl (hkeep k hkj).1 (hkeep k hkj).2
    show Function.update s.callAt none m₁ (some k) = s.callAt (some k)
    rw [Function.update_of_ne (by simp)]

/-- The running process executes its own code. -/
lemma KernelInv.code {s : Sys} {i : Slot} {m' : Machine} {created : Slot → Prop}
    {susp : Slot → Suspension} (hinv : KernelInv L s) (hrun : s.running = some i)
    (hframe : ∀ r, (∀ k, r = .stack k → k ≠ i ∧ s.created k) → (∀ k, r = .context k → s.created k) →
      L.SameOn r s.m.mem m'.mem)
    (hcreated : ∀ j, s.created j → created j) (hsusp : ∀ j, s.created j → susp j = s.susp j)
    (hnew : ∀ j, created j → ¬ s.created j →
      Parked L { s with m := m', created := created, susp := susp } j) :
    KernelInv L { s with m := m', created := created, susp := susp } where
  scheduler := fun h => absurd (h.symm.trans hrun) (by simp)
  suspended := by
    intro _
    rcases hinv.suspended (by simp [hrun]) with ⟨hsp, hsched⟩
    refine ⟨hsp, hsched.congr .schedStack ?_ ?_ rfl hsp rfl⟩
    · exact hframe .schedContext (by simp) (by simp)
    · exact hframe .schedStack (by simp) (by simp)
  current := by
    intro j hj
    rcases hinv.current j hj with ⟨hc, hcur⟩
    refine ⟨hcreated j hc, ?_⟩
    rw [load_current (hframe .currentProcess (by simp) (by simp))]
    exact hcur
  parked := by
    intro j hj hne
    by_cases hc : s.created j
    · have hji : j ≠ i := by
        rintro rfl
        exact hne hrun
      refine (hinv.parked j hc hne).congr (hsusp j hc) rfl rfl ?_ ?_
      · exact hframe (.context j) (by simp) (by simpa using hc)
      · exact hframe (.stack j) (by simpa using ⟨hji, hc⟩) (by simp)
    · exact hnew j hj hc

/-- **Back from the trap.**  A process that was interrupted and is dispatched has the registers, the `pc`
and the interrupt-enable state it was interrupted with. -/
lemma sret_spec {s : Sys} {j : Slot} {m₁ m₂ m₃ m₄ : Machine} (hpark : Parked L s j)
    (hsusp : s.susp j = .trapped) (hcall : SchedulerCall L j s.m m₁)
    (hswtch : m₁.pc = L.swtch → m₂ = exec swtchCode m₁)
    (hret : Resumes L (some j) (s.callAt (some j)) m₂ →
      CallReturn L (handlerEntry L (s.trapAt j)) m₂ m₃)
    (hrestore : m₃.pc = L.trapBack → m₄ = exec trapVectorRestore m₃) :
    m₄.reg = (s.trapAt j).reg ∧ m₄.pc = (s.trapAt j).pc ∧ m₄.sie = (s.trapAt j).sie ∧
      ∀ r, r ≠ .stack j → L.SameOn r m₂.mem m₄.mem := by
  cases hpark with
  | fresh h => simp [h] at hsusp
  | yielded h => simp [h] at hsusp
  | trapped _ hle hsaved hroom hyield =>
      rcases switch_to_process hcall hswtch with ⟨_, _, hkeep, hresume⟩
      have hres := hresume _ hle hsaved
      rcases handlerEntry_spec hroom with ⟨hframe, hsp, hra, hroom', _, _⟩
      have hback := hret hres
      have hb : (m₃.reg .sp).toNat = ((s.trapAt j).reg .sp).toNat - 288 := by
        rw [hback.regs .sp (by decide), hsp]
      -- the frame stands above everything written since: by the handler, the others, the way back
      have hframe' : TrapFrame m₃.mem (((s.trapAt j).reg .sp).toNat - 288)
          ((s.trapAt j).trap L.trapVector timerCause) := by
        refine hframe.congr fun x hlo hhi => ?_
        have hin : L.base (.stack j) ≤ x ∧ x < L.base (.stack j) + L.size (.stack j) := by
          show L.stack j ≤ x ∧ x < L.stack j + stackSize
          have := hroom.1
          have := hroom.2
          omega
        have hup : ((handlerEntry L (s.trapAt j)).reg .sp).toNat ≤ x := by omega
        have hsp₂ : ((s.callAt (some j)).reg .sp).toNat ≤ x := le_trans hyield.sp_le hup
        calc m₃.mem x = m₂.mem x := hback.frame (.stack j) x hin.1 hin.2 (.inr hup)
          _ = (s.callAt (some j)).mem x := hres.stack x hsp₂ hin.2
          _ = (handlerEntry L (s.trapAt j)).mem x :=
              hyield.frame (.stack j) (by simp) x hin.1 hin.2 (.inr hup)
      have hlt : ((s.trapAt j).reg .sp).toNat - 288 + 288 ≤ 2 ^ 64 := by
        have := ((s.trapAt j).reg .sp).isLt
        have := hroom.1
        omega
      rcases trapRestore_spec hb hlt hframe' with ⟨m', hexec, hreg, hpc, hstatus, hmem⟩
      have hm₄ : m₄ = m' := (hrestore (hback.pc.trans hra)).trans hexec
      rw [hm₄]
      refine ⟨hreg, hpc, ?_, ?_⟩
      · rw [Machine.sie, hstatus, leaveStatus_sie]
        exact enterStatus_spie _
      · intro r hr x hlo hhi
        rw [hmem]
        refine hback.frame r x hlo hhi ?_
        rcases outside_of_ne hr hlo hhi with h | h
        · left
          have : x < L.stack j := h
          have := hroom'.1
          omega
        · right
          have : L.stack j + stackSize ≤ x := h
          have := hroom'.2
          omega

/-- **One step of the system.** -/
lemma KernelStep.inv {s s' : Sys} {a : KernelAct} (hstep : KernelStep L s a s') (hinv : KernelInv L s) :
    KernelInv L s' := by
  cases hstep with
  | @code i m' hrun hcode =>
      refine hinv.code hrun (fun r hst _ => hcode r hst) (fun _ h => h) (fun _ _ => rfl) ?_
      intro j hj hnot
      exact absurd hj hnot
  | @create i k m' hrun hk hcode =>
      refine hinv.code hrun ?_ (fun j hj => .inr hj) ?_ ?_
      · intro r hst hctx
        refine hcode.frame r hst ?_
        rintro rfl
        exact hk (hctx k rfl)
      · intro j hj
        refine Function.update_of_ne ?_ _ _
        rintro rfl
        exact hk hj
      · intro j hj hnot
        have hjk : j = k := hj.resolve_right hnot
        rw [hjk]
        exact .fresh (Function.update_self ..) hcode.ra hcode.sp
  | @preempt i m₂ m₃ hrun hsie hroom hhandler hswtch =>
      rcases handlerEntry_spec hroom with ⟨_, _, _, hroom', htimer, hkeep⟩
      have hcur := (hinv.current i hrun).2
      have hcall := hhandler (htimer (by
        rw [hcur]
        exact proc_ne_zero L i))
      rcases switch_to_scheduler hinv hrun ((load_current (hkeep .currentProcess (by simp))).trans hcur)
        hkeep hroom' hcall hswtch with ⟨hle, hsaved, hres, hall⟩
      refine hinv.leave hrun (fun j hj => Function.update_of_ne hj _ _)
        (fun o ho => Function.update_of_ne ho _ _) (fun j hj => Function.update_of_ne hj _ _) hres hall ?_
      refine .trapped (Function.update_self ..) ?_ ?_ ?_ ?_
      all_goals dsimp only
      all_goals simp only [Function.update_self]
      · exact hle
      · exact hsaved
      · exact hroom
      · exact hcall
  | @yield i m₂ m₃ hrun hroom hyield hswtch =>
      have hcur := (hinv.current i hrun).2
      have hcall := hyield (by
        rw [hcur]
        exact proc_ne_zero L i)
      rcases switch_to_scheduler hinv hrun hcur (fun _ _ _ _ _ => rfl) hroom hcall hswtch with
        ⟨hle, hsaved, hres, hall⟩
      refine hinv.leave hrun (fun j hj => Function.update_of_ne hj _ _)
        (fun o ho => Function.update_of_ne ho _ _) (fun _ _ => rfl) hres hall ?_
      refine .yielded (Function.update_self ..) ?_ ?_
      all_goals dsimp only
      all_goals simp only [Function.update_self]
      · exact hle
      · exact hsaved
  | @resume j m₁ m₂ hrun hj hsusp hcall hswtch =>
      have hcall := hcall (hinv.scheduler hrun)
      rcases switch_to_process hcall hswtch with ⟨hsched, hcur, hkeep, _⟩
      refine hinv.enter hrun hj hcall.le_sp hsched hcur fun k _ => ⟨?_, ?_⟩
      · exact hkeep (.context k) (by simp) (by simp) (by simp)
      · exact hkeep (.stack k) (by simp) (by simp) (by simp)
  | @sret j m₁ m₂ m₃ m₄ hrun hj hsusp hcall hswtch hret hrestore =>
      have hcall := hcall (hinv.scheduler hrun)
      rcases switch_to_process hcall hswtch with ⟨hsched, hcur, hkeep, _⟩
      have hpark := hinv.parked j hj (by simp [hrun])
      rcases sret_spec hpark hsusp hcall hswtch hret hrestore with ⟨_, _, _, hmem⟩
      refine hinv.enter hrun hj hcall.le_sp ?_ ?_ fun k hk => ⟨?_, ?_⟩
      · exact hsched.congr .schedStack (hmem .schedContext (by simp))
          (hmem .schedStack (by simp)) rfl hcall.le_sp rfl
      · rw [load_current (hmem .currentProcess (by simp))]
        exact hcur
      · intro x hlo hhi
        rw [hmem (.context k) (by simp) x hlo hhi]
        exact hkeep (.context k) (by simp) (by simp) (by simp) x hlo hhi
      · intro x hlo hhi
        rw [hmem (.stack k) (by simpa using hk) x hlo hhi]
        exact hkeep (.stack k) (by simp) (by simp) (by simp) x hlo hhi

/-! ## Runs -/

/-- Before the scheduler's first `swtch`: no created process has run. -/
structure KernelStart (L : KernelAddrs) (s : Sys) : Prop where
  running : s.running = none
  scheduler : s.callAt none = s.m
  fresh : ∀ j, s.created j → s.susp j = .fresh ∧
    load s.m.mem (L.base (.context j)) = L.forkret ∧
    load s.m.mem (L.base (.context j) + 8) = BitVec.ofNat 64 (L.stack j + stackSize)

lemma KernelStart.inv {s : Sys} (h : KernelStart L s) : KernelInv L s where
  scheduler := fun _ => .inl h.scheduler.symm
  suspended := fun hne => absurd h.running hne
  current := by
    intro i hi
    exact absurd (h.running.symm.trans hi) (by simp)
  parked := by
    intro j hj _
    rcases h.fresh j hj with ⟨hsusp, hra, hsp⟩
    exact .fresh hsusp hra hsp

/-- An interrupted process stays so until it is dispatched. -/
lemma KernelStep.keepsTrapped {s s' : Sys} {a : KernelAct} {i : Slot} (hstep : KernelStep L s a s')
    (hne : a ≠ .dispatch i) (hi : s.created i ∧ s.running ≠ some i) :
    s'.created i ∧ s'.running ≠ some i ∧ s'.susp i = s.susp i ∧ s'.trapAt i = s.trapAt i := by
  rcases hi with ⟨hc, hrun⟩
  cases hstep with
  | code => exact ⟨hc, hrun, rfl, rfl⟩
  | @create _ k _ _ hk _ =>
      have hik : i ≠ k := by
        rintro rfl
        exact hk hc
      exact ⟨.inr hc, hrun, Function.update_of_ne hik _ _, rfl⟩
  | @preempt j _ _ hj =>
      have hij : i ≠ j := by
        rintro rfl
        exact hrun hj
      exact ⟨hc, by simp, Function.update_of_ne hij _ _, Function.update_of_ne hij _ _⟩
  | @yield j _ _ hj =>
      have hij : i ≠ j := by
        rintro rfl
        exact hrun hj
      exact ⟨hc, by simp, Function.update_of_ne hij _ _, rfl⟩
  | @resume j =>
      have hij : j ≠ i := by
        rintro rfl
        exact hne rfl
      exact ⟨hc, by simpa using hij, rfl, rfl⟩
  | @sret j =>
      have hij : j ≠ i := by
        rintro rfl
        exact hne rfl
      exact ⟨hc, by simpa using hij, rfl, rfl⟩

lemma Run.keepsTrapped {i : Slot} : ∀ {s s' : Sys} {ls : List KernelAct},
    Run (KernelStep L) s ls s' → KernelAct.dispatch i ∉ ls → s.created i → s.running ≠ some i →
      s'.susp i = s.susp i ∧ s'.trapAt i = s.trapAt i
  | _, _, _, .nil _, _, _, _ => ⟨rfl, rfl⟩
  | _, _, _, .cons hstep hrun, hls, hc, hr => by
      rw [List.mem_cons, not_or] at hls
      rcases hstep.keepsTrapped (Ne.symm hls.1) ⟨hc, hr⟩ with ⟨hc', hr', hsusp, htrap⟩
      have ih := Run.keepsTrapped hrun hls.2 hc' hr'
      exact ⟨ih.1.trans hsusp, ih.2.trans htrap⟩

/-- **Preemption is transparent.**  A process is interrupted in any state the system can reach, with any
registers; the others and the scheduler take any steps; when it is dispatched again and `trap_vector` has
executed `sret`, it has the 31 registers, the `pc` and the interrupt-enable state of the interrupt. -/
theorem preemption_transparent {s₀ s s₁ s₂ s₃ : Sys} {ls ls' : List KernelAct} {i : Slot}
    (hstart : KernelStart L s₀) (hreach : Run (KernelStep L) s₀ ls s)
    (hpreempt : KernelStep L s (.preempt i) s₁) (hothers : Run (KernelStep L) s₁ ls' s₂)
    (hi : KernelAct.dispatch i ∉ ls') (hback : KernelStep L s₂ (.dispatch i) s₃) :
    (∀ r, s₃.m.reg r = s.m.reg r) ∧ s₃.m.pc = s.m.pc ∧ s₃.m.sie = s.m.sie := by
  have hstep : ∀ s a s', KernelStep L s a s' → KernelInv L s → KernelInv L s' := fun _ _ _ h => h.inv
  have hinv := hreach.invariant hstep hstart.inv
  have hinv₂ := hothers.invariant hstep (hpreempt.inv hinv)
  have htrapped : s₁.susp i = .trapped ∧ s₁.trapAt i = s.m ∧ s₁.created i ∧ s₁.running ≠ some i := by
    cases hpreempt with
    | preempt hrun =>
        exact ⟨Function.update_self .., Function.update_self .., (hinv.current i hrun).1, by simp⟩
  rcases htrapped with ⟨hsusp, htrap, hcreated, hrun⟩
  have hkept := Run.keepsTrapped hothers hi hcreated hrun
  cases hback with
  | resume _ _ hne => exact absurd (hkept.1.trans hsusp) hne
  | @sret _ m₁ m₂ m₃ m₄ hnone hc hsusp₂ hcall hswtch hret hrestore =>
      have hpark := hinv₂.parked i hc (by simp [hnone])
      rcases sret_spec hpark hsusp₂ (hcall (hinv₂.scheduler hnone)) hswtch hret hrestore with
        ⟨hreg, hpc, hsie, _⟩
      rw [hkept.2, htrap] at hreg hpc hsie
      exact ⟨fun r => congrFun hreg r, hpc, hsie⟩

end Invariant

/-! ## A run -/

/-- A small memory map. -/
def sampleAddrs : KernelAddrs where
  procs := 0x1000
  currentProcess := 0x2000
  schedContext := 0x2008
  schedStack := 0x3000
  schedStackSize := 0x1000
  stack := fun i => 0x10000 + stackSize * i
  room := 256
  trapVector := 0x100
  trapHandler := 0x200
  trapBack := 0x180
  swtch := 0x300
  forkret := 0x400

def sampleLayout : KernelLayout where
  toKernelAddrs := sampleAddrs
  bounds := by
    have hn : nproc = 16 := rfl
    rintro (⟨i, hi⟩ | ⟨i, hi⟩ | _ | _ | _)
    all_goals
      simp only [KernelAddrs.base, KernelAddrs.size, KernelAddrs.proc, sampleAddrs, stackSize,
        sizeofProcess, contextOffset]
      omega
  disjoint := by
    have hn : nproc = 16 := rfl
    rintro (⟨i, hi⟩ | ⟨i, hi⟩ | _ | _ | _) (⟨j, hj⟩ | ⟨j, hj⟩ | _ | _ | _) h
    all_goals
      simp only [KernelAddrs.base, KernelAddrs.size, KernelAddrs.proc, sampleAddrs, stackSize,
        sizeofProcess, contextOffset, ne_eq, reduceCtorEq, not_true_eq_false, not_false_eq_true,
        Region.stack.injEq, Region.context.injEq, Fin.mk.injEq] at h ⊢
    all_goals omega
  notNull := by decide

/-- `yield()`, compiled without a frame of its own. -/
def sampleYield (m : Machine) : Machine where
  reg := fun
    | .a0 => load m.mem sampleAddrs.currentProcess + BitVec.ofNat 64 contextOffset
    | .a1 => BitVec.ofNat 64 sampleAddrs.schedContext
    | .ra => 0x500
    | r => m.reg r
  csr := m.csr
  pc := sampleAddrs.swtch
  mem := store m.mem sampleAddrs.currentProcess 0

lemma sampleYield_call (m : Machine) : YieldCall sampleLayout m (sampleYield m) where
  pc := rfl
  old := rfl
  new := rfl
  sp_le := le_rfl
  le_sp := Nat.le_add_right _ _
  frame := by
    intro r hr x hlo hhi _
    exact store_outside m.mem 0 (outside_of_ne (L := sampleLayout) hr hlo hhi)

/-- `scheduler()`, for the process `j`. -/
def sampleScheduler (j : Slot) (m : Machine) : Machine where
  reg := fun
    | .a0 => BitVec.ofNat 64 sampleAddrs.schedContext
    | .a1 => BitVec.ofNat 64 (sampleAddrs.base (.context j))
    | .ra => 0x600
    | .sp => 0x3F00
    | r => m.reg r
  csr := m.csr
  pc := sampleAddrs.swtch
  mem := store m.mem sampleAddrs.currentProcess (BitVec.ofNat 64 (sampleAddrs.proc j))

lemma sampleScheduler_call (j : Slot) (m : Machine) :
    SchedulerCall sampleLayout j m (sampleScheduler j m) where
  pc := rfl
  old := rfl
  new := rfl
  current := load_store ..
  le_sp := by
    show 0x3000 ≤ (0x3F00 : BitVec 64).toNat
    decide
  frame := by
    intro r hr _ x hlo hhi
    exact store_outside m.mem _ (outside_of_ne (L := sampleLayout) hr hlo hhi)

/-- The way back from `swtch` to the caller of the function that was called in `m`. -/
def sampleReturn (m m₂ : Machine) : Machine := { m with pc := m.reg .ra, mem := m₂.mem }

lemma sampleReturn_return (m m₂ : Machine) : CallReturn sampleLayout m m₂ (sampleReturn m m₂) :=
  ⟨rfl, fun _ _ => rfl, fun _ _ _ _ _ => rfl⟩

/-- The contexts of two new processes. -/
def sampleContexts : List (ℕ × BitVec 64) :=
  [(sampleAddrs.base (.context 0), sampleAddrs.forkret),
    (sampleAddrs.base (.context 0) + 8, BitVec.ofNat 64 (sampleAddrs.stack 0 + stackSize)),
    (sampleAddrs.base (.context 1), sampleAddrs.forkret),
    (sampleAddrs.base (.context 1) + 8, BitVec.ofNat 64 (sampleAddrs.stack 1 + stackSize))]

def sampleMachine : Machine := ⟨fun _ => 0, fun _ => 0, 0, storeAll (fun _ => 0) 0 sampleContexts⟩

def sampleStart : Sys where
  m := sampleMachine
  running := none
  created := fun j => j = 0 ∨ j = 1
  susp := fun _ => .fresh
  callAt := fun _ => sampleMachine
  trapAt := fun _ => sampleMachine

lemma sampleStart_start : KernelStart sampleLayout sampleStart where
  running := rfl
  scheduler := rfl
  fresh := by
    intro j hj
    have hload : ∀ v ∈ sampleContexts, load sampleMachine.mem v.1 = v.2 := by
      intro v hv
      have := load_storeAll 0 sampleContexts (fun _ => 0) (by decide) v hv
      rwa [Nat.zero_add] at this
    refine ⟨rfl, ?_⟩
    rcases hj with rfl | rfl
    · exact ⟨hload (_, _) (.head _), hload (_, _) (.tail _ (.head _))⟩
    · exact ⟨hload (_, _) (.tail _ (.tail _ (.head _))),
        hload (_, _) (.tail _ (.tail _ (.tail _ (.head _))))⟩

/-- Process `i` in the middle of its work: `x`*n* holds *n*, and interrupts are on. -/
def sampleWork (i : Slot) (mem : Mem) : Machine where
  reg := fun
    | .sp => BitVec.ofNat 64 (sampleAddrs.stack i + stackSize)
    | r => BitVec.ofNat 64 (regIndex r)
  csr := fun _ => 2
  pc := 0x700
  mem := mem

lemma sampleWork_sie (i : Slot) (mem : Mem) : (sampleWork i mem).sie = true := by
  show (2 : BitVec 64).getLsbD 1 = true
  decide

lemma sampleWork_room (i : Slot) {n : ℕ} (mem : Mem) (hn : n ≤ 288) :
    Room sampleLayout i n (sampleWork i mem) := by
  have hi : (i : ℕ) < 16 := i.isLt
  have hsp : ((sampleWork i mem).reg .sp).toNat = 0x10000 + 4096 * i + 4096 := by
    show (BitVec.ofNat 64 (0x10000 + 4096 * (i : ℕ) + 4096)).toNat = _
    rw [BitVec.toNat_ofNat, Nat.mod_eq_of_lt (by omega)]
  have hstack : sampleLayout.stack i = 0x10000 + 4096 * i := rfl
  have hroom : sampleLayout.room = 256 := rfl
  have hsize : stackSize = 4096 := rfl
  refine ⟨?_, ?_⟩ <;> omega

/-- Process 0 is interrupted, process 1 runs and yields, and process 0 goes on as it was. -/
theorem preemption_transparent_sample : ∃ s s₁ s₂ s₃ : Sys,
    Run (KernelStep sampleLayout) sampleStart [.dispatch 0, .code] s ∧
      KernelStep sampleLayout s (.preempt 0) s₁ ∧
      Run (KernelStep sampleLayout) s₁ [.dispatch 1, .code, .yield 1] s₂ ∧
      KernelStep sampleLayout s₂ (.dispatch 0) s₃ ∧
      s₃.m.reg .t0 = 5 ∧ s₃.m.pc = 0x700 ∧ s₃.m.sie = true := by
  have hcode : ∀ (created : Slot → Prop) (i : Slot) (m : Machine),
      EntryCode sampleLayout created i m (sampleWork i m.mem) := fun _ _ _ _ _ _ _ _ => rfl
  have hreach : ∃ s, Run (KernelStep sampleLayout) sampleStart [.dispatch 0, .code] s ∧
      (∃ mem, s.m = sampleWork 0 mem) ∧ s.running = some 0 ∧ s.created = sampleStart.created ∧
      s.susp 1 = .fresh := by
    refine ⟨_, .cons (.resume rfl (.inl rfl) (by simp [sampleStart])
      (fun _ => sampleScheduler_call 0 _) fun _ => rfl)
      (.cons (.code rfl (hcode _ 0 _)) (.nil _)), ⟨_, rfl⟩, rfl, rfl, rfl⟩
  rcases hreach with ⟨s, hreach, ⟨mem, hm⟩, hrun, hcreated, hfresh⟩
  have hpreempt : ∃ s₁, KernelStep sampleLayout s (.preempt 0) s₁ ∧ s₁.running = none ∧
      s₁.created = s.created ∧ s₁.susp 0 = .trapped ∧ s₁.susp 1 = .fresh := by
    refine ⟨_, .preempt hrun ?_ ?_ (fun _ => sampleYield_call _) fun _ => rfl, rfl, rfl, rfl, ?_⟩
    · rw [hm]
      exact sampleWork_sie 0 mem
    · rw [hm]
      exact sampleWork_room 0 mem le_rfl
    · exact hfresh
  rcases hpreempt with ⟨s₁, hpreempt, hrun₁, hcreated₁, htrapped, hfresh₁⟩
  have hothers : ∃ s₂, Run (KernelStep sampleLayout) s₁ [.dispatch 1, .code, .yield 1] s₂ ∧
      s₂.running = none ∧ s₂.created = s₁.created ∧ s₂.susp 0 = .trapped := by
    refine ⟨_, .cons (.resume hrun₁ ?_ ?_ (fun _ => sampleScheduler_call 1 _) fun _ => rfl)
      (.cons (.code rfl (hcode _ 1 _))
        (.cons (.yield rfl ?_ (fun _ => sampleYield_call _) fun _ => rfl) (.nil _))), rfl, rfl, ?_⟩
    · rw [hcreated₁, hcreated]
      exact .inr rfl
    · rw [hfresh₁]
      simp
    · exact sampleWork_room 1 _ (Nat.zero_le _)
    · exact htrapped
  rcases hothers with ⟨s₂, hothers, hrun₂, hcreated₂, htrapped₂⟩
  have hback : ∃ s₃, KernelStep sampleLayout s₂ (.dispatch 0) s₃ := by
    refine ⟨_, .sret hrun₂ ?_ htrapped₂ (fun _ => sampleScheduler_call 0 _) (fun _ => rfl)
      (fun _ => sampleReturn_return _ _) fun _ => rfl⟩
    rw [hcreated₂, hcreated₁, hcreated]
    exact .inl rfl
  rcases hback with ⟨s₃, hback⟩
  rcases preemption_transparent sampleStart_start hreach hpreempt hothers (by decide) hback with
    ⟨hreg, hpc, hsie⟩
  refine ⟨s, s₁, s₂, s₃, hreach, hpreempt, hothers, hback, ?_, ?_, ?_⟩
  · rw [hreg, hm]
    rfl
  · rw [hpc, hm]
    rfl
  · rw [hsie, hm]
    exact sampleWork_sie 0 mem

end NetStack
