import NetStack.Lib.Transition

/-!
# The scheduler, statement by statement

`process.c` on one hart: `scheduler`, `yield`, `forkret`, `proc_create` and the trap handler that calls
`yield`, as the hart executes them one statement at a time.  What a call is doing is a `Frame` on the
stack it runs on, top first; the boot stack has `main` and `scheduler`, and every process has a stack page.
`swtch` is two statements, saving and loading; a saved `sp` is a stack with a depth.  A timer interrupt
is possible between any two statements while `sstatus.SIE` is set; it pushes a trap frame and a call of
`yield`.

Process code is arbitrary: an entry function may call `yield` and `proc_create`, change `SIE`, or return,
at any time.  The values of `s0`–`s11` after a statement are up to the compiler, and part of the action.
-/

namespace NetStack

/-! ## Data -/

abbrev nproc : ℕ := 16

/-- An index into `procs`. -/
abbrev Slot := Fin nproc

instance : NeZero nproc := ⟨by decide⟩

/-- `enum proc_state`. -/
inductive ProcState
  | unused
  | runnable
  | running
  | zombie
  deriving DecidableEq, Repr

/-- The boot stack, or the stack page at an address. -/
inductive StackId
  | boot
  | page (a : ℕ)
  deriving DecidableEq, Repr

/-- The return addresses that can stand in a context. -/
inductive RetAddr
  | null
  | forkret
  | yield
  | scheduler
  deriving DecidableEq, Repr

/-- `struct context`.  `sp` is `NULL`, or a stack with the number of frames on it (0 is its top address);
`s` stands for `s0`–`s11`. -/
structure Context where
  ra : RetAddr
  sp : Option (StackId × ℕ)
  s : ℕ
  deriving DecidableEq, Repr

/-- `mem_set(&context, 0, sizeof(struct context))`. -/
def Context.zero : Context := ⟨.null, none, 0⟩

/-- `struct process`.  Entry points are numbered; `none` is `NULL`. -/
structure Proc where
  pid : ℕ
  state : ProcState
  stack : Option ℕ
  context : Context
  entry : Option ℕ
  name : ℕ → UInt8

/-- The arguments of `proc_create`. -/
structure Request where
  entry : Option ℕ
  name : Option (List UInt8)
  deriving DecidableEq, Repr

/-! ## Control -/

/-- Where `yield` is. -/
inductive YieldPc
  /-- `p = current_process;` -/
  | load
  /-- `if (p)` -/
  | test
  /-- `if (p->state == PROC_RUNNING)` -/
  | testState
  /-- `p->state = PROC_RUNNABLE;` -/
  | setRunnable
  /-- `current_process = NULL;` -/
  | clearCurrent
  /-- the first half of `swtch(&p->context, &sched_context);` -/
  | save
  /-- the second half -/
  | restore
  | ret
  deriving DecidableEq, Repr

/-- Where `scheduler` is. -/
inductive SchedPc
  /-- `found = 0;` -/
  | start
  /-- `i < NPROC` -/
  | loop (i : ℕ) (found : Bool)
  /-- `if (p->state == PROC_RUNNABLE)` -/
  | testState (i : Slot) (found : Bool)
  /-- `p->state = PROC_RUNNING;` -/
  | setRunning (i : Slot)
  /-- `current_process = p;` -/
  | setCurrent (i : Slot)
  /-- the first half of `swtch(&sched_context, &p->context);` -/
  | save (i : Slot)
  /-- the second half -/
  | restore (i : Slot)
  /-- `current_process = NULL;` -/
  | clearCurrent (i : Slot)
  /-- `found = 1;` -/
  | setFound (i : Slot)
  /-- `if (!found)` -/
  | testFound (found : Bool)
  /-- `i < NPROC`, of the search for an active process -/
  | scan (i : ℕ)
  /-- `if (procs[i].state != PROC_UNUSED && procs[i].state != PROC_ZOMBIE)` -/
  | testActive (i : Slot)
  /-- `if (!active)` -/
  | testDone (active : Bool)
  /-- `wfi` -/
  | wfi
  deriving DecidableEq, Repr

/-- Where `forkret` is. -/
inductive ForkretPc
  /-- `if (current_process && current_process->entry)` -/
  | test
  /-- `current_process->entry();` -/
  | call
  | inEntry
  /-- `if (current_process)` -/
  | testCurrent
  /-- `current_process->state = PROC_ZOMBIE;` -/
  | setZombie
  /-- `yield();` -/
  | callYield
  /-- `while (1) {}` -/
  | spin
  deriving DecidableEq, Repr

/-- Where `proc_create` is. -/
inductive CreatePc
  /-- `i < NPROC` -/
  | scan (i : ℕ)
  /-- `if (procs[i].state == PROC_UNUSED)` -/
  | testState (i : Slot)
  /-- `stack = mem_alloc(STACK_SIZE);` -/
  | alloc (k : Slot)
  /-- the `n`-th store to `*p`; `id` numbers the call -/
  | fill (id n : ℕ) (k : Slot) (a : ℕ)
  /-- `return p;` -/
  | done (id : ℕ) (k : Slot)
  deriving DecidableEq, Repr

/-- A function call in progress. -/
inductive Frame
  | main (finished : Bool)
  | sched (pc : SchedPc)
  | forkret (pc : ForkretPc)
  | entry
  | yield (pc : YieldPc) (p : Option Slot)
  /-- `trap_vector`, which called `trap_handler`; `sret` will restore `sie` -/
  | trap (sie : Bool)
  | create (r : Request) (pc : CreatePc)
  deriving DecidableEq, Repr

/-- The kernel's variables, the stacks, and the hart: `SIE`, `s0`–`s11` and the stack it is on.

What follows is history: the slots (with their requests) that calls of `proc_create` took, in order;
the calls that returned a slot; the dispatches, in order, and the processes that have run; the last
context each stack's owner saved; how often an entry function was called on each stack, and the
stacks whose entry function has returned. -/
structure Kernel where
  procs : Slot → Proc
  current : Option Slot
  schedContext : Context
  pages : List ℕ
  sie : Bool
  sregs : ℕ
  cur : StackId
  stack : StackId → List Frame
  claimed : List (Slot × Request)
  returned : List (ℕ × Slot)
  dispatches : List Slot
  hasRun : Slot → Bool
  lastSaved : StackId → Option Context
  entryCalls : StackId → ℕ
  entryDone : StackId → Bool

namespace Kernel

/-- The frames of the stack the hart is on. -/
def frames (s : Kernel) : List Frame := s.stack s.cur

def setFrames (s : Kernel) (fs : List Frame) : Kernel :=
  { s with stack := Function.update s.stack s.cur fs }

def setProc (s : Kernel) (i : Slot) (p : Proc) : Kernel :=
  { s with procs := Function.update s.procs i p }

def setState (s : Kernel) (i : Slot) (st : ProcState) : Kernel :=
  s.setProc i { s.procs i with state := st }

def setCurrent (s : Kernel) (p : Option Slot) : Kernel := { s with current := p }

/-! ## `swtch` -/

/-- What the first half of `swtch` stores, in a function that it returns to at `ra`. -/
def context (s : Kernel) (ra : RetAddr) : Context := ⟨ra, some (s.cur, s.frames.length), s.sregs⟩

/-- Remember what the running stack's owner saved. -/
def remember (s : Kernel) (c : Context) : Kernel :=
  { s with lastSaved := Function.update s.lastSaved s.cur (some c) }

/-- The second half of `swtch`: the hart goes to the stack of the context, with the frames it had, and
returns to `ra`.  A context that does not describe a suspended call leads nowhere: what is left below a stack pointer
is not kept, and no run whose interrupts are `Quiet` (`SchedulerSteps`) comes to need it. -/
def load (s : Kernel) (c : Context) : Option Kernel :=
  match c.sp with
  | none => none
  | some (k, n) =>
      if n ≤ (s.stack k).length then
        match c.ra, (s.stack k).drop ((s.stack k).length - n) with
        | .forkret, fs => some (go k (.forkret .test :: fs))
        | .yield, .yield .restore p :: fs => some (go k (.yield .ret p :: fs))
        | .scheduler, .sched (.restore i) :: fs => some (go k (.sched (.clearCurrent i) :: fs))
        | _, _ => none
      else none
where
  go (k : StackId) (fs : List Frame) : Kernel :=
    { s with cur := k, stack := Function.update s.stack k fs, sregs := c.s }

/-! ## `yield` -/

def yieldStep (s : Kernel) (rest : List Frame) (pc : YieldPc) (p : Option Slot) : Option Kernel :=
  match pc, p with
  | .load, _ => some (s.setFrames (.yield .test s.current :: rest))
  | .test, none => some (s.setFrames rest)
  | .test, some i => some (s.setFrames (.yield .testState (some i) :: rest))
  | .testState, some i =>
      if (s.procs i).state = .running then some (s.setFrames (.yield .setRunnable (some i) :: rest))
      else some (s.setFrames (.yield .clearCurrent (some i) :: rest))
  | .setRunnable, some i =>
      some ((s.setState i .runnable).setFrames (.yield .clearCurrent (some i) :: rest))
  | .clearCurrent, some i => some ((s.setCurrent none).setFrames (.yield .save (some i) :: rest))
  | .save, some i =>
      let c := s.context .yield
      some (((s.setProc i { s.procs i with context := c }).remember c).setFrames
        (.yield .restore (some i) :: rest))
  | .restore, some _ => s.load s.schedContext
  | .ret, _ => some (s.setFrames rest)
  | _, none => none

/-! ## `scheduler` -/

def schedStep (s : Kernel) (rest : List Frame) : SchedPc → Option Kernel
  | .start => some (s.setFrames (.sched (.loop 0 false) :: rest))
  | .loop i found =>
      if h : i < nproc then some (s.setFrames (.sched (.testState ⟨i, h⟩ found) :: rest))
      else some (s.setFrames (.sched (.testFound found) :: rest))
  | .testState i found =>
      if (s.procs i).state = .runnable then some (s.setFrames (.sched (.setRunning i) :: rest))
      else some (s.setFrames (.sched (.loop (i + 1) found) :: rest))
  | .setRunning i => some ((s.setState i .running).setFrames (.sched (.setCurrent i) :: rest))
  | .setCurrent i => some ((s.setCurrent (some i)).setFrames (.sched (.save i) :: rest))
  | .save i =>
      let c := s.context .scheduler
      some (({ s with schedContext := c }.remember c).setFrames (.sched (.restore i) :: rest))
  | .restore i =>
      { s with
        dispatches := s.dispatches ++ [i]
        hasRun := Function.update s.hasRun i true }.load (s.procs i).context
  | .clearCurrent i => some ((s.setCurrent none).setFrames (.sched (.setFound i) :: rest))
  | .setFound i => some (s.setFrames (.sched (.loop (i + 1) true) :: rest))
  | .testFound found =>
      if found then some (s.setFrames (.sched .start :: rest))
      else some (s.setFrames (.sched (.scan 0) :: rest))
  | .scan i =>
      if h : i < nproc then some (s.setFrames (.sched (.testActive ⟨i, h⟩) :: rest))
      else some (s.setFrames (.sched (.testDone false) :: rest))
  | .testActive i =>
      if (s.procs i).state ≠ .unused ∧ (s.procs i).state ≠ .zombie then
        some (s.setFrames (.sched (.testDone true) :: rest))
      else some (s.setFrames (.sched (.scan (i + 1)) :: rest))
  | .testDone active =>
      if active then some (s.setFrames (.sched .wfi :: rest))
      else
        -- `break`: back to `main`, which has nothing left to do
        match rest with
        | .main _ :: rest => some (s.setFrames (.main true :: rest))
        | _ => none
  | .wfi => some (s.setFrames (.sched .start :: rest))

/-! ## `forkret` -/

def forkretStep (s : Kernel) (rest : List Frame) : ForkretPc → Option Kernel
  | .test =>
      match s.current with
      | some i =>
          if (s.procs i).entry.isSome then some (s.setFrames (.forkret .call :: rest))
          else some ({ s with entryDone := Function.update s.entryDone s.cur true }.setFrames
            (.forkret .testCurrent :: rest))
      | none => some ({ s with entryDone := Function.update s.entryDone s.cur true }.setFrames
          (.forkret .testCurrent :: rest))
  | .call =>
      match s.current with
      | some i =>
          if (s.procs i).entry.isSome then
            let calls := Function.update s.entryCalls s.cur (s.entryCalls s.cur + 1)
            some ({ s with entryCalls := calls }.setFrames (.entry :: .forkret .inEntry :: rest))
          else none
      | none => none
  | .inEntry => none
  | .testCurrent =>
      if s.current.isSome then some (s.setFrames (.forkret .setZombie :: rest))
      else some (s.setFrames (.forkret .callYield :: rest))
  | .setZombie =>
      match s.current with
      | some i => some ((s.setState i .zombie).setFrames (.forkret .callYield :: rest))
      | none => none
  | .callYield => some (s.setFrames (.yield .load none :: .forkret .spin :: rest))
  | .spin => some s

/-! ## `proc_create` -/

/-- The bytes the copy loop takes from `name`. -/
def nameBytes (name : Option (List UInt8)) : List UInt8 :=
  ((name.getD []).takeWhile (· ≠ 0)).take 15

/-- The stores of `proc_create` to `*p`, in order. -/
def createStores (k : Slot) (a : ℕ) (r : Request) : List (Proc → Proc) :=
  [fun p => { p with pid := k + 1 },
    fun p => { p with state := .runnable },
    fun p => { p with stack := some a },
    fun p => { p with entry := r.entry }] ++
  (nameBytes r.name).zipIdx.map (fun x p => { p with name := Function.update p.name x.2 x.1 }) ++
  [fun p => { p with name := Function.update p.name (nameBytes r.name).length 0 },
    fun p => { p with context := .zero },
    fun p => { p with context := { p.context with sp := some (.page a, 0) } },
    fun p => { p with context := { p.context with ra := .forkret } }]

def createStep (s : Kernel) (rest : List Frame) (r : Request) : CreatePc → Option Kernel
  | .scan i =>
      if h : i < nproc then some (s.setFrames (.create r (.testState ⟨i, h⟩) :: rest))
      else some (s.setFrames rest)
  | .testState i =>
      if (s.procs i).state = .unused then some (s.setFrames (.create r (.alloc i) :: rest))
      else some (s.setFrames (.create r (.scan (i + 1)) :: rest))
  | .alloc _ => none
  | .fill id n k a =>
      match (createStores k a r)[n]? with
      | some f => some ((s.setProc k (f (s.procs k))).setFrames
          (.create r (if n + 1 < (createStores k a r).length then .fill id (n + 1) k a
            else .done id k) :: rest))
      | none => none
  | .done id k => some ({ s with returned := (id, k) :: s.returned }.setFrames rest)

/-- `mem_alloc(STACK_SIZE)` in `proc_create`: a page that is not in use, or `NULL`. -/
def allocStep (s : Kernel) (rest : List Frame) (r : Request) (k : Slot) : Option ℕ → Option Kernel
  | none => some (s.setFrames rest)
  | some a =>
      if a ∈ s.pages then none
      else some ({ s with
        pages := a :: s.pages
        claimed := s.claimed ++ [(k, r)]
        hasRun := Function.update s.hasRun k false }.setFrames
          (.create r (.fill s.claimed.length 0 k a) :: rest))

/-! ## Steps -/

inductive Act
  /-- the next statement of kernel code; `v` is what it leaves in `s0`–`s11` -/
  | step (v : ℕ)
  /-- `mem_alloc` returns -/
  | alloc (a : Option ℕ)
  /-- process code calls `yield()` -/
  | callYield
  /-- process code, or `main`, calls `proc_create` -/
  | callCreate (r : Request)
  /-- process code turns interrupts on or off -/
  | setSie (b : Bool)
  /-- an entry function returns -/
  | entryReturns
  /-- `main` calls `scheduler()` -/
  | callScheduler
  /-- a timer interrupt -/
  | interrupt
  deriving DecidableEq, Repr

/-- The next statement of the function on top of the stack. -/
def statement (s : Kernel) : List Frame → Option Kernel
  | .yield pc p :: rest => s.yieldStep rest pc p
  | .sched pc :: rest => s.schedStep rest pc
  | .forkret pc :: rest => s.forkretStep rest pc
  | .create r pc :: rest => s.createStep rest r pc
  | .trap sie :: rest => some ({ s with sie := sie }.setFrames rest)
  | .entry :: rest => some (s.setFrames (.entry :: rest))
  | .main finished :: rest => some (s.setFrames (.main finished :: rest))
  | [] => none

def step (s : Kernel) : Act → Option Kernel
  -- the statement runs with `s0`–`s11` as the compiler has set them before it
  | .step v => { s with sregs := v }.statement s.frames
  | .alloc a =>
      match s.frames with
      | .create r (.alloc k) :: rest => s.allocStep rest r k a
      | _ => none
  | .callYield =>
      match s.frames with
      | .entry :: rest => some (s.setFrames (.yield .load none :: .entry :: rest))
      | _ => none
  | .callCreate r =>
      match s.frames with
      | .entry :: rest => some (s.setFrames (.create r (.scan 0) :: .entry :: rest))
      | .main false :: rest => some (s.setFrames (.create r (.scan 0) :: .main false :: rest))
      | _ => none
  | .setSie b =>
      match s.frames with
      | .entry :: _ => some { s with sie := b }
      | _ => none
  | .entryReturns =>
      match s.frames with
      | .entry :: .forkret .inEntry :: rest =>
          some ({ s with entryDone := Function.update s.entryDone s.cur true }.setFrames
            (.forkret .testCurrent :: rest))
      | _ => none
  | .callScheduler =>
      match s.frames with
      | .main false :: rest => some (s.setFrames (.sched .start :: .main false :: rest))
      | _ => none
  | .interrupt =>
      if s.sie then
        some ({ s with sie := false }.setFrames (.yield .load none :: .trap s.sie :: s.frames))
      else none

/-- After `proc_init`, in `main`, with interrupts as `intr_on` left them. -/
def boot (sie : Bool) : Kernel where
  procs := fun _ => ⟨0, .unused, none, .zero, none, fun _ => 0⟩
  current := none
  schedContext := .zero
  pages := []
  sie := sie
  sregs := 0
  cur := .boot
  stack := fun k => if k = .boot then [.main false] else []
  claimed := []
  returned := []
  dispatches := []
  hasRun := fun _ => false
  lastSaved := fun _ => none
  entryCalls := fun _ => 0
  entryDone := fun _ => false

/-- A step in which a timer interrupt is taken only where `ok` allows it. -/
def Step (ok : Kernel → Prop) (s : Kernel) (a : Act) (s' : Kernel) : Prop :=
  s.step a = some s' ∧ (a = .interrupt → ok s)

end Kernel

end NetStack
