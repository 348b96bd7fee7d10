import NetStack.Lib.TxFifo
import NetStack.Process.MachinePanic
import NetStack.Trap.Ns16550a

/-!
# Printing under preemption

`uart_putc` waits for `THRE` and then stores a byte, and a timer interrupt may come in between.  Its handler prints a
line of its own and yields, so any number of processes may have seen the same empty FIFO and store their bytes one after
the other when they go on.

Who can be between the two steps at the same time follows from where the interrupts are off and from what `main` and
`scheduler` print when (`Inv`): each process once, and on top of them one handler.  So the sixteen places that
`uart_init` switches on are enough for fifteen processes and not for sixteen (`console_complete`).  `m_panic` does not
wait at all, and its seven bytes find room if there are at most eight processes (`panic_printed_iff`).

The device that gets the stores is an `Ns16550a`; what the system says of the FIFO and the line is what the device has
there (`Run.device`).

That many come together only if processes turn interrupts on: `SIE` goes into the trap frame of the process that is
preempted, and stays there (`Token`).  Otherwise two places are enough, for any number of processes; without the FIFO
there is one, and bytes are lost (`console_token`).
-/

namespace NetStack.Console

open Transition Trap

/-! ## The hart -/

/-- Who prints.  `base` is `main` and the `scheduler` it calls. -/
inductive Writer (P : ℕ)
  | base
  | process (i : Fin P)
  | handler
  deriving DecidableEq, Fintype

/-- What runs.  A handler runs on the stack of what it has interrupted. -/
inductive Code (P : ℕ)
  | base
  | process (i : Fin P)
  | handler (below : Option (Fin P))
  deriving DecidableEq

def Code.writer {P : ℕ} : Code P → Writer P
  | .base => .base
  | .process i => .process i
  | .handler _ => .handler

/-- The process on whose stack it runs. -/
def Code.stack {P : ℕ} : Code P → Option (Fin P)
  | .base => none
  | .process i => some i
  | .handler below => below

/-- Where `main` is: before its call of `scheduler`, in it, or after. -/
inductive MainPhase
  | before
  | scheduling
  | after
  deriving DecidableEq, Repr

structure Sys (P : ℕ) where
  tx : TxFifo.Tx (Writer P) (BitVec 8)
  code : Code P
  phase : MainPhase
  /-- The processes that have not finished. -/
  alive : Finset (Fin P)
  sie : Bool
  /-- The processes off the hart whose handler will set `SIE` when it returns. -/
  trapped : Finset (Fin P)

inductive Event (P : ℕ)
  | tx (e : TxFifo.Event (Writer P) (BitVec 8))
  | tick
  | back
  | yield
  | dispatch (i : Fin P)
  | exit
  | intrOn
  | start
  | finish
  | setSie (b : Bool)
  deriving DecidableEq

variable {P : ℕ}

/-- `uart_putc` is not under way. -/
def Sys.Idle (s : Sys P) : Prop := s.code.writer ∉ s.tx.ready

/-- **A step.**  A timer interrupt finds `current_process` set on the stack of a process and null on the boot stack, so
that the handler there does not yield.  Interrupts in `scheduler` between `current_process = p` and the switch to `p` are
left out: `yield` would take the boot stack for the one of `p`. -/
inductive Step (depth : ℕ) : Sys P → Event P → Sys P → Prop
  /-- The loop of `uart_putc` ends.  `scheduler` itself prints nothing while it has processes. -/
  | check {s : Sys P} {tx : TxFifo.Tx (Writer P) (BitVec 8)} (hbase : s.code = .base → s.phase ≠ .scheduling)
      (hstep : TxFifo.Step depth s.tx (.check s.code.writer) tx) :
      Step depth s (.tx (.check s.code.writer)) { s with tx := tx }
  /-- `UART_THR = c`. -/
  | store {s : Sys P} {c : BitVec 8} {tx : TxFifo.Tx (Writer P) (BitVec 8)}
      (hstep : TxFifo.Step depth s.tx (.store s.code.writer c) tx) :
      Step depth s (.tx (.store s.code.writer c)) { s with tx := tx }
  | send {s : Sys P} {tx : TxFifo.Tx (Writer P) (BitVec 8)} (hstep : TxFifo.Step depth s.tx .send tx) :
      Step depth s (.tx .send) { s with tx := tx }
  /-- A timer interrupt; its handler runs with interrupts off, so it is not interrupted itself. -/
  | tickBase {s : Sys P} (hcode : s.code = .base) (hsie : s.sie = true) :
      Step depth s .tick { s with code := .handler none, sie := false }
  | tickProcess {s : Sys P} {i : Fin P} (hcode : s.code = .process i) (hsie : s.sie = true) :
      Step depth s .tick { s with code := .handler (some i), sie := false }
  /-- `yield` returns at once when `current_process` is null, and the handler returns to what it has interrupted. -/
  | backBase {s : Sys P} (hcode : s.code = .handler none) (hidle : s.Idle) :
      Step depth s .back { s with code := .base, sie := true }
  | backProcess {s : Sys P} {i : Fin P} (hcode : s.code = .handler (some i)) (hidle : s.Idle) :
      Step depth s .back { s with code := .process i, sie := true }
  /-- `yield`, of the handler or of the process itself. -/
  | yieldHandler {s : Sys P} {i : Fin P} (hcode : s.code = .handler (some i)) (hidle : s.Idle) :
      Step depth s .yield { s with code := .base, trapped := insert i s.trapped }
  | yieldProcess {s : Sys P} {i : Fin P} (hcode : s.code = .process i) (hidle : s.Idle) :
      Step depth s .yield { s with code := .base }
  /-- `swtch` leaves `SIE` alone; a process that was preempted comes to its `sret`. -/
  | dispatch {s : Sys P} {i : Fin P} (hcode : s.code = .base) (hphase : s.phase = .scheduling) (hi : i ∈ s.alive) :
      Step depth s (.dispatch i) { s with
        code := .process i
        sie := s.sie || decide (i ∈ s.trapped)
        trapped := s.trapped.erase i }
  /-- The end of `forkret`: the process is a zombie, and yields. -/
  | exit {s : Sys P} {i : Fin P} (hcode : s.code = .process i) (hidle : s.Idle) :
      Step depth s .exit { s with code := .base, alive := s.alive.erase i }
  /-- `intr_on()` in `main`. -/
  | intrOn {s : Sys P} (hcode : s.code = .base) (hphase : s.phase = .before) :
      Step depth s .intrOn { s with sie := true }
  | start {s : Sys P} (hcode : s.code = .base) (hphase : s.phase = .before) (hidle : s.Idle) :
      Step depth s .start { s with phase := .scheduling }
  | finish {s : Sys P} (hcode : s.code = .base) (hphase : s.phase = .scheduling) (hnone : s.alive = ∅) :
      Step depth s .finish { s with phase := .after }
  /-- Process code turns interrupts on or off. -/
  | setSie {s : Sys P} {i : Fin P} {b : Bool} (hcode : s.code = .process i) :
      Step depth s (.setSie b) { s with sie := b }

/-- After `uart_init`. -/
def initial (P : ℕ) : Sys P := ⟨.empty, .base, .before, Finset.univ, false, ∅⟩

/-! ## Who is between the two steps -/

/-- **Who may have seen an empty FIFO.** -/
structure Inv (s : Sys P) : Prop where
  running : ∀ i, s.code = .process i ∨ s.code = .handler (some i) → i ∈ s.alive ∧ s.phase = .scheduling
  processes : ∀ i, .process i ∈ s.tx.ready → i ∈ s.alive ∧ s.phase = .scheduling
  handler : .handler ∈ s.tx.ready → ∃ below, s.code = .handler below
  base : .base ∈ s.tx.ready → s.phase ≠ .scheduling

/-- Writers that may be ready together. -/
def mayBeReady (P : ℕ) : MainPhase → Finset (Writer P)
  | .scheduling => insert .handler (Finset.univ.image .process)
  | .before | .after => {.base, .handler}

lemma card_mayBeReady (P : ℕ) (phase : MainPhase) : (mayBeReady P phase).card ≤ max (P + 1) 2 := by
  cases phase with
  | scheduling =>
      have hcard : (insert Writer.handler (Finset.univ.image Writer.process) : Finset (Writer P)).card ≤ P + 1 := by
        refine (Finset.card_insert_le _ _).trans (Nat.add_le_add_right ?_ 1)
        exact Finset.card_image_le.trans_eq (Finset.card_fin P)
      exact hcard.trans (le_max_left _ _)
  | before => exact le_max_of_le_right Finset.card_le_two
  | after => exact le_max_of_le_right Finset.card_le_two

section

variable {m : ℕ} {s s' : Sys P} {e : Event P}

lemma Inv.ready_subset (hi : Inv s) : s.tx.ready ⊆ mayBeReady P s.phase := by
  intro w hw
  cases w with
  | base =>
      have hphase := hi.base hw
      cases hp : s.phase with
      | scheduling => exact absurd hp hphase
      | before => exact Finset.mem_insert_self _ _
      | after => exact Finset.mem_insert_self _ _
  | process i =>
      rw [(hi.processes i hw).2]
      exact Finset.mem_insert_of_mem (Finset.mem_image_of_mem _ (Finset.mem_univ i))
  | handler =>
      cases s.phase with
      | scheduling => exact Finset.mem_insert_self _ _
      | before => exact Finset.mem_insert_of_mem (Finset.mem_singleton_self _)
      | after => exact Finset.mem_insert_of_mem (Finset.mem_singleton_self _)

/-- Only the transmitter moves, and no one gets ready. -/
lemma Inv.of_ready_subset {tx : TxFifo.Tx (Writer P) (BitVec 8)} (hi : Inv s) (hsub : tx.ready ⊆ s.tx.ready) :
    Inv { s with tx := tx } :=
  ⟨hi.running, fun i hmem => hi.processes i (hsub hmem), fun hmem => hi.handler (hsub hmem),
    fun hmem => hi.base (hsub hmem)⟩

/-- Only what runs changes, and `SIE`; a handler that is left has printed its line. -/
lemma Inv.of_code {code : Code P} {sie : Bool} {trapped : Finset (Fin P)} (hi : Inv s)
    (hrunning : ∀ i, code = .process i ∨ code = .handler (some i) → i ∈ s.alive ∧ s.phase = .scheduling)
    (hhandler : .handler ∈ s.tx.ready → ∃ below, code = .handler below) :
    Inv { s with code := code, sie := sie, trapped := trapped } :=
  ⟨hrunning, hi.processes, hhandler, hi.base⟩

/-- No handler is in `uart_putc` when something else runs, or when it is left. -/
lemma Inv.not_handler (hi : Inv s) (hidle : s.Idle) : .handler ∉ s.tx.ready := by
  intro hmem
  obtain ⟨below, hcode⟩ := hi.handler hmem
  rw [Sys.Idle, hcode] at hidle
  exact hidle hmem

lemma Inv.check {tx : TxFifo.Tx (Writer P) (BitVec 8)} (hi : Inv s) (hbase : s.code = .base → s.phase ≠ .scheduling)
    (hready : tx.ready = insert s.code.writer s.tx.ready) : Inv { s with tx := tx } := by
  refine ⟨hi.running, fun i hmem => ?_, fun hmem => ?_, fun hmem => ?_⟩
  · rcases Finset.mem_insert.mp (hready ▸ hmem) with hnew | hold
    · refine hi.running i (.inl ?_)
      cases hc : s.code with
      | base => exact absurd (hc ▸ hnew) (by simp [Code.writer])
      | process j =>
          rw [hc] at hnew
          rw [Writer.process.inj hnew]
      | handler below => exact absurd (hc ▸ hnew) (by simp [Code.writer])
    · exact hi.processes i hold
  · rcases Finset.mem_insert.mp (hready ▸ hmem) with hnew | hold
    · cases hc : s.code with
      | base => exact absurd (hc ▸ hnew) (by simp [Code.writer])
      | process j => exact absurd (hc ▸ hnew) (by simp [Code.writer])
      | handler below => exact ⟨below, rfl⟩
    · exact hi.handler hold
  · rcases Finset.mem_insert.mp (hready ▸ hmem) with hnew | hold
    · cases hc : s.code with
      | base => exact hbase hc
      | process j => exact absurd (hc ▸ hnew) (by simp [Code.writer])
      | handler below => exact absurd (hc ▸ hnew) (by simp [Code.writer])
    · exact hi.base hold

/-- **A step.** -/
lemma Step.inv (hstep : Step m s e s') (hi : Inv s) : Inv s' := by
  cases hstep with
  | check hbase hstep =>
      cases hstep with
      | check hidle hempty => exact hi.check hbase rfl
  | store hstep =>
      cases hstep with
      | store hready =>
          refine hi.of_ready_subset ?_
          rw [TxFifo.Tx.store_ready]
          exact Finset.erase_subset _ _
  | send hstep =>
      cases hstep with
      | send hfifo => exact hi.of_ready_subset (Finset.Subset.refl _)
  | tickBase hcode hsie => exact hi.of_code (fun i h => by simp at h) fun _ => ⟨none, rfl⟩
  | @tickProcess i hcode hsie =>
      refine hi.of_code (fun j h => ?_) fun _ => ⟨some i, rfl⟩
      obtain rfl : i = j := by simpa using h
      exact hi.running i (.inl hcode)
  | backBase hcode hidle => exact hi.of_code (fun i h => by simp at h) fun hmem => absurd hmem (hi.not_handler hidle)
  | @backProcess i hcode hidle =>
      refine hi.of_code (fun j h => ?_) fun hmem => absurd hmem (hi.not_handler hidle)
      obtain rfl : i = j := by simpa using h
      exact hi.running i (.inr hcode)
  | yieldHandler hcode hidle =>
      exact hi.of_code (fun i h => by simp at h) fun hmem => absurd hmem (hi.not_handler hidle)
  | yieldProcess hcode hidle =>
      exact hi.of_code (fun i h => by simp at h) fun hmem => absurd hmem (hi.not_handler hidle)
  | @dispatch i hcode hphase halive =>
      refine hi.of_code (fun j h => ?_) fun hmem => ?_
      · obtain rfl : i = j := by simpa using h
        exact ⟨halive, hphase⟩
      · obtain ⟨below, hbelow⟩ := hi.handler hmem
        exact absurd (hcode.symm.trans hbelow) (by simp)
  | @exit i hcode hidle =>
      -- the process is out of `uart_putc`, so it is not among those that may still be in it
      refine ⟨fun j h => by simp at h, fun j hmem => ?_, fun hmem => absurd hmem (hi.not_handler hidle), hi.base⟩
      obtain ⟨halive, hphase⟩ := hi.processes j hmem
      refine ⟨Finset.mem_erase.mpr ⟨?_, halive⟩, hphase⟩
      rintro rfl
      rw [Sys.Idle, hcode] at hidle
      exact hidle hmem
  | intrOn hcode hphase => exact hi.of_code hi.running hi.handler
  | setSie hcode => exact hi.of_code hi.running hi.handler
  | start hcode hphase hidle =>
      refine ⟨fun i h => ⟨?_, rfl⟩, fun i hmem => ⟨(hi.processes i hmem).1, rfl⟩, hi.handler, fun hmem => ?_⟩
      · exact (hi.running i h).1
      · rw [Sys.Idle, hcode] at hidle
        exact absurd hmem hidle
  | finish hcode hphase hnone =>
      refine ⟨fun i h => ?_, fun i hmem => ?_, hi.handler, fun _ => MainPhase.noConfusion⟩
      · exact absurd (hi.running i h).1 (hnone ▸ Finset.notMem_empty i)
      · exact absurd (hi.processes i hmem).1 (hnone ▸ Finset.notMem_empty i)

lemma initial_inv (P : ℕ) : Inv (initial P) :=
  ⟨fun i h => by simp [initial] at h, fun i h => absurd h (Finset.notMem_empty _),
    fun h => absurd h (Finset.notMem_empty _), fun h => absurd h (Finset.notMem_empty _)⟩

/-! ## What reaches the line -/

/-- The device, which does not know the writers.  On `d` the line has what has gone out before. -/
def device (d : Ns16550a) (tx : TxFifo.Tx (Writer P) (BitVec 8)) : Ns16550a :=
  { d with thr := tx.fifo.map Prod.snd, line := d.line ++ tx.line.map Prod.snd }

/-- `UART_THR = c` is a store into the FIFO. -/
lemma device_store {d : Ns16550a} (hdlab : d.dlab = false) (tx : TxFifo.Tx (Writer P) (BitVec 8)) (w : Writer P)
    (c : BitVec 8) : (device d tx).write c .thr = device d (tx.store d.depth w c) := by
  have hdlab' : (device d tx).dlab = false := hdlab
  rw [Ns16550a.write, hdlab', if_neg Bool.false_ne_true, Ns16550a.transmit, TxFifo.Tx.store]
  have hiff : (device d tx).thr.length < (device d tx).depth ↔ tx.fifo.length < d.depth := by
    rw [device, List.length_map]
    rfl
  split_ifs with h h' h'
  · simp [device]
  · exact absurd (hiff.mp h) h'
  · exact absurd (hiff.mpr h') h
  · rfl

/-- What an event does to the device. -/
def Event.after (d : Ns16550a) : Event P → Ns16550a
  | .tx (.store _ c) => d.write c .thr
  | .tx .send => d.send
  | _ => d

/-- The byte that goes out is the first of the FIFO. -/
lemma device_send {d : Ns16550a} {tx : TxFifo.Tx (Writer P) (BitVec 8)} {x : Writer P × BitVec 8}
    {rest : List (Writer P × BitVec 8)} (hfifo : tx.fifo = x :: rest) :
    (device d tx).send = device d { tx with fifo := rest, line := tx.line ++ [x] } := by
  simp [Ns16550a.send, device, hfifo]

/-- **The system and the device** go on alike. -/
lemma Run.device {d : Ns16550a} (hdlab : d.dlab = false) {es : List (Event P)} (hrun : Run (Step d.depth) s es s') :
    es.foldl Event.after (device d s.tx) = device d s'.tx := by
  induction hrun with
  | nil t => rfl
  | @cons s t s' e es hstep _ ih =>
      rw [List.foldl_cons, ← ih]
      congr 1
      cases hstep with
      | check _ htx =>
          cases htx with
          | check => rfl
      | store htx =>
          cases htx with
          | store => exact device_store hdlab ..
      | send htx =>
          cases htx with
          | send hfifo => exact device_send hfifo
      | _ => rfl

/-- The byte of an event, with its writer. -/
def Event.stored : Event P → Option (Writer P × BitVec 8)
  | .tx e => e.stored
  | _ => none

/-- Nothing was lost, and with `n` places the FIFO has one for every writer that is ready. -/
structure Complete (n : ℕ) (s : Sys P) : Prop extends Inv s where
  load : s.tx.load ≤ n
  lost : s.tx.lost = []

lemma initial_complete (n P : ℕ) : Complete n (initial P) := ⟨initial_inv P, Nat.zero_le _, rfl⟩

/-- What a step does to the transmitter: one of its own steps, or nothing. -/
lemma Step.tx_cases (hstep : Step m s e s') :
    (∃ e', e = .tx e' ∧ TxFifo.Step m s.tx e' s'.tx) ∨ s'.tx = s.tx ∧ e.stored = none := by
  cases hstep with
  | check _ hstep => exact .inl ⟨_, rfl, hstep⟩
  | store hstep => exact .inl ⟨_, rfl, hstep⟩
  | send hstep => exact .inl ⟨_, rfl, hstep⟩
  | _ => exact .inr ⟨rfl, rfl⟩

lemma Step.complete {n : ℕ} (hstep : Step m s e s') (hcard : s'.tx.ready.card ≤ n) (hn : n ≤ m)
    (hc : Complete n s) :
    Complete n s' ∧ s'.tx.line ++ s'.tx.fifo = s.tx.line ++ s.tx.fifo ++ e.stored.toList := by
  have hi := hstep.inv hc.toInv
  rcases hstep.tx_cases with ⟨e', rfl, htx⟩ | ⟨htx, hnone⟩
  · have hfits := hc.load.trans hn
    exact ⟨⟨hi, htx.load_le hc.load hcard, (htx.fits hfits).trans hc.lost⟩, htx.sent hfits⟩
  · rw [htx, hnone]
    exact ⟨⟨hi, htx ▸ hc.load, htx ▸ hc.lost⟩, by simp⟩

/-- **A run**, in which at most `n` writers are ready because of an invariant `Q`, kept by the events that are `ok`. -/
lemma Run.complete {n : ℕ} (Q : Sys P → Prop) (ok : Event P → Prop) {es : List (Event P)}
    (hrun : Run (Step m) s es s') (hn : n ≤ m)
    (hkeep : ∀ s e s', Step m s e s' → ok e → Inv s → Q s → Q s')
    (hcard : ∀ s, Inv s → Q s → s.tx.ready.card ≤ n) : (∀ e ∈ es, ok e) → Q s → Complete n s →
      Complete n s' ∧ s'.tx.line ++ s'.tx.fifo = s.tx.line ++ s.tx.fifo ++ es.filterMap Event.stored := by
  induction hrun with
  | nil t => exact fun _ _ hc => ⟨hc, by simp⟩
  | @cons s t s' e es hstep _ ih =>
      intro hok hq hc
      have hqt := hkeep s e t hstep (hok e List.mem_cons_self) hc.toInv hq
      obtain ⟨hct, hline⟩ := hstep.complete (hcard t (hstep.inv hc.toInv) hqt) hn hc
      obtain ⟨hct', hline'⟩ := ih (fun e he => hok e (List.mem_cons_of_mem _ he)) hqt hct
      refine ⟨hct', ?_⟩
      rw [hline', hline, List.append_assoc, List.filterMap_cons]
      cases e.stored <;> rfl

/-- **All schedules.** -/
lemma Run.complete_any {es : List (Event P)} (hrun : Run (Step m) (initial P) es s)
    (hdepth : max (P + 1) 2 ≤ m) :
    Complete (max (P + 1) 2) s ∧ s.tx.line ++ s.tx.fifo = es.filterMap Event.stored :=
  Run.complete (fun _ => True) (fun _ => True) hrun hdepth (fun _ _ _ _ _ _ _ => trivial)
    (fun s hi _ => (Finset.card_le_card hi.ready_subset).trans (card_mayBeReady P s.phase)) (fun _ _ => trivial) trivial
    (initial_complete _ P)

/-! ## Processes that leave `SIE` alone -/

/-- `SIE` is with the hart, in the frame of the handler that runs, or with one process off the hart.  Only that process
and the one that runs can be in `uart_putc`. -/
structure Token (s : Sys P) : Prop where
  handler : ∀ below, s.code = .handler below → s.sie = false ∧ s.trapped = ∅
  hart : s.sie = true → s.trapped = ∅
  one : s.trapped.card ≤ 1
  before : s.phase = .before → s.trapped = ∅
  waiting : ∀ i, .process i ∈ s.tx.ready → s.code.stack = some i ∨ i ∈ s.trapped

lemma initial_token (P : ℕ) : Token (initial P) where
  handler := fun _ h => nomatch h
  hart := fun h => nomatch h
  one := Nat.zero_le _
  before := fun _ => rfl
  waiting := fun _ h => absurd h (Finset.notMem_empty _)

/-- A handler comes or goes, on the same stack. -/
lemma Token.of_stack {code : Code P} {sie : Bool} (h : Token s) (hnone : s.trapped = ∅)
    (hsie : ∀ below, code = .handler below → sie = false) (hstack : code.stack = s.code.stack) :
    Token { s with code := code, sie := sie } where
  handler := fun below hc => ⟨hsie below hc, hnone⟩
  hart := fun _ => hnone
  one := h.one
  before := h.before
  waiting := fun i hmem => hstack ▸ h.waiting i hmem

/-- A process that is not in `uart_putc` leaves the hart. -/
lemma Token.of_yield {i : Fin P} {alive : Finset (Fin P)} (h : Token s) (hcode : s.code = .process i) (hidle : s.Idle) :
    Token { s with code := .base, alive := alive } where
  handler := fun _ hc => nomatch hc
  hart := h.hart
  one := h.one
  before := h.before
  waiting := by
    intro j hmem
    rcases h.waiting j hmem with hc | hc
    · rw [hcode] at hc
      obtain rfl : i = j := Option.some.inj hc
      rw [Sys.Idle, hcode] at hidle
      exact absurd hmem hidle
    · exact .inr hc

lemma Token.yieldHandler {i : Fin P} (h : Token s) (hi : Inv s) (hcode : s.code = .handler (some i)) :
    Token { s with code := .base, trapped := insert i s.trapped } := by
  obtain ⟨hoff, hnone⟩ := h.handler _ hcode
  have hins : insert i s.trapped = {i} := by rw [hnone, insert_empty_eq]
  refine ⟨fun _ hc => (nomatch hc), fun hon => ?_, ?_, fun hphase => ?_, fun j hmem => ?_⟩
  · exact absurd (hoff.symm.trans hon) (by simp)
  · rw [hins, Finset.card_singleton]
  · exact absurd (hphase.symm.trans (hi.running i (.inr hcode)).2) (by simp)
  · rcases h.waiting j hmem with hc | hc
    · rw [hcode] at hc
      obtain rfl : i = j := Option.some.inj hc
      exact .inr (Finset.mem_insert_self _ _)
    · exact .inr (Finset.mem_insert_of_mem hc)

/-- The one process that is off the hart in a handler gets `SIE` back, and no other does. -/
lemma Token.dispatch {i : Fin P} (h : Token s) (hcode : s.code = .base) (hphase : s.phase = .scheduling) :
    Token { s with
      code := .process i
      sie := s.sie || decide (i ∈ s.trapped)
      trapped := s.trapped.erase i } := by
  refine ⟨fun _ hc => (nomatch hc), fun hon => ?_, Finset.card_erase_le.trans h.one, fun hbefore => ?_,
    fun j hmem => ?_⟩
  · rcases (Bool.or_eq_true _ _).mp hon with hon | hin
    · show s.trapped.erase i = ∅
      rw [h.hart hon, Finset.erase_empty]
    · have hone := h.one
      have hcard : (s.trapped.erase i).card = 0 := by
        rw [Finset.card_erase_of_mem (of_decide_eq_true hin)]
        omega
      exact Finset.card_eq_zero.mp hcard
  · exact absurd (hbefore.symm.trans hphase) (by simp)
  · rcases h.waiting j hmem with hc | hc
    · rw [hcode] at hc
      exact nomatch hc
    · rcases eq_or_ne j i with rfl | hj
      · exact .inl rfl
      · exact .inr (Finset.mem_erase.mpr ⟨hj, hc⟩)

/-- **A step** that is not process code setting `SIE`. -/
lemma Step.token (hstep : Step m s e s') (hno : ∀ b, e ≠ .setSie b) (hi : Inv s) (h : Token s) : Token s' := by
  cases hstep with
  | check hbase hstep =>
      cases hstep with
      | check hidle hempty =>
          refine ⟨h.handler, h.hart, h.one, h.before, fun i hmem => ?_⟩
          rcases Finset.mem_insert.mp hmem with hnew | hold
          · cases hc : s.code with
            | process j =>
                rw [hc] at hnew
                obtain rfl : i = j := Writer.process.inj hnew
                exact .inl rfl
            | _ => exact absurd (hc ▸ hnew) (by simp [Code.writer])
          · exact h.waiting i hold
  | store hstep =>
      cases hstep with
      | store hready =>
          refine ⟨h.handler, h.hart, h.one, h.before, fun i hmem => h.waiting i ?_⟩
          rw [TxFifo.Tx.store_ready] at hmem
          exact Finset.mem_of_mem_erase hmem
  | send hstep =>
      cases hstep with
      | send hfifo => exact ⟨h.handler, h.hart, h.one, h.before, h.waiting⟩
  | tickBase hcode hsie => exact h.of_stack (h.hart hsie) (fun _ _ => rfl) (by rw [hcode]; rfl)
  | tickProcess hcode hsie => exact h.of_stack (h.hart hsie) (fun _ _ => rfl) (by rw [hcode]; rfl)
  | backBase hcode hidle => exact h.of_stack (h.handler _ hcode).2 (fun _ hc => nomatch hc) (by rw [hcode]; rfl)
  | backProcess hcode hidle => exact h.of_stack (h.handler _ hcode).2 (fun _ hc => nomatch hc) (by rw [hcode]; rfl)
  | yieldHandler hcode hidle => exact h.yieldHandler hi hcode
  | yieldProcess hcode hidle => exact h.of_yield hcode hidle
  | dispatch hcode hphase halive => exact h.dispatch hcode hphase
  | exit hcode hidle => exact h.of_yield hcode hidle
  | intrOn hcode hphase =>
      exact ⟨fun _ hc => absurd (hcode.symm.trans hc) (by simp), fun _ => h.before hphase, h.one, h.before, h.waiting⟩
  | setSie hcode => exact absurd rfl (hno _)
  | start hcode hphase hidle => exact ⟨h.handler, h.hart, h.one, fun hc => MainPhase.noConfusion hc, h.waiting⟩
  | finish hcode hphase hnone => exact ⟨h.handler, h.hart, h.one, fun hc => MainPhase.noConfusion hc, h.waiting⟩

/-- **Two writers at most.** -/
lemma Token.ready_card (h : Token s) (hi : Inv s) : s.tx.ready.card ≤ 2 := by
  suffices hsub : ∃ v w, s.tx.ready ⊆ {v, w} by
    obtain ⟨v, w, hsub⟩ := hsub
    exact (Finset.card_le_card hsub).trans Finset.card_le_two
  have hproc : ∀ {w}, w ∈ s.tx.ready → (s.phase ≠ .scheduling ∧ w = .base) ∨
      ((∃ b, s.code = .handler b) ∧ w = .handler) ∨ ∃ i, w = .process i ∧ (s.code.stack = some i ∨ i ∈ s.trapped) := by
    intro w hw
    cases w with
    | base => exact .inl ⟨hi.base hw, rfl⟩
    | process i => exact .inr (.inr ⟨i, rfl, h.waiting i hw⟩)
    | handler => exact .inr (.inl ⟨hi.handler hw, rfl⟩)
  -- the process off the hart, if there is one
  obtain ⟨v, hv⟩ : ∃ v : Writer P, ∀ i ∈ s.trapped, Writer.process i = v := by
    rcases s.trapped.eq_empty_or_nonempty with hnone | ⟨i, hmem⟩
    · exact ⟨.base, fun i hi => absurd (hnone ▸ hi) (Finset.notMem_empty i)⟩
    · exact ⟨.process i, fun j hj => congrArg _ (Finset.card_le_one.mp h.one j hj i hmem)⟩
  cases hc : s.code with
  | base =>
      refine ⟨.base, v, fun w hw => ?_⟩
      rcases hproc hw with ⟨_, rfl⟩ | ⟨⟨b, hb⟩, _⟩ | ⟨i, rfl, hs | ht⟩
      · simp
      · exact absurd (hc.symm.trans hb) (by simp)
      · rw [hc] at hs
        exact nomatch hs
      · simp [hv i ht]
  | process k =>
      refine ⟨.process k, v, fun w hw => ?_⟩
      rcases hproc hw with ⟨hphase, _⟩ | ⟨⟨b, hb⟩, _⟩ | ⟨i, rfl, hs | ht⟩
      · exact absurd (hi.running k (.inl hc)).2 hphase
      · exact absurd (hc.symm.trans hb) (by simp)
      · rw [hc] at hs
        obtain rfl : k = i := Option.some.inj hs
        simp
      · simp [hv i ht]
  | handler below =>
      have hnone := (h.handler below hc).2
      refine ⟨.handler, (below.map .process).getD .base, fun w hw => ?_⟩
      rcases hproc hw with ⟨hphase, rfl⟩ | ⟨_, rfl⟩ | ⟨i, rfl, hs | ht⟩
      · cases below with
        | none => simp
        | some k => exact absurd (hi.running k (.inr hc)).2 hphase
      · simp
      · rw [hc] at hs
        obtain rfl : below = some i := hs
        simp
      · exact absurd (hnone ▸ ht) (Finset.notMem_empty i)

/-- **Schedules in which processes leave `SIE` alone.** -/
lemma Run.complete_token {es : List (Event P)} (hrun : Run (Step m) (initial P) es s) (hdepth : 2 ≤ m)
    (hno : ∀ b, .setSie b ∉ es) :
    Complete 2 s ∧ s.tx.line ++ s.tx.fifo = es.filterMap Event.stored :=
  Run.complete Token (fun e => ∀ b, e ≠ .setSie b) hrun hdepth
    (fun _ _ _ hstep hok hi hq => hstep.token hok hi hq) (fun _ hi hq => hq.ready_card hi)
    (fun _ he b hb => hno b (hb ▸ he)) (initial_token P) (initial_complete 2 P)

/-- A byte that has a place. -/
lemma store_room {tx : TxFifo.Tx (Writer P) (BitVec 8)} {w : Writer P} (hready : w ∈ tx.ready) (c : BitVec 8)
    (hroom : tx.fifo.length < m) : TxFifo.Step m tx (.store w c)
      { tx with fifo := tx.fifo ++ [(w, c)], ready := tx.ready.erase w } := by
  have hstep := @TxFifo.Step.store _ _ _ m tx w c hready
  rwa [TxFifo.Tx.store, if_pos hroom] at hstep

/-- Without the FIFO, a handler that interrupts `main` takes the only place. -/
lemma exists_run_lost (P : ℕ) : ∃ es, ∃ s : Sys P, Run (Step 1) (initial P) es s ∧ (∀ b, .setSie b ∉ es) ∧
    s.tx.lost ≠ [] := by
  have hhandler : (Writer.handler : Writer P) ∉ ({.base} : Finset (Writer P)) := by simp
  have hback : (insert Writer.handler {.base} : Finset (Writer P)).erase .handler = {.base} :=
    Finset.erase_insert hhandler
  have h₁ : TxFifo.Step 1 (⟨[], [], [], ∅⟩ : TxFifo.Tx (Writer P) (BitVec 8)) (.check .base) ⟨[], [], [], {.base}⟩ :=
    .check (Finset.notMem_empty _) rfl
  have h₂ : TxFifo.Step 1 (⟨[], [], [], {.base}⟩ : TxFifo.Tx (Writer P) (BitVec 8)) (.check .handler)
      ⟨[], [], [], insert .handler {.base}⟩ := .check hhandler rfl
  have h₃ : TxFifo.Step 1 (⟨[], [], [], insert .handler {.base}⟩ : TxFifo.Tx (Writer P) (BitVec 8)) (.store .handler 0)
      ⟨[(.handler, 0)], [], [], {.base}⟩ := by
    have hstep := @store_room P 1 ⟨[], [], [], insert .handler {.base}⟩ .handler (Finset.mem_insert_self _ _) 0 Nat.one_pos
    rwa [hback] at hstep
  refine ⟨_, _, .cons (.intrOn rfl rfl) <| .cons (.check (fun _ h => nomatch h) h₁) <| .cons (.tickBase rfl rfl) <|
    .cons (.check (fun h => nomatch h) h₂) <| .cons (.store h₃) <| .cons (.backBase rfl hhandler) <|
    .cons (.store (c := 0) (.store (Finset.mem_singleton_self _))) (.nil _), ?_, ?_⟩
  · intro b hb
    simp at hb
  · simp [TxFifo.Tx.store]

/-! ## One process more -/

/-- In `scheduler`, with the transmitter as it is. -/
structure Resting (tx : TxFifo.Tx (Writer P) (BitVec 8)) (s : Sys P) : Prop where
  tx : s.tx = tx
  code : s.code = .base
  phase : s.phase = .scheduling
  alive : s.alive = Finset.univ

variable {ready : Finset (Writer P)} (line lost : List (Writer P × BitVec 8))

/-- A handler interrupts the process `i`, prints a byte and yields. -/
lemma run_handler (i : Fin P) (c : BitVec 8) (hdepth : 0 < m) (hhandler : .handler ∉ ready)
    (trapped : Finset (Fin P)) :
    ∃ es s', Run (Step m) ⟨⟨[], line, lost, ready⟩, .process i, .scheduling, Finset.univ, true, trapped⟩ es s' ∧
      Resting ⟨[(.handler, c)], line, lost, ready⟩ s' := by
  have hstore : TxFifo.Step m ⟨[], line, lost, insert .handler ready⟩ (.store .handler c)
      ⟨[(.handler, c)], line, lost, ready⟩ := by
    have hback : (insert Writer.handler ready).erase .handler = ready := Finset.erase_insert hhandler
    have hstep := @store_room P m ⟨[], line, lost, insert .handler ready⟩ .handler (Finset.mem_insert_self _ _) c hdepth
    rwa [hback] at hstep
  exact ⟨_, _, .cons (.tickProcess rfl rfl) (.cons (.check (fun h => nomatch h) (.check hhandler rfl)) (.cons
    (.store hstore) (.cons (.yieldHandler rfl hhandler) (.nil _)))), rfl, rfl, rfl, rfl⟩

/-- The process `i` turns interrupts on, sees the empty FIFO and is interrupted. -/
lemma run_arm (i : Fin P) (c : BitVec 8) (hdepth : 0 < m) (hhandler : .handler ∉ ready)
    (hi : .process i ∉ ready) (hs : Resting ⟨[], line, lost, ready⟩ s) : ∃ es s', Run (Step m) s es s' ∧
      Resting ⟨[(.handler, c)], line, lost, insert (.process i) ready⟩ s' := by
  obtain ⟨tx, code, phase, alive, sie, trapped⟩ := s
  obtain ⟨rfl, rfl, rfl, rfl⟩ := hs
  have hnot : Writer.handler ∉ insert (.process i) ready := fun hmem => by
    rcases Finset.mem_insert.mp hmem with h | h
    · exact nomatch h
    · exact hhandler h
  obtain ⟨es, s', hrun, hs'⟩ := run_handler line lost i c hdepth hnot (trapped.erase i)
  exact ⟨_, s', .cons (.dispatch rfl rfl (Finset.mem_univ i)) (.cons (.setSie (b := true) rfl)
    (.cons (.check (fun h => nomatch h) (.check hi rfl)) hrun)), hs'⟩

/-- **All of them** see it. -/
lemma run_armAll (c : BitVec 8) (hdepth : 0 < m) : ∀ (is : List (Fin P)) (j : Fin P) (s : Sys P)
    (line : List (Writer P × BitVec 8)) (ready : Finset (Writer P)), (j :: is).Nodup → .handler ∉ ready →
      (∀ i ∈ j :: is, .process i ∉ ready) → Resting ⟨[], line, lost, ready⟩ s →
        ∃ es s' line', Run (Step m) s es s' ∧
          Resting ⟨[(.handler, c)], line', lost, ready ∪ ((j :: is).map .process).toFinset⟩ s'
  | [], j, s, line, ready, _, hhandler, hready, hs => by
      obtain ⟨es, s', hrun, hs'⟩ := run_arm line lost j c hdepth hhandler (hready j List.mem_cons_self) hs
      refine ⟨es, s', line, hrun, ?_⟩
      rwa [Finset.insert_eq, Finset.union_comm] at hs'
  | i :: is, j, s, line, ready, hnodup, hhandler, hready, hs => by
      obtain ⟨es, s', hrun, hs'⟩ := run_arm line lost j c hdepth hhandler (hready j List.mem_cons_self) hs
      have hj : j ∉ i :: is := (List.nodup_cons.mp hnodup).1
      have hsend : Step m s' (.tx .send)
          { s' with tx := ⟨[], line ++ [(.handler, c)], lost, insert (.process j) ready⟩ } :=
        .send (by rw [hs'.tx]; exact .send rfl)
      obtain ⟨es', s'', line', hrun', hs''⟩ := run_armAll c hdepth is i
        { s' with tx := ⟨[], line ++ [(.handler, c)], lost, insert (.process j) ready⟩ } (line ++ [(.handler, c)])
        (insert (.process j) ready) (List.nodup_cons.mp hnodup).2 (by simpa using hhandler) (fun k hk => by
          have hne : k ≠ j := fun h => hj (h ▸ hk)
          simpa [hne] using hready k (List.mem_cons_of_mem j hk)) ⟨rfl, hs'.code, hs'.phase, hs'.alive⟩
      refine ⟨es ++ .tx .send :: es', s'', line', hrun.append (.cons hsend hrun'), ?_⟩
      rwa [Finset.insert_union, ← Finset.union_insert, ← List.toFinset_cons, ← List.map_cons] at hs''

/-- The process `i` goes on, stores its byte and yields. -/
lemma run_store {tx : TxFifo.Tx (Writer P) (BitVec 8)} (i : Fin P) (c : BitVec 8) (hi : .process i ∈ tx.ready)
    (hs : Resting tx s) : ∃ es s', Run (Step m) s es s' ∧ Resting (tx.store m (.process i) c) s' := by
  obtain ⟨tx, code, phase, alive, sie, trapped⟩ := s
  obtain ⟨rfl, rfl, rfl, rfl⟩ := hs
  have hidle : Writer.process i ∉ (tx.store m (.process i) c).ready := by
    rw [TxFifo.Tx.store_ready]
    exact Finset.notMem_erase _ _
  exact ⟨_, _, .cons (.dispatch rfl rfl (Finset.mem_univ i)) (.cons (.store (.store hi))
    (.cons (.yieldProcess rfl hidle) (.nil _))), rfl, rfl, rfl, rfl⟩

/-- A byte stored goes into the FIFO, up to its m, or is lost. -/
lemma store_count (tx : TxFifo.Tx (Writer P) (BitVec 8)) (w : Writer P) (c : BitVec 8) (hfifo : tx.fifo.length ≤ m) :
    (tx.store m w c).fifo.length = min (tx.fifo.length + 1) m ∧
      (tx.store m w c).fifo.length + (tx.store m w c).lost.length = tx.fifo.length + tx.lost.length + 1 := by
  rw [TxFifo.Tx.store]
  split_ifs with hroom <;> simp only [List.length_append, List.length_singleton] <;> omega

/-- **All of them** go on. -/
lemma run_storeAll (c : BitVec 8) : ∀ (is : List (Fin P)) (s : Sys P) (tx : TxFifo.Tx (Writer P) (BitVec 8)),
    is.Nodup → (∀ i ∈ is, .process i ∈ tx.ready) → tx.fifo.length ≤ m → Resting tx s →
      ∃ es s' tx', Run (Step m) s es s' ∧ Resting tx' s' ∧
        tx'.fifo.length = min (tx.fifo.length + is.length) m ∧
        tx'.fifo.length + tx'.lost.length = tx.fifo.length + tx.lost.length + is.length
  | [], s, tx, _, _, hfifo, hs => ⟨[], s, tx, .nil _, hs, (Nat.min_eq_left hfifo).symm, rfl⟩
  | i :: is, s, tx, hnodup, hready, hfifo, hs => by
      obtain ⟨hnot, hnodup'⟩ := List.nodup_cons.mp hnodup
      obtain ⟨es, s', hrun, hs'⟩ := run_store (m := m) i c (hready i List.mem_cons_self) hs
      obtain ⟨hmin, hcount⟩ := store_count tx (.process i) c hfifo
      have hready' : ∀ j ∈ is, .process j ∈ (tx.store m (.process i) c).ready := fun j hj => by
        have hne : j ≠ i := fun h => hnot (h ▸ hj)
        rw [TxFifo.Tx.store_ready]
        exact Finset.mem_erase.mpr ⟨fun h => hne (Writer.process.inj h), hready j (List.mem_cons_of_mem i hj)⟩
      obtain ⟨es', s'', tx', hrun', hs'', hmin', hcount'⟩ := run_storeAll c is s' (tx.store m (.process i) c)
        hnodup' hready' (by omega) hs'
      refine ⟨es ++ es', s'', tx', hrun.append hrun', hs'', ?_, ?_⟩
      · rw [hmin', hmin, List.length_cons]
        omega
      · rw [hcount', hcount, List.length_cons]
        omega

/-- **`n` processes print at once**, on top of the line of a handler. -/
lemma exists_run_full {n : ℕ} (hn : 0 < n) (hP : n ≤ P) (hdepth : 0 < m) :
    ∃ es, ∃ s : Sys P, Run (Step m) (initial P) es s ∧ s.tx.fifo.length = min (n + 1) m ∧
      s.tx.fifo.length + s.tx.lost.length = n + 1 := by
  obtain ⟨k, rfl⟩ : ∃ k, n = k + 1 := ⟨n - 1, by omega⟩
  let is : List (Fin P) := (List.finRange (k + 1)).map (Fin.castLE hP)
  have hnodup : is.Nodup := (List.nodup_finRange _).map (Fin.castLE_injective hP)
  have hlen : is.length = k + 1 := by rw [List.length_map, List.length_finRange]
  rcases hcons : is with _ | ⟨j, js⟩
  · rw [hcons] at hlen
    exact absurd hlen (by simp)
  have hstart : Step m (initial P) .start { initial P with phase := .scheduling } :=
    .start rfl rfl (Finset.notMem_empty _)
  obtain ⟨es, s, line, hrun, hs⟩ := run_armAll [] 0 hdepth js j { initial P with phase := .scheduling } [] ∅
    (hcons ▸ hnodup) (Finset.notMem_empty _) (fun i _ => Finset.notMem_empty _) ⟨rfl, rfl, rfl, rfl⟩
  rw [Finset.empty_union, ← hcons] at hs
  obtain ⟨es', s', tx, hrun', hs', hmin, hcount⟩ := run_storeAll (m := m) 0 is s
    ⟨[(.handler, 0)], line, [], (is.map .process).toFinset⟩ hnodup
    (fun i hi => List.mem_toFinset.mpr (List.mem_map_of_mem hi)) hdepth hs
  rw [hlen] at hmin hcount
  refine ⟨_, s', .cons hstart (hrun.append hrun'), ?_, ?_⟩
  · rw [hs'.tx, hmin, List.length_singleton, Nat.add_comm]
  · rw [hs'.tx, hcount, List.length_singleton, List.length_nil]
    omega

end

/-! ## Results -/

lemma uartInit_depth (baudrate : BitVec 32) (clockFreq : BitVec 64) (d : Ns16550a) :
    (uartInit baudrate clockFreq d).depth = 16 := by rw [uartInit_eq, Ns16550a.depth, if_pos rfl]

/-- `DLAB` is off again. -/
lemma uartInit_dlab (baudrate : BitVec 32) (clockFreq : BitVec 64) (d : Ns16550a) :
    (uartInit baudrate clockFreq d).dlab = false := by
  have hlcr : (uartInit baudrate clockFreq d).lcr = 3 := by rw [uartInit_eq]
  rw [Ns16550a.dlab, hlcr]
  decide

/-- What the device has taken since `uart_init`, out or waiting. -/
lemma uartInit_run (baudrate : BitVec 32) (clockFreq : BitVec 64) (d : Ns16550a) {es : List (Event P)} {s : Sys P}
    (hrun : Run (Step (uartInit baudrate clockFreq d).depth) (initial P) es s) :
    (es.foldl Event.after (uartInit baudrate clockFreq d)).line ++
      (es.foldl Event.after (uartInit baudrate clockFreq d)).thr = d.line ++ (s.tx.line ++ s.tx.fifo).map Prod.snd := by
  have hstart : device (uartInit baudrate clockFreq d) (initial P).tx = uartInit baudrate clockFreq d := by
    simp [uartInit_eq, device, initial, TxFifo.Tx.empty]
  have hline : (uartInit baudrate clockFreq d).line = d.line := by rw [uartInit_eq]
  rw [← hstart, Run.device (uartInit_dlab ..) hrun, device, hline, List.map_append, List.append_assoc]

/-- **The console is complete for fifteen processes, and for no more.**  With the FIFO that `uart_init` has switched on,
whatever state it found the device in: with `P` processes, whatever the schedule, every byte that was stored into
`UART_THR` is on the line or in the FIFO, in the order of the stores, and none is lost, if and only if `P < 16`.  Then
the device itself, written to as the schedule says, has them all. -/
theorem console_complete (baudrate : BitVec 32) (clockFreq : BitVec 64) (d : Ns16550a) (P : ℕ) :
    ((∀ (es : List (Event P)) (s : Sys P), Run (Step (uartInit baudrate clockFreq d).depth) (initial P) es s →
      s.tx.lost = [] ∧ s.tx.line ++ s.tx.fifo = es.filterMap Event.stored) ↔ P < 16) ∧
    (P < 16 → ∀ (es : List (Event P)) (s : Sys P),
      Run (Step (uartInit baudrate clockFreq d).depth) (initial P) es s →
        (es.foldl Event.after (uartInit baudrate clockFreq d)).line ++
          (es.foldl Event.after (uartInit baudrate clockFreq d)).thr =
            d.line ++ (es.filterMap Event.stored).map Prod.snd) := by
  have hsent : P < 16 → ∀ (es : List (Event P)) (s : Sys P),
      Run (Step (uartInit baudrate clockFreq d).depth) (initial P) es s →
        s.tx.lost = [] ∧ s.tx.line ++ s.tx.fifo = es.filterMap Event.stored := by
    intro hP es s hrun
    obtain ⟨hc, hsent⟩ := Run.complete_any hrun (by rw [uartInit_depth]; omega)
    exact ⟨hc.lost, hsent⟩
  refine ⟨⟨fun hall => ?_, hsent⟩, fun hP es s hrun => ?_⟩
  · rw [uartInit_depth] at hall
    by_contra hP
    obtain ⟨es, s, hrun, hmin, hcount⟩ := exists_run_full (P := P) (m := 16) (n := 16) (by decide) (by omega)
      (by decide)
    rw [hmin, (hall es s hrun).1, List.length_nil] at hcount
    omega
  · rw [uartInit_run baudrate clockFreq d hrun, (hsent hP es s hrun).2]

/-- The bytes of `m_panic`. -/
def panicBytes : List (BitVec 8) := panicText.map fun c => BitVec.ofNat 8 c.toNat

/-- `sb t2, 0(t1)`, one byte after the other. -/
def storePanic (d : Ns16550a) : Ns16550a := panicBytes.foldl (fun d c => d.write c .thr) d

/-- Bytes stored without a look at the FIFO: as many as there are places. -/
lemma foldl_write : ∀ (l : List (BitVec 8)) (d : Ns16550a), d.dlab = false → d.thr.length ≤ d.depth →
    (l.foldl (fun d c => d.write c .thr) d).thr = d.thr ++ l.take (d.depth - d.thr.length)
  | [], d, _, _ => by simp
  | c :: l, d, hdlab, hfits => by
      have hwrite : d.write c .thr = d.transmit c := by rw [Ns16550a.write, hdlab, if_neg Bool.false_ne_true]
      rw [List.foldl_cons, hwrite, Ns16550a.transmit]
      split_ifs with hroom
      · have hdepth : ({ d with thr := d.thr ++ [c] } : Ns16550a).depth = d.depth := rfl
        have ih := foldl_write l { d with thr := d.thr ++ [c] } hdlab
          (by rw [hdepth, List.length_append]; exact hroom)
        obtain ⟨n, hn⟩ : ∃ n, d.depth - d.thr.length = n + 1 := ⟨d.depth - d.thr.length - 1, by omega⟩
        have hless : d.depth - (d.thr.length + 1) = n := by omega
        rw [ih, hdepth, List.length_append, List.length_singleton, hn, hless, List.take_succ_cons, List.append_assoc,
          List.singleton_append]
      · rw [foldl_write l d hdlab hfits, Nat.sub_eq_zero_of_le (by omega), List.take_zero, List.take_zero]

/-- What `m_panic` leaves waiting: as much of its report as there are places. -/
lemma storePanic_thr (baudrate : BitVec 32) (clockFreq : BitVec 64) (d : Ns16550a)
    (tx : TxFifo.Tx (Writer P) (BitVec 8)) (hle : tx.fifo.length ≤ 16) :
    (storePanic (device (uartInit baudrate clockFreq d) tx)).thr =
      tx.fifo.map Prod.snd ++ panicBytes.take (16 - tx.fifo.length) := by
  have hdlab : (device (uartInit baudrate clockFreq d) tx).dlab = false := uartInit_dlab baudrate clockFreq d
  have hdepth : (device (uartInit baudrate clockFreq d) tx).depth = 16 := uartInit_depth baudrate clockFreq d
  have hthr : (device (uartInit baudrate clockFreq d) tx).thr = tx.fifo.map Prod.snd := rfl
  rw [storePanic, foldl_write _ _ hdlab (by rwa [hdepth, hthr, List.length_map]), hdepth, hthr, List.length_map]

lemma panicBytes_length : panicBytes.length = 7 := by decide

lemma storePanic_whole (baudrate : BitVec 32) (clockFreq : BitVec 64) (d : Ns16550a)
    (tx : TxFifo.Tx (Writer P) (BitVec 8)) (hle : tx.fifo.length ≤ 9) :
    (storePanic (device (uartInit baudrate clockFreq d) tx)).thr = tx.fifo.map Prod.snd ++ panicBytes := by
  rw [storePanic_thr _ _ _ _ (by omega), List.take_of_length_le (by rw [panicBytes_length]; omega)]

/-- **The report of `m_panic` is whole for eight processes, and for no more.**  It does not wait, and comes behind what
the FIFO holds: in every state that can be reached, all of `MPanic\n` finds a place, if and only if `P ≤ 8`. -/
theorem panic_printed_iff (baudrate : BitVec 32) (clockFreq : BitVec 64) (d : Ns16550a) (P : ℕ) :
    (∀ (es : List (Event P)) (s : Sys P), Run (Step (uartInit baudrate clockFreq d).depth) (initial P) es s →
      (storePanic (device (uartInit baudrate clockFreq d) s.tx)).thr = s.tx.fifo.map Prod.snd ++ panicBytes) ↔
      P ≤ 8 := by
  rw [uartInit_depth]
  constructor
  · intro hall
    by_contra hP
    obtain ⟨es, s, hrun, hmin, -⟩ := exists_run_full (P := P) (m := 16) (n := 9) (by decide) (by omega) (by decide)
    have hthr' := congrArg List.length ((storePanic_thr _ _ _ s.tx (by omega)).symm.trans (hall es s hrun))
    rw [List.length_append, List.length_append, List.length_take, panicBytes_length] at hthr'
    omega
  · intro hP es s hrun
    obtain ⟨hc, -⟩ := Run.complete_any hrun (by omega)
    have hload := hc.load
    rw [TxFifo.Tx.load] at hload
    exact storePanic_whole _ _ _ s.tx (by omega)

/-- **Two places are enough for any number of processes that leave `SIE` alone**, and one is not: the console is complete
if and only if the FIFO is on.  With the FIFO that `uart_init` switches on, the report of `m_panic` is always whole. -/
theorem console_token (baudrate : BitVec 32) (clockFreq : BitVec 64) (d : Ns16550a) (P : ℕ) :
    ((∀ (es : List (Event P)) (s : Sys P), Run (Step d.depth) (initial P) es s → (∀ b, .setSie b ∉ es) →
      s.tx.lost = [] ∧ s.tx.line ++ s.tx.fifo = es.filterMap Event.stored) ↔ d.fifoEnabled = true) ∧
    ∀ (es : List (Event P)) (s : Sys P), Run (Step (uartInit baudrate clockFreq d).depth) (initial P) es s →
      (∀ b, .setSie b ∉ es) →
      (storePanic (device (uartInit baudrate clockFreq d) s.tx)).thr = s.tx.fifo.map Prod.snd ++ panicBytes := by
  refine ⟨⟨fun hall => ?_, fun hon es s hrun hno => ?_⟩, fun es s hrun hno => ?_⟩
  · by_contra hoff
    have hdepth : d.depth = 1 := by rw [Ns16550a.depth, if_neg hoff]
    rw [hdepth] at hall
    obtain ⟨es, s, hrun, hno, hlost⟩ := exists_run_lost P
    exact hlost (hall es s hrun hno).1
  · have hdepth : 2 ≤ d.depth := by rw [Ns16550a.depth, if_pos hon]; decide
    obtain ⟨hc, hsent⟩ := Run.complete_token hrun hdepth hno
    exact ⟨hc.lost, hsent⟩
  · obtain ⟨hc, -⟩ := Run.complete_token hrun (by rw [uartInit_depth]; decide) hno
    have hload := hc.load
    rw [TxFifo.Tx.load] at hload
    exact storePanic_whole _ _ _ s.tx (by omega)

end NetStack.Console
