import NetStack.Lib.Riscv

/-!
# Machine mode

A hart with its machine-mode CSRs and its privilege level, the instructions of machine-mode trap handlers, and
listings: assembly with its labels in place.  A branch continues behind its label, and a run of a listing ends at
`mret` or not at all; `Returns` says that it does.

A piece of a listing without branches is a list of operations, and `returnsFrom_ops` takes it in one step.
-/

namespace Riscv

open ByteMem

/-! ## The hart -/

inductive MCsr
  | mstatus | mtvec | mscratch | mepc | mcause | mie | mip | medeleg | mideleg | mcounteren | pmpaddr0 | pmpcfg0
  deriving DecidableEq, Repr

inductive Mode
  | user | supervisor | machine
  deriving DecidableEq, Repr

structure MHart extends Machine where
  mcsr : MCsr → BitVec 64
  mode : Mode

def mieBit : ℕ := 3
def mpieBit : ℕ := 7

/-- The two bits of `mstatus.MPP`. -/
def mppLow : ℕ := 11
def mppHigh : ℕ := 12

def Mode.low : Mode → Bool
  | .user => false
  | .supervisor | .machine => true

def Mode.high : Mode → Bool
  | .user | .supervisor => false
  | .machine => true

/-- The level `mstatus.MPP` stands for; `10` is reserved. -/
def Mode.ofMpp (v : BitVec 64) : Mode :=
  match v.getLsbD mppHigh, v.getLsbD mppLow with
  | true, true => .machine
  | false, true => .supervisor
  | _, false => .user

def MHart.setMcsr (h : MHart) (c : MCsr) (v : BitVec 64) : MHart := { h with mcsr := Function.update h.mcsr c v }

/-- `mstatus` on entry to a trap taken at a level: `MPP` keeps the level and `MPIE` keeps `MIE`, which is cleared. -/
def enterMstatus (v : BitVec 64) (mode : Mode) : BitVec 64 :=
  setBit (setBit (setBit (setBit v mpieBit (v.getLsbD mieBit)) mieBit false) mppLow mode.low) mppHigh mode.high

/-- `mstatus` after `mret`. -/
def leaveMstatus (v : BitVec 64) : BitVec 64 :=
  setBit (setBit (setBit (setBit v mieBit (v.getLsbD mpieBit)) mpieBit true) mppLow false) mppHigh false

/-- What the hardware does on a trap to machine mode. -/
def MHart.trap (h : MHart) (cause : BitVec 64) : MHart :=
  { h with
    pc := h.mcsr .mtvec
    mode := .machine
    mcsr := fun
      | .mstatus => enterMstatus (h.mcsr .mstatus) h.mode
      | .mepc => h.pc
      | .mcause => cause
      | c => h.mcsr c }

/-- `mret`. -/
def MHart.mret (h : MHart) : MHart :=
  { h.setMcsr .mstatus (leaveMstatus (h.mcsr .mstatus)) with
    pc := h.mcsr .mepc
    mode := .ofMpp (h.mcsr .mstatus) }

@[simp] lemma MHart.mret_mem (h : MHart) : h.mret.mem = h.mem := rfl
@[simp] lemma MHart.mret_pc (h : MHart) : h.mret.pc = h.mcsr .mepc := rfl
@[simp] lemma MHart.mret_mode (h : MHart) : h.mret.mode = .ofMpp (h.mcsr .mstatus) := rfl

lemma MHart.mret_mcsr (h : MHart) {c : MCsr} (hc : c ≠ .mstatus) : h.mret.mcsr c = h.mcsr c :=
  Function.update_of_ne hc ..

/-- `mret` goes back to the level the trap came from. -/
lemma ofMpp_enterMstatus (v : BitVec 64) (mode : Mode) : Mode.ofMpp (enterMstatus v mode) = mode := by
  have hhigh : (enterMstatus v mode).getLsbD mppHigh = mode.high := by
    rw [enterMstatus, getLsbD_setBit _ _ (by decide) (by decide), if_pos rfl]
  have hlow : (enterMstatus v mode).getLsbD mppLow = mode.low := by
    rw [enterMstatus, getLsbD_setBit _ _ (by decide) (by decide), if_neg (by decide),
      getLsbD_setBit _ _ (by decide) (by decide), if_pos rfl]
  rw [Mode.ofMpp, hhigh, hlow]
  cases mode <;> rfl

/-! ## Instructions -/

/-- An instruction that goes on to the next one. -/
inductive MOp
  /-- One that supervisor code has as well. -/
  | base (i : Instr)
  | li (rd : Reg) (v : BitVec 64)
  | slli (rd rs : Reg) (n : ℕ)
  | srli (rd rs : Reg) (n : ℕ)
  | sb (rs : Reg) (off : ℕ) (base : Reg)
  | csrrw (rd : Reg) (c : MCsr) (rs : Reg)
  | csrr (rd : Reg) (c : MCsr)
  | csrw (c : MCsr) (rs : Reg)
  /-- `csrw c, zero`. -/
  | csrwZero (c : MCsr)
  | csrs (c : MCsr) (rs : Reg)
  | csrc (c : MCsr) (rs : Reg)

def MHart.set (h : MHart) (r : Reg) (v : BitVec 64) : MHart := { h with toMachine := h.toMachine.set r v }

@[simp] lemma MHart.set_mcsr (h : MHart) (r : Reg) (v : BitVec 64) : (h.set r v).mcsr = h.mcsr := rfl
@[simp] lemma MHart.set_mem (h : MHart) (r : Reg) (v : BitVec 64) : (h.set r v).mem = h.mem := rfl

def MOp.step (h : MHart) : MOp → MHart
  | .base i => { h with toMachine := i.step h.toMachine }
  | .li rd v => h.set rd v
  | .slli rd rs n => h.set rd (h.reg rs <<< n)
  | .srli rd rs n => h.set rd (h.reg rs >>> n)
  | .sb rs off b => { h with mem := write h.mem (h.addr b off) (UInt8.ofNat (h.reg rs).toNat) }
  | .csrrw rd c rs => (h.setMcsr c (h.reg rs)).set rd (h.mcsr c)
  | .csrr rd c => h.set rd (h.mcsr c)
  | .csrw c rs => h.setMcsr c (h.reg rs)
  | .csrwZero c => h.setMcsr c 0
  | .csrs c rs => h.setMcsr c (h.mcsr c ||| h.reg rs)
  | .csrc c rs => h.setMcsr c (h.mcsr c &&& ~~~ h.reg rs)

def execOps (ops : List MOp) (h : MHart) : MHart := ops.foldl MOp.step h

/-! ## Listings -/

/-- A line of a listing with labels in `ι`. -/
inductive Line (ι : Type)
  | op (i : MOp)
  | label (l : ι)
  /-- `blt rs, zero, l`. -/
  | bltz (rs : Reg) (l : ι)
  | bne (rs rt : Reg) (l : ι)
  | j (l : ι)
  | mret

variable {ι : Type} [DecidableEq ι]

/-- What follows a label. -/
def following (l : ι) : List (Line ι) → List (Line ι)
  | [] => []
  | .label l' :: rest => if l' = l then rest else following l rest
  | _ :: rest => following l rest

/-- At most `n` lines of `code`, from a point in it on; the hart after `mret`. -/
def run (code : List (Line ι)) : ℕ → List (Line ι) → MHart → Option MHart
  | 0, _, _ => none
  | _, [], _ => none
  | _ + 1, .mret :: _, h => some h.mret
  | n + 1, .op i :: rest, h => run code n rest (i.step h)
  | n + 1, .label _ :: rest, h => run code n rest h
  | n + 1, .bltz rs l :: rest, h => run code n (if (h.reg rs).slt 0 then following l code else rest) h
  | n + 1, .bne rs rt l :: rest, h => run code n (if h.reg rs ≠ h.reg rt then following l code else rest) h
  | n + 1, .j l :: _, h => run code n (following l code) h

/-- From a point of `code` on, `mret` is reached, and leaves `h'`. -/
def ReturnsFrom (code rest : List (Line ι)) (h h' : MHart) : Prop := ∃ n, run code n rest h = some h'

/-- The listing, started at its first line, gets to `mret`, which leaves `h'`. -/
def Returns (code : List (Line ι)) (h h' : MHart) : Prop := ReturnsFrom code code h h'

section

variable {code rest : List (Line ι)} {h h' : MHart}

lemma returnsFrom_mret : ReturnsFrom code (.mret :: rest) h h' ↔ h' = h.mret := by
  constructor
  · rintro ⟨_ | n, hn⟩
    · exact absurd hn (by simp [run])
    · exact (Option.some.inj hn).symm
  · rintro rfl
    exact ⟨1, rfl⟩

/-- A line that is not `mret` takes one unit of fuel. -/
lemma returnsFrom_of_step {line : Line ι} {next : List (Line ι)} {g : MHart}
    (hstep : ∀ n, run code (n + 1) (line :: rest) h = run code n next g) :
    ReturnsFrom code (line :: rest) h h' ↔ ReturnsFrom code next g h' := by
  constructor
  · rintro ⟨_ | n, hn⟩
    · exact absurd hn (by simp [run])
    · exact ⟨n, (hstep n).symm.trans hn⟩
  · rintro ⟨n, hn⟩
    exact ⟨n + 1, (hstep n).trans hn⟩

lemma returnsFrom_label {l : ι} : ReturnsFrom code (.label l :: rest) h h' ↔ ReturnsFrom code rest h h' :=
  returnsFrom_of_step fun _ => rfl

lemma returnsFrom_bltz {rs : Reg} {l : ι} : ReturnsFrom code (.bltz rs l :: rest) h h' ↔
    ReturnsFrom code (if (h.reg rs).slt 0 then following l code else rest) h h' :=
  returnsFrom_of_step fun _ => rfl

lemma returnsFrom_bne {rs rt : Reg} {l : ι} : ReturnsFrom code (.bne rs rt l :: rest) h h' ↔
    ReturnsFrom code (if h.reg rs ≠ h.reg rt then following l code else rest) h h' :=
  returnsFrom_of_step fun _ => rfl

/-- **Straight-line code.** -/
lemma returnsFrom_ops (ops : List MOp) (h : MHart) :
    ReturnsFrom code (ops.map .op ++ rest) h h' ↔ ReturnsFrom code rest (execOps ops h) h' := by
  induction ops generalizing h with
  | nil => rfl
  | cons i ops ih =>
      have hline : ReturnsFrom code (.op i :: (ops.map .op ++ rest)) h h' ↔
          ReturnsFrom code (ops.map .op ++ rest) (i.step h) h' := returnsFrom_of_step fun _ => rfl
      exact hline.trans (ih _)

/-- A line that jumps to itself. -/
lemma not_returnsFrom_j {l : ι} (hloop : following l code = .j l :: rest) : ¬ ReturnsFrom code (.j l :: rest) h h' := by
  rintro ⟨n, hn⟩
  induction n with
  | zero => exact absurd hn (by simp [run])
  | succ n ih =>
      refine ih ?_
      rw [run, hloop] at hn
      exact hn

end

end Riscv
