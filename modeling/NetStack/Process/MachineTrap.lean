import NetStack.Lib.MachineMode
import NetStack.Lib.Transition

/-!
# `mtrap_vector`

The machine-mode trap handler, instruction for instruction from `mtrap.S`, on a hart that `Start.S` has set up.  Two
traps come to it: the `ecall` of `set_timer`, which arms the timer, and the machine timer interrupt, which hands the
tick on to the supervisor.

`Handling top h g` is the invariant inside the handler: `h` is the hart at the trap and its scratch registers lie in
the 40 bytes below `top`.  From it follows what each of the two ways out leaves (`mtrap_setTimer`, `mtrap_timer`),
and over whole runs that after the first `set_timer` the timer is armed or the tick is pending, never both
(`m_traps_transparent`).
-/

namespace NetStack

open ByteMem Riscv Transition

/-! ## The code -/

/-- The labels of `mtrap.S`. -/
inductive MLabel
  | mtrapVector | handleMInterrupt | mPanic | mPanicLoop
  deriving DecidableEq, Repr

/-- `mtimecmp` of hart 0. -/
def mtimecmp : ℕ := 0x2004000

def mieMtie : BitVec 64 := 0x80
def mipStip : BitVec 64 := 0x20

/-- The registers are saved below `m_stack_top`, and `mcause` is read. -/
def mSave : List MOp :=
  [.csrrw .t0 .mscratch .t0, .base (.addi .t0 .t0 (-40)), .base (.sd .t1 0 .t0), .base (.sd .t2 8 .t0),
    .base (.sd .a0 16 .t0), .base (.sd .a7 24 .t0), .csrr .t1 .mscratch, .base (.sd .t1 32 .t0), .csrr .t1 .mcause]

/-- The call itself. -/
def mSetTimer : List MOp :=
  [.li .t1 0x2004000, .base (.sd .a0 0 .t1), .li .t1 0x20, .csrc .mip .t1, .li .t1 0x80, .csrs .mie .t1,
    .csrr .t1 .mepc, .base (.addi .t1 .t1 4), .csrw .mepc .t1]

/-- The machine timer interrupt. -/
def mTimer : List MOp := [.li .t1 0x80, .csrc .mie .t1, .li .t1 0x20, .csrs .mip .t1]

/-- Both ways out end with this. -/
def mRestore : List MOp :=
  [.base (.ld .t2 8 .t0), .base (.ld .a0 16 .t0), .base (.ld .a7 24 .t0), .base (.addi .t1 .t0 40),
    .csrw .mscratch .t1, .base (.ld .t1 0 .t0), .base (.ld .t0 32 .t0)]

/-- `MPanic\n`, one character after the other. -/
def mPanicText : List MOp :=
  [.li .t1 0x10000000, .li .t2 77, .sb .t2 0 .t1, .li .t2 80, .sb .t2 0 .t1, .li .t2 97, .sb .t2 0 .t1,
    .li .t2 110, .sb .t2 0 .t1, .li .t2 105, .sb .t2 0 .t1, .li .t2 99, .sb .t2 0 .t1, .li .t2 10, .sb .t2 0 .t1]

def mPanicCode : List (Line MLabel) := mPanicText.map .op ++ [.label .mPanicLoop, .j .mPanicLoop]

def handleMInterruptCode : List (Line MLabel) :=
  [MOp.slli .t1 .t1 1, .srli .t1 .t1 1, .li .t2 7].map .op ++
    .bne .t1 .t2 .mPanic :: (mTimer.map .op ++ (mRestore.map .op ++ .mret :: .label .mPanic :: mPanicCode))

/-- An exception: only an `ecall` from supervisor mode with `a7 = 0` is handled. -/
def mExceptionCode : List (Line MLabel) :=
  [MOp.li .t2 9].map .op ++ .bne .t1 .t2 .mPanic :: ([MOp.li .t2 0].map .op ++ .bne .a7 .t2 .mPanic ::
    (mSetTimer.map .op ++ (mRestore.map .op ++ .mret :: .label .handleMInterrupt :: handleMInterruptCode)))

/-- `mtrap.S`. -/
def mtrap : List (Line MLabel) :=
  .label .mtrapVector :: (mSave.map .op ++ .bltz .t1 .handleMInterrupt :: mExceptionCode)

lemma following_handleMInterrupt : following .handleMInterrupt mtrap = handleMInterruptCode := rfl

lemma following_mPanic : following .mPanic mtrap = mPanicCode := rfl

/-- `m_panic` does not return. -/
lemma not_returns_panic {h h' : MHart} : ¬ ReturnsFrom mtrap mPanicCode h h' := by
  rw [mPanicCode, returnsFrom_ops, returnsFrom_label]
  exact not_returnsFrom_j rfl

/-! ## Addresses -/

/-- Where the linker puts what the machine-mode code refers to: `m_stack` is 256 bytes of `.data`, in RAM. -/
structure MLayout where
  mtrapVector : BitVec 64
  kernelEntry : BitVec 64
  mStackTop : ℕ
  ram_le : 0x80000000 + 256 ≤ mStackTop
  le_ram : mStackTop ≤ 0x80000000 + 0x8000000

variable {top : ℕ} {h h' g : MHart}

lemma toNat_neg_forty : (BitVec.ofInt 64 (-40)).toNat = 2 ^ 64 - 40 := by decide

/-- An address in the frame. -/
lemma frame_addr (hlo : 40 ≤ top) (hhi : top < 2 ^ 64) {off : ℕ} (hoff : off ≤ 40) :
    (BitVec.ofNat 64 top + BitVec.ofInt 64 (-40) + BitVec.ofNat 64 off).toNat = top - 40 + off := by
  rw [BitVec.toNat_add, BitVec.toNat_add, toNat_neg_forty, BitVec.toNat_ofNat, BitVec.toNat_ofNat]
  omega

/-- **Inside the handler.**  The trap came at `h`; its scratch registers are in the frame. -/
structure Handling (top : ℕ) (h g : MHart) : Prop where
  base : g.reg .t0 = BitVec.ofNat 64 top + BitVec.ofInt 64 (-40)
  kept : ∀ r, r ≠ .t0 → r ≠ .t1 → r ≠ .t2 → g.reg r = h.reg r
  frame : ∀ x ∈ [(Reg.t1, 0), (.t2, 8), (.a0, 16), (.a7, 24), (.t0, 32)], load g.mem (top - 40 + x.2) = h.reg x.1
  csr : g.csr = h.csr

/-- **The registers are saved.** -/
lemma mSave_spec (hscratch : h.mcsr .mscratch = BitVec.ofNat 64 top) (hlo : 40 ≤ top) (hhi : top < 2 ^ 64) :
    Handling top h (execOps mSave h) ∧ (execOps mSave h).reg .t1 = h.mcsr .mcause ∧
      (execOps mSave h).mcsr = Function.update h.mcsr .mscratch (h.reg .t0) ∧
      ∀ x, ¬ (top - 40 ≤ x ∧ x < top) → (execOps mSave h).mem x = h.mem x := by
  have hmem : (execOps mSave h).mem = storeAll h.mem (top - 40)
      [(0, h.reg .t1), (8, h.reg .t2), (16, h.reg .a0), (24, h.reg .a7), (32, h.reg .t0)] := by
    have haddr : ∀ {off : ℕ}, off ≤ 40 →
        (BitVec.ofNat 64 top + BitVec.ofInt 64 (-40) + BitVec.ofNat 64 off).toNat = top - 40 + off :=
      fun hoff => frame_addr hlo hhi hoff
    rw [← hscratch] at haddr
    simp only [storeAll, List.foldl_cons, List.foldl_nil, ← haddr (by decide : 0 ≤ 40), ← haddr (by decide : 8 ≤ 40),
      ← haddr (by decide : 16 ≤ 40), ← haddr (by decide : 24 ≤ 40), ← haddr (by decide : 32 ≤ 40)]
    rfl
  refine ⟨⟨?_, fun r h₀ h₁ _ => ?_, ?_, rfl⟩, rfl, rfl, fun x hx => ?_⟩
  · rw [← hscratch]
    rfl
  · show Function.update (Function.update (Function.update (Function.update h.reg .t0 _) .t0 _) .t1 _) .t1 _ r = h.reg r
    rw [Function.update_of_ne h₁, Function.update_of_ne h₁, Function.update_of_ne h₀, Function.update_of_ne h₀]
  · intro x hx
    rw [hmem]
    have hspaced : Spaced [0, 8, 16, 24, 32] := by decide
    have hread := load_storeAll (top - 40) [(0, h.reg .t1), (8, h.reg .t2), (16, h.reg .a0), (24, h.reg .a7),
      (32, h.reg .t0)] h.mem hspaced (x.2, h.reg x.1)
    refine hread ?_
    simp only [List.mem_cons, List.not_mem_nil, or_false] at hx ⊢
    rcases hx with rfl | rfl | rfl | rfl | rfl <;> simp
  · rw [hmem]
    refine storeAll_outside _ _ _ _ fun v hv => ?_
    simp only [List.mem_cons, List.not_mem_nil, or_false] at hv
    rcases hv with rfl | rfl | rfl | rfl | rfl <;> simp only <;> omega

section Handling

variable (hg : Handling top h g)
include hg

/-- The frame is read, not written, and `t1` and `t2` are the handler's to use. -/
lemma Handling.set {r : Reg} (hr : r = .t1 ∨ r = .t2) (v : BitVec 64) : Handling top h (g.set r v) := by
  have hne : ∀ r', r' ≠ .t1 → r' ≠ .t2 → Function.update g.reg r v r' = g.reg r' := by
    intro r' h₁ h₂
    refine Function.update_of_ne ?_ ..
    rintro rfl
    exact hr.elim h₁ h₂
  refine ⟨?_, fun r' h₀ h₁ h₂ => ?_, hg.frame, hg.csr⟩
  · exact (hne .t0 (by decide) (by decide)).trans hg.base
  · exact (hne r' h₁ h₂).trans (hg.kept r' h₀ h₁ h₂)

lemma Handling.setMcsr (c : MCsr) (v : BitVec 64) : Handling top h (g.setMcsr c v) :=
  ⟨hg.base, hg.kept, hg.frame, hg.csr⟩

/-- A store elsewhere. -/
lemma Handling.sd {rs b : Reg} {off : ℕ} (ha : g.addr b off + 8 ≤ top - 40) :
    Handling top h ((MOp.base (.sd rs off b)).step g) := by
  refine ⟨hg.base, hg.kept, fun x hx => ?_, hg.csr⟩
  rw [← hg.frame x hx]
  exact load_store_of_disjoint _ _ (by omega)

/-- **The registers come back.** -/
lemma Handling.mRestore (hlo : 40 ≤ top) (hhi : top < 2 ^ 64) :
    (execOps mRestore g).reg = h.reg ∧
      (execOps mRestore g).mcsr = Function.update g.mcsr .mscratch (BitVec.ofNat 64 top) ∧
      (execOps mRestore g).mem = g.mem ∧ (execOps mRestore g).csr = h.csr := by
  have hframe : ∀ r off, (r, off) ∈ [(Reg.t1, 0), (.t2, 8), (.a0, 16), (.a7, 24), (.t0, 32)] → off ≤ 40 →
      load g.mem (g.reg .t0 + BitVec.ofNat 64 off).toNat = h.reg r := by
    intro r off hmem hoff
    rw [hg.base, frame_addr hlo hhi hoff]
    exact hg.frame (r, off) hmem
  have htop : g.reg .t0 + BitVec.ofInt 64 40 = BitVec.ofNat 64 top := by
    have hback : BitVec.ofInt 64 (-40) + BitVec.ofInt 64 40 = 0#64 := by decide
    rw [hg.base, BitVec.add_assoc, hback, BitVec.add_zero]
  have hreg : (execOps NetStack.mRestore g).reg = Function.update (Function.update (Function.update (Function.update
      (Function.update (Function.update g.reg .t2 (h.reg .t2)) .a0 (h.reg .a0)) .a7 (h.reg .a7)) .t1
        (BitVec.ofNat 64 top)) .t1 (h.reg .t1)) .t0 (h.reg .t0) := by
    rw [← hframe .t2 8 (by decide) (by decide), ← hframe .a0 16 (by decide) (by decide),
      ← hframe .a7 24 (by decide) (by decide), ← hframe .t1 0 (by decide) (by decide),
      ← hframe .t0 32 (by decide) (by decide), ← htop]
    rfl
  refine ⟨?_, ?_, rfl, hg.csr⟩
  · rw [hreg]
    funext r
    simp only [Function.update_apply]
    split_ifs with h₀ h₁ h₇ ha h₂
    · rw [h₀]
    · rw [h₁]
    · rw [h₇]
    · rw [ha]
    · rw [h₂]
    · exact hg.kept r h₀ h₁ h₂
  · rw [← htop]
    rfl

end Handling

/-! ## The two ways out -/

/-- After `mSave` the listing branches on the sign of `mcause`. -/
lemma returns_mtrap (ht1 : (execOps mSave h).reg .t1 = h.mcsr .mcause) : Returns mtrap h h' ↔
    ReturnsFrom mtrap (if (h.mcsr .mcause).slt 0 then handleMInterruptCode else mExceptionCode)
      (execOps mSave h) h' := by
  show ReturnsFrom mtrap (.label .mtrapVector :: _) h h' ↔ _
  rw [returnsFrom_label, returnsFrom_ops, returnsFrom_bltz, following_handleMInterrupt, ht1]

/-- The hart that leaves through `ecall`. -/
def mSetTimerExit (g : MHart) : MHart := (execOps mRestore (execOps mSetTimer ((g.set .t2 9).set .t2 0))).mret

/-- The hart that leaves through the interrupt. -/
def mTimerExit (g : MHart) : MHart :=
  (execOps mRestore (execOps mTimer (((g.set .t1 (g.reg .t1 <<< 1)).set .t1 (g.reg .t1 <<< 1 >>> 1)).set .t2 7))).mret

lemma returns_mException (ha7 : g.reg .a7 = h.reg .a7) : ReturnsFrom mtrap mExceptionCode g h' ↔
    g.reg .t1 = 9 ∧ h.reg .a7 = 0 ∧ h' = mSetTimerExit g := by
  rw [mExceptionCode, returnsFrom_ops, returnsFrom_bne, following_mPanic]
  have hcause : (execOps [.li .t2 9] g).reg .t1 = g.reg .t1 := rfl
  have hnine : (execOps [.li .t2 9] g).reg .t2 = 9 := rfl
  rw [hcause, hnine]
  by_cases h9 : g.reg .t1 = 9
  swap
  · rw [if_pos h9]
    exact ⟨fun hret => absurd hret not_returns_panic, fun hret => absurd hret.1 h9⟩
  rw [if_neg (not_not.mpr h9), returnsFrom_ops, returnsFrom_bne, following_mPanic]
  have hcall : (execOps [.li .t2 0] (execOps [.li .t2 9] g)).reg .a7 = g.reg .a7 := rfl
  have hzero : (execOps [.li .t2 0] (execOps [.li .t2 9] g)).reg .t2 = 0 := rfl
  rw [hcall, hzero, ha7]
  by_cases h0 : h.reg .a7 = 0
  swap
  · rw [if_pos h0]
    exact ⟨fun hret => absurd hret not_returns_panic, fun hret => absurd hret.2.1 h0⟩
  rw [if_neg (not_not.mpr h0), returnsFrom_ops, returnsFrom_ops, returnsFrom_mret]
  exact ⟨fun hret => ⟨h9, h0, hret⟩, fun hret => hret.2.2⟩

lemma returns_mInterrupt : ReturnsFrom mtrap handleMInterruptCode g h' ↔
    g.reg .t1 <<< 1 >>> 1 = 7 ∧ h' = mTimerExit g := by
  rw [handleMInterruptCode, returnsFrom_ops, returnsFrom_bne, following_mPanic]
  have hcode : (execOps [.slli .t1 .t1 1, .srli .t1 .t1 1, .li .t2 7] g).reg .t1 = g.reg .t1 <<< 1 >>> 1 := rfl
  have hseven : (execOps [.slli .t1 .t1 1, .srli .t1 .t1 1, .li .t2 7] g).reg .t2 = 7 := rfl
  rw [hcode, hseven]
  by_cases h7 : g.reg .t1 <<< 1 >>> 1 = 7
  swap
  · rw [if_pos h7]
    exact ⟨fun hret => absurd hret not_returns_panic, fun hret => absurd hret.1 h7⟩
  rw [if_neg (not_not.mpr h7), returnsFrom_ops, returnsFrom_ops, returnsFrom_mret]
  exact ⟨fun hret => ⟨h7, hret⟩, fun hret => hret.2⟩

/-- What a trap does not change: the registers, the supervisor's CSRs and the level; and `mscratch` is ready for the
next one. -/
structure MTransparent (L : MLayout) (h h' : MHart) : Prop where
  reg : h'.reg = h.reg
  csr : h'.csr = h.csr
  mode : h'.mode = h.mode
  mtvec : h'.mcsr .mtvec = h.mcsr .mtvec
  mscratch : h'.mcsr .mscratch = BitVec.ofNat 64 L.mStackTop

/-- The 40 bytes below `m_stack_top`. -/
def MLayout.InFrame (L : MLayout) (x : ℕ) : Prop := L.mStackTop - 40 ≤ x ∧ x < L.mStackTop

/-- **After `set_timer`**: the timer is armed, and no tick is pending. -/
structure SetTimerDone (L : MLayout) (h h' : MHart) : Prop extends MTransparent L h h' where
  pc : h'.pc = h.pc + 4
  mem : ∀ x, ¬ L.InFrame x → ¬ (mtimecmp ≤ x ∧ x < mtimecmp + 8) → h'.mem x = h.mem x
  timer : load h'.mem mtimecmp = h.reg .a0
  mie : h'.mcsr .mie = h.mcsr .mie ||| mieMtie
  mip : h'.mcsr .mip = h.mcsr .mip &&& ~~~ mipStip

/-- **After the timer interrupt**: a tick is pending, and the timer is not armed. -/
structure TimerDone (L : MLayout) (h h' : MHart) : Prop extends MTransparent L h h' where
  pc : h'.pc = h.pc
  mem : ∀ x, ¬ L.InFrame x → h'.mem x = h.mem x
  mie : h'.mcsr .mie = h.mcsr .mie &&& ~~~ mieMtie
  mip : h'.mcsr .mip = h.mcsr .mip ||| mipStip

variable {L : MLayout} {cause : BitVec 64}

lemma MLayout.bounds (L : MLayout) : 40 ≤ L.mStackTop ∧ L.mStackTop < 2 ^ 64 ∧ mtimecmp + 8 ≤ L.mStackTop - 40 := by
  have hlo := L.ram_le
  have hhi := L.le_ram
  rw [mtimecmp]
  omega

lemma mSetTimer_spec (hg : Handling top h g) (htop : mtimecmp + 8 ≤ top - 40) :
    Handling top h (execOps mSetTimer g) ∧ (execOps mSetTimer g).mem = store g.mem mtimecmp (h.reg .a0) ∧
      (execOps mSetTimer g).mcsr = Function.update (Function.update (Function.update g.mcsr .mip
        (g.mcsr .mip &&& ~~~ mipStip)) .mie (g.mcsr .mie ||| mieMtie)) .mepc (g.mcsr .mepc + 4) := by
  have haddr : (g.set .t1 0x2004000).addr .t1 0 = mtimecmp := by
    show (Function.update g.reg .t1 0x2004000 .t1 + BitVec.ofNat 64 0).toNat = mtimecmp
    rw [Function.update_self]
    decide
  have hstore : Handling top h ((MOp.base (.sd .a0 0 .t1)).step (g.set .t1 0x2004000)) :=
    (hg.set (.inl rfl) _).sd (haddr ▸ htop)
  refine ⟨?_, ?_, rfl⟩
  · exact (((((((hstore.set (.inl rfl) _).setMcsr _ _).set (.inl rfl) _).setMcsr _ _).set (.inl rfl) _).set
      (.inl rfl) _).setMcsr _ _)
  · rw [← haddr, ← hg.kept .a0 (by decide) (by decide) (by decide)]
    rfl

lemma mTimer_spec (hg : Handling top h g) :
    Handling top h (execOps mTimer g) ∧ (execOps mTimer g).mem = g.mem ∧
      (execOps mTimer g).mcsr = Function.update (Function.update g.mcsr .mie (g.mcsr .mie &&& ~~~ mieMtie)) .mip
        (g.mcsr .mip ||| mipStip) := by
  refine ⟨?_, rfl, rfl⟩
  exact ((((hg.set (.inl rfl) _).setMcsr _ _).set (.inl rfl) _).setMcsr _ _)

/-- The CSRs when the trap has been entered and `mscratch` swapped. -/
def entered (h : MHart) (cause : BitVec 64) : MCsr → BitVec 64 :=
  Function.update (h.trap cause).mcsr .mscratch (h.reg .t0)

lemma entered_mepc (h : MHart) (cause : BitVec 64) : entered h cause .mepc = h.pc := rfl
lemma entered_mie (h : MHart) (cause : BitVec 64) : entered h cause .mie = h.mcsr .mie := rfl
lemma entered_mip (h : MHart) (cause : BitVec 64) : entered h cause .mip = h.mcsr .mip := rfl
lemma entered_mtvec (h : MHart) (cause : BitVec 64) : entered h cause .mtvec = h.mcsr .mtvec := rfl
lemma entered_mstatus (h : MHart) (cause : BitVec 64) :
    entered h cause .mstatus = enterMstatus (h.mcsr .mstatus) h.mode := rfl

/-- What the exit owes to the common part of the handler. -/
lemma MTransparent.of_mret {e : MHart} {m : MCsr → BitVec 64} (hreg : e.reg = h.reg) (hcsr : e.csr = h.csr)
    (hmcsr : e.mcsr = Function.update m .mscratch (BitVec.ofNat 64 L.mStackTop))
    (hstatus : m .mstatus = entered h cause .mstatus) (hmtvec : m .mtvec = entered h cause .mtvec) :
    MTransparent L h e.mret := by
  have hlevel : e.mcsr .mstatus = enterMstatus (h.mcsr .mstatus) h.mode := by
    rw [hmcsr, Function.update_of_ne (by decide), hstatus, entered_mstatus]
  refine ⟨hreg, hcsr, ?_, ?_, ?_⟩
  · rw [MHart.mret_mode, hlevel, ofMpp_enterMstatus]
  · rw [MHart.mret_mcsr _ (by decide), hmcsr, Function.update_of_ne (by decide), hmtvec, entered_mtvec]
  · rw [MHart.mret_mcsr _ (by decide), hmcsr, Function.update_self]

/-- **`set_timer`.** -/
lemma mSetTimerExit_done (hscratch : h.mcsr .mscratch = BitVec.ofNat 64 L.mStackTop) :
    SetTimerDone L h (mSetTimerExit (execOps mSave (h.trap cause))) := by
  obtain ⟨hlo, hhi, htop⟩ := L.bounds
  obtain ⟨hg, -, hmcsr, hmem⟩ := mSave_spec (h := h.trap cause) hscratch hlo hhi
  rw [mSetTimerExit]
  generalize execOps mSave (h.trap cause) = g at hg hmcsr hmem
  have hg₂ := (hg.set (r := .t2) (.inr rfl) 9).set (r := .t2) (.inr rfl) 0
  have hmcsr₂ : ((g.set .t2 9).set .t2 0).mcsr = entered h cause := by
    rw [MHart.set_mcsr, MHart.set_mcsr, hmcsr]
    rfl
  have hmem₂ : ((g.set .t2 9).set .t2 0).mem = g.mem := by rw [MHart.set_mem, MHart.set_mem]
  generalize (g.set .t2 9).set .t2 0 = g₂ at hg₂ hmcsr₂ hmem₂
  obtain ⟨hg₃, hmem₃, hmcsr₃⟩ := mSetTimer_spec hg₂ htop
  obtain ⟨hreg, hmcsr₄, hmem₄, hcsr⟩ := hg₃.mRestore hlo hhi
  rw [hmcsr₃, hmcsr₂] at hmcsr₄
  rw [hmem₃, hmem₂] at hmem₄
  generalize execOps mRestore (execOps mSetTimer g₂) = e at hreg hmcsr₄ hmem₄ hcsr
  have hother : ∀ c, c ≠ .mepc → c ≠ .mie → c ≠ .mip → Function.update (Function.update (Function.update
      (entered h cause) .mip (entered h cause .mip &&& ~~~ mipStip)) .mie (entered h cause .mie ||| mieMtie)) .mepc
        (entered h cause .mepc + 4) c = entered h cause c := by
    intro c h₁ h₂ h₃
    rw [Function.update_of_ne h₁, Function.update_of_ne h₂, Function.update_of_ne h₃]
  refine ⟨.of_mret hreg hcsr hmcsr₄ (hother _ (by decide) (by decide) (by decide))
    (hother _ (by decide) (by decide) (by decide)), ?_, fun x hout hcmp => ?_, ?_, ?_, ?_⟩
  · rw [MHart.mret_pc, hmcsr₄, Function.update_of_ne (by decide), Function.update_self, entered_mepc]
  · rw [MHart.mret_mem, hmem₄, store_outside _ _ (by omega), hmem x hout]
    rfl
  · rw [MHart.mret_mem, hmem₄, load_store]
    rfl
  · rw [MHart.mret_mcsr _ (by decide), hmcsr₄, Function.update_of_ne (by decide), Function.update_of_ne (by decide),
      Function.update_self, entered_mie]
  · rw [MHart.mret_mcsr _ (by decide), hmcsr₄, Function.update_of_ne (by decide), Function.update_of_ne (by decide),
      Function.update_of_ne (by decide), Function.update_self, entered_mip]

/-- **The timer interrupt.** -/
lemma mTimerExit_done (hscratch : h.mcsr .mscratch = BitVec.ofNat 64 L.mStackTop) :
    TimerDone L h (mTimerExit (execOps mSave (h.trap cause))) := by
  obtain ⟨hlo, hhi, -⟩ := L.bounds
  obtain ⟨hg, -, hmcsr, hmem⟩ := mSave_spec (h := h.trap cause) hscratch hlo hhi
  rw [mTimerExit]
  generalize execOps mSave (h.trap cause) = g at hg hmcsr hmem
  generalize hv : g.reg .t1 <<< 1 = v
  generalize hw : v >>> 1 = w
  have hg₂ := ((hg.set (r := .t1) (.inl rfl) v).set (r := .t1) (.inl rfl) w).set (r := .t2) (.inr rfl) 7
  have hmcsr₂ : (((g.set .t1 v).set .t1 w).set .t2 7).mcsr = entered h cause := by
    rw [MHart.set_mcsr, MHart.set_mcsr, MHart.set_mcsr, hmcsr]
    rfl
  have hmem₂ : (((g.set .t1 v).set .t1 w).set .t2 7).mem = g.mem := by rw [MHart.set_mem, MHart.set_mem, MHart.set_mem]
  generalize ((g.set .t1 v).set .t1 w).set .t2 7 = g₂ at hg₂ hmcsr₂ hmem₂
  obtain ⟨hg₃, hmem₃, hmcsr₃⟩ := mTimer_spec hg₂
  obtain ⟨hreg, hmcsr₄, hmem₄, hcsr⟩ := hg₃.mRestore hlo hhi
  rw [hmcsr₃, hmcsr₂] at hmcsr₄
  rw [hmem₃, hmem₂] at hmem₄
  generalize execOps mRestore (execOps mTimer g₂) = e at hreg hmcsr₄ hmem₄ hcsr
  have hother : ∀ c, c ≠ .mip → c ≠ .mie → Function.update (Function.update (entered h cause) .mie
      (entered h cause .mie &&& ~~~ mieMtie)) .mip (entered h cause .mip ||| mipStip) c = entered h cause c := by
    intro c h₁ h₂
    rw [Function.update_of_ne h₁, Function.update_of_ne h₂]
  refine ⟨.of_mret hreg hcsr hmcsr₄ (hother _ (by decide) (by decide)) (hother _ (by decide) (by decide)), ?_,
    fun x hout => ?_, ?_, ?_⟩
  · rw [MHart.mret_pc, hmcsr₄, Function.update_of_ne (by decide), hother _ (by decide) (by decide), entered_mepc]
  · rw [MHart.mret_mem, hmem₄, hmem x hout]
    rfl
  · rw [MHart.mret_mcsr _ (by decide), hmcsr₄, Function.update_of_ne (by decide), Function.update_of_ne (by decide),
      Function.update_self, entered_mie]
  · rw [MHart.mret_mcsr _ (by decide), hmcsr₄, Function.update_of_ne (by decide), Function.update_self, entered_mip]

/-- `mcause` of an `ecall` from supervisor mode, and of the machine timer interrupt. -/
def causeEcall : BitVec 64 := 9
def causeTimer : BitVec 64 := 0x8000000000000007

/-- The checks of `handle_m_interrupt` let one cause through. -/
lemma causeTimer_iff : cause.slt 0 = true ∧ cause <<< 1 >>> 1 = 7 ↔ cause = causeTimer := by
  constructor
  · rintro ⟨hneg, hseven⟩
    have hhigh : 2 ^ 64 ≤ 2 * cause.toNat := by
      rw [BitVec.slt, decide_eq_true_eq, show BitVec.toInt (0 : BitVec 64) = 0 from rfl, BitVec.toInt_neg_iff] at hneg
      exact hneg
    have hcode := congrArg BitVec.toNat hseven
    have hseven' : (7 : BitVec 64).toNat = 7 := rfl
    rw [BitVec.toNat_ushiftRight, BitVec.toNat_shiftLeft, hseven', Nat.shiftLeft_eq, Nat.shiftRight_eq_div_pow] at hcode
    have hlt := cause.isLt
    refine BitVec.eq_of_toNat_eq ?_
    rw [show causeTimer.toNat = 2 ^ 63 + 7 from rfl]
    omega
  · rintro rfl
    decide

/-- **Which traps return**, and to what. -/
lemma returns_iff (hscratch : h.mcsr .mscratch = BitVec.ofNat 64 L.mStackTop) : Returns mtrap (h.trap cause) h' ↔
    cause = causeEcall ∧ h.reg .a7 = 0 ∧ h' = mSetTimerExit (execOps mSave (h.trap cause)) ∨
      cause = causeTimer ∧ h' = mTimerExit (execOps mSave (h.trap cause)) := by
  obtain ⟨hlo, hhi, -⟩ := L.bounds
  obtain ⟨hg, ht1, -, -⟩ := mSave_spec (h := h.trap cause) hscratch hlo hhi
  have hcause : (h.trap cause).mcsr .mcause = cause := rfl
  have ha7 : (execOps mSave (h.trap cause)).reg .a7 = h.reg .a7 := hg.kept .a7 (by decide) (by decide) (by decide)
  rw [returns_mtrap ht1, hcause]
  rw [hcause] at ht1
  generalize execOps mSave (h.trap cause) = g at ht1 ha7
  have hecall : causeEcall.slt 0 = false := by decide
  by_cases hneg : cause.slt 0 = true
  · rw [if_pos hneg, returns_mInterrupt, ht1]
    constructor
    · rintro ⟨hseven, hret⟩
      exact .inr ⟨causeTimer_iff.mp ⟨hneg, hseven⟩, hret⟩
    · rintro (⟨rfl, -⟩ | ⟨htimer, hret⟩)
      · exact absurd hneg (by rw [hecall]; decide)
      · exact ⟨(causeTimer_iff.mpr htimer).2, hret⟩
  · rw [if_neg hneg, returns_mException ha7, ht1]
    constructor
    · rintro ⟨hnine, hzero, hret⟩
      exact .inl ⟨hnine, hzero, hret⟩
    · rintro (hret | ⟨htimer, -⟩)
      · exact hret
      · exact absurd (causeTimer_iff.mpr htimer).1 hneg

/-! ## Runs -/

/-- `Start.S`, from `relocate_kernel` to its `mret`. -/
def startCode (L : MLayout) : List MOp :=
  [.csrwZero .mie, .li .t0 L.mtrapVector, .csrw .mtvec .t0, .li .t0 (BitVec.ofNat 64 L.mStackTop), .csrw .mscratch .t0,
    .li .t0 (-1), .csrw .mcounteren .t0, .li .t0 (-1), .csrw .pmpaddr0 .t0, .li .t1 0x8f, .csrw .pmpcfg0 .t1,
    .li .t0 0xfdff, .csrw .medeleg .t0, .li .t0 0x222, .csrw .mideleg .t0, .li .t0 (3#64 <<< 11), .csrc .mstatus .t0,
    .li .t0 (1#64 <<< 11), .csrs .mstatus .t0, .li .t0 L.kernelEntry, .csrw .mepc .t0]

/-- The hart when the kernel is entered. -/
def startHart (L : MLayout) (h : MHart) : MHart := (execOps (startCode L) h).mret

/-- `mie.MTIE`: the timer is armed. -/
def mtie (h : MHart) : Bool := (h.mcsr .mie).getLsbD 7

/-- `mip.STIP`: a tick is pending for the supervisor. -/
def stip (h : MHart) : Bool := (h.mcsr .mip).getLsbD 5

inductive MEvent
  | setTimer
  | timer
  | supervisor
  deriving DecidableEq, Repr

/-- The supervisor at work.  It reaches `mie` and `mip` through `sie` and `sip` only, where `MTIE` does not appear and
`STIP` is read-only. -/
structure SupervisorStep (h h' : MHart) : Prop where
  mode : h'.mode = h.mode
  mtvec : h'.mcsr .mtvec = h.mcsr .mtvec
  mscratch : h'.mcsr .mscratch = h.mcsr .mscratch
  mtie : mtie h' = mtie h
  stip : stip h' = stip h

/-- **One event**: an `ecall` of `set_timer`, a timer interrupt, each up to its `mret`, or anything the supervisor does
in between. -/
inductive MStep : MHart → MEvent → MHart → Prop
  | setTimer {h h' : MHart} (ha7 : h.reg .a7 = 0) (hret : Returns mtrap (h.trap causeEcall) h') :
      MStep h .setTimer h'
  | timer {h h' : MHart} (harmed : mtie h = true) (hret : Returns mtrap (h.trap causeTimer) h') :
      MStep h .timer h'
  | supervisor {h h' : MHart} (hs : SupervisorStep h h') : MStep h .supervisor h'

/-- The handler is in place. -/
structure MReady (L : MLayout) (h : MHart) : Prop where
  mode : h.mode = .supervisor
  mtvec : h.mcsr .mtvec = L.mtrapVector
  mscratch : h.mcsr .mscratch = BitVec.ofNat 64 L.mStackTop

lemma startHart_ready (L : MLayout) (h : MHart) : MReady L (startHart L h) := by
  have hmstatus : (execOps (startCode L) h).mcsr .mstatus = h.mcsr .mstatus &&& ~~~ (3#64 <<< 11) ||| 1#64 <<< 11 := rfl
  have hmtvec : (execOps (startCode L) h).mcsr .mtvec = L.mtrapVector := rfl
  have hmscratch : (execOps (startCode L) h).mcsr .mscratch = BitVec.ofNat 64 L.mStackTop := rfl
  rw [startHart]
  generalize execOps (startCode L) h = e at hmstatus hmtvec hmscratch
  refine ⟨?_, ?_, ?_⟩
  · have hhigh : (e.mcsr .mstatus).getLsbD mppHigh = false := by
      rw [hmstatus, BitVec.getLsbD_or, BitVec.getLsbD_and]
      simp [mppHigh]
    have hlow : (e.mcsr .mstatus).getLsbD mppLow = true := by
      rw [hmstatus, BitVec.getLsbD_or]
      simp [mppLow]
    rw [MHart.mret_mode, Mode.ofMpp, hhigh, hlow]
  · rw [MHart.mret_mcsr _ (by decide), hmtvec]
  · rw [MHart.mret_mcsr _ (by decide), hmscratch]

/-- A trap that returns is one of the two, and does what it should. -/
lemma MReady.returns (hr : MReady L h) (hret : Returns mtrap (h.trap cause) h') :
    cause = causeEcall ∧ h.reg .a7 = 0 ∧ SetTimerDone L h h' ∨ cause = causeTimer ∧ TimerDone L h h' := by
  rcases (returns_iff hr.mscratch).mp hret with ⟨hc, ha7, rfl⟩ | ⟨hc, rfl⟩
  · exact .inl ⟨hc, ha7, mSetTimerExit_done hr.mscratch⟩
  · exact .inr ⟨hc, mTimerExit_done hr.mscratch⟩

/-- And both do return. -/
lemma MReady.setTimer (hr : MReady L h) (ha7 : h.reg .a7 = 0) : ∃ h', MStep h .setTimer h' ∧ SetTimerDone L h h' :=
  ⟨_, .setTimer ha7 ((returns_iff hr.mscratch).mpr (.inl ⟨rfl, ha7, rfl⟩)), mSetTimerExit_done hr.mscratch⟩

lemma MReady.timer (hr : MReady L h) (harmed : mtie h = true) : ∃ h', MStep h .timer h' ∧ TimerDone L h h' :=
  ⟨_, .timer harmed ((returns_iff hr.mscratch).mpr (.inr ⟨rfl, rfl⟩)), mTimerExit_done hr.mscratch⟩

lemma MReady.of_transparent (hr : MReady L h) (ht : MTransparent L h h') : MReady L h' :=
  ⟨ht.mode.trans hr.mode, ht.mtvec.trans hr.mtvec, ht.mscratch⟩

/-- Either the timer is armed or a tick is pending. -/
def OneOf (h : MHart) : Prop := mtie h ≠ stip h

lemma SetTimerDone.armed (hd : SetTimerDone L h h') : mtie h' = true := by
  rw [mtie, hd.mie, BitVec.getLsbD_or]
  simp [mieMtie]

lemma SetTimerDone.oneOf (hd : SetTimerDone L h h') : OneOf h' := by
  have hclear : stip h' = false := by
    rw [stip, hd.mip, BitVec.getLsbD_and]
    simp [mipStip]
  rw [OneOf, hd.armed, hclear]
  decide

lemma TimerDone.oneOf (hd : TimerDone L h h') : OneOf h' := by
  have hoff : mtie h' = false := by
    rw [mtie, hd.mie, BitVec.getLsbD_and]
    simp [mieMtie]
  have htick : stip h' = true := by
    rw [stip, hd.mip, BitVec.getLsbD_or]
    simp [mipStip]
  rw [OneOf, hoff, htick]
  decide

/-- **A step.**  A trap leaves one of the two, whatever was there before; the supervisor cannot change which. -/
lemma MStep.ready {e : MEvent} (hstep : MStep h e h') (hr : MReady L h) :
    MReady L h' ∧ (e = .setTimer ∨ OneOf h → OneOf h') := by
  cases hstep with
  | setTimer ha7 hret =>
      rcases hr.returns hret with ⟨-, -, hd⟩ | ⟨-, hd⟩
      · exact ⟨hr.of_transparent hd.toMTransparent, fun _ => hd.oneOf⟩
      · exact ⟨hr.of_transparent hd.toMTransparent, fun _ => hd.oneOf⟩
  | timer harmed hret =>
      rcases hr.returns hret with ⟨-, -, hd⟩ | ⟨-, hd⟩
      · exact ⟨hr.of_transparent hd.toMTransparent, fun _ => hd.oneOf⟩
      · exact ⟨hr.of_transparent hd.toMTransparent, fun _ => hd.oneOf⟩
  | supervisor hs =>
      refine ⟨⟨hs.mode.trans hr.mode, hs.mtvec.trans hr.mtvec, hs.mscratch.trans hr.mscratch⟩, ?_⟩
      rintro (⟨⟨⟩⟩ | hone)
      rw [OneOf, hs.mtie, hs.stip]
      exact hone

/-- **A run.** -/
lemma Run.oneOf {es : List MEvent} (hrun : Run MStep h es h') (hr : MReady L h) :
    MReady L h' ∧ (.setTimer ∈ es ∨ OneOf h → OneOf h') := by
  induction hrun with
  | nil _ => exact ⟨hr, fun hone => hone.resolve_left List.not_mem_nil⟩
  | cons hstep _ ih =>
      obtain ⟨hr', hone⟩ := hstep.ready hr
      obtain ⟨hr'', hone'⟩ := ih hr'
      refine ⟨hr'', ?_⟩
      rintro (hmem | hstart)
      · rcases List.mem_cons.mp hmem with hfirst | hrest
        · exact hone' (.inr (hone (.inl hfirst.symm)))
        · exact hone' (.inl hrest)
      · exact hone' (.inr (hone (.inr hstart)))

/-- **Machine-mode traps are transparent, and the timer is never lost.**  After any run of `set_timer` calls, timer
interrupts and supervisor steps from `Start.S` on: traps go to `mtrap_vector`; a run of it that ends in `mret` is one
of the two, gives back every register and writes no memory but its frame and, for `set_timer`, `mtimecmp`; both do
return; and once `set_timer` has been called, the timer is armed or a tick is pending, and not both. -/
theorem m_traps_transparent (L : MLayout) (g h : MHart) (es : List MEvent) (hrun : Run MStep (startHart L g) es h) :
    (h.mode = .supervisor ∧ h.mcsr .mtvec = L.mtrapVector) ∧
    (∀ cause h', Returns mtrap (h.trap cause) h' →
      cause = causeEcall ∧ h.reg .a7 = 0 ∧ SetTimerDone L h h' ∨ cause = causeTimer ∧ TimerDone L h h') ∧
    (h.reg .a7 = 0 → ∃ h', MStep h .setTimer h') ∧ (mtie h = true → ∃ h', MStep h .timer h') ∧
    (.setTimer ∈ es → (mtie h = true ↔ stip h = false)) := by
  obtain ⟨hr, hone⟩ := Run.oneOf hrun (startHart_ready L g)
  refine ⟨⟨hr.mode, hr.mtvec⟩, fun cause h' hret => hr.returns hret, fun ha7 => ?_, fun harmed => ?_, fun hset => ?_⟩
  · obtain ⟨h', hstep, -⟩ := hr.setTimer ha7
    exact ⟨h', hstep⟩
  · obtain ⟨h', hstep, -⟩ := hr.timer harmed
    exact ⟨h', hstep⟩
  · have hne := hone (.inl hset)
    rw [OneOf] at hne
    cases hm : mtie h <;> cases hs : stip h <;> simp_all

/-- A layout, and a hart whose registers are all zero. -/
def sampleMLayout : MLayout where
  mtrapVector := 0x80000100
  kernelEntry := 0xFFFFFFC080000200
  mStackTop := 0x80010000
  ram_le := by decide
  le_ram := by decide

def zeroHart : MHart := ⟨⟨fun _ => 0, fun _ => 0, 0, fun _ => 0⟩, fun _ => 0, .machine⟩

/-- The first `set_timer`, and the interrupt it leads to. -/
theorem m_traps_transparent_first : ∃ h, Run MStep (startHart sampleMLayout zeroHart) [.setTimer, .timer] h ∧
    (mtie h = true ↔ stip h = false) := by
  have hr := startHart_ready sampleMLayout zeroHart
  have ha7 : (startHart sampleMLayout zeroHart).reg .a7 = 0 := rfl
  obtain ⟨h₁, hstep₁, hd₁⟩ := hr.setTimer ha7
  have hr₁ := hr.of_transparent hd₁.toMTransparent
  obtain ⟨h₂, hstep₂, -⟩ := hr₁.timer hd₁.armed
  have hrun : Run MStep (startHart sampleMLayout zeroHart) [.setTimer, .timer] h₂ :=
    .cons hstep₁ (.cons hstep₂ (.nil h₂))
  exact ⟨h₂, hrun, (m_traps_transparent sampleMLayout zeroHart h₂ _ hrun).2.2.2.2 (by decide)⟩

end NetStack
