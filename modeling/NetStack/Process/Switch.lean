import NetStack.Lib.Riscv

/-!
# `trap_vector` and `swtch`

The two pieces of assembly that move a process's registers to memory and back, instruction for
instruction from `trap.S` and `process.S`.

* `trapSave_spec`, `trapRestore_spec` — the trap frame holds the 31 registers and the CSRs, at the offsets
  of `struct trap_context`, and comes back from it;
* `swtch_spec` — the old context gets `ra`, `sp`, `s0`–`s11`, and these come from the new one.
-/

namespace NetStack

open ByteMem Riscv

/-! ## The code -/

/-- The runs of `sd` in the middle of `trap_vector`. -/
def trapSaved : List (Reg × ℕ) :=
  [(.gp, 24), (.tp, 32), (.t1, 48), (.t2, 56), (.s0, 64), (.s1, 72), (.a0, 80), (.a1, 88), (.a2, 96),
    (.a3, 104), (.a4, 112), (.a5, 120), (.a6, 128), (.a7, 136), (.s2, 144), (.s3, 152), (.s4, 160),
    (.s5, 168), (.s6, 176), (.s7, 184), (.s8, 192), (.s9, 200), (.s10, 208), (.s11, 216), (.t3, 224),
    (.t4, 232), (.t5, 240), (.t6, 248)]

/-- The run of `ld` at its end. -/
def trapRestored : List (Reg × ℕ) :=
  [(.ra, 8), (.gp, 24), (.tp, 32), (.t0, 40), (.t1, 48), (.t2, 56), (.s0, 64), (.s1, 72), (.a0, 80),
    (.a1, 88), (.a2, 96), (.a3, 104), (.a4, 112), (.a5, 120), (.a6, 128), (.a7, 136), (.s2, 144),
    (.s3, 152), (.s4, 160), (.s5, 168), (.s6, 176), (.s7, 184), (.s8, 192), (.s9, 200), (.s10, 208),
    (.s11, 216), (.t3, 224), (.t4, 232), (.t5, 240), (.t6, 248)]

/-- `trap_vector`, up to the call of `trap_handler`, which returns to `back`. -/
def trapVectorSave (trapHandler back : BitVec 64) : List Instr :=
  [.addi .sp .sp (-288), .sd .ra 8 .sp, .sd .t0 40 .sp, .addi .t0 .sp 288, .sd .t0 16 .sp] ++
    saves .sp trapSaved ++
    [.csrr .t0 .sstatus, .sd .t0 256 .sp, .csrr .t0 .sepc, .sd .t0 264 .sp, .csrr .t0 .scause,
      .sd .t0 272 .sp, .csrr .t0 .stval, .sd .t0 280 .sp, .mv .a0 .sp, .call trapHandler back]

/-- `trap_vector`, from the return of `trap_handler` on. -/
def trapVectorRestore : List Instr :=
  [.ld .t0 256 .sp, .csrw .sstatus .t0, .ld .t0 264 .sp, .csrw .sepc .t0] ++
    loads .sp trapRestored ++ [.ld .sp 16 .sp, .sret]

/-- `struct context`: the offsets at which `swtch` keeps the registers. -/
def contextRegs : List (Reg × ℕ) :=
  [(.ra, 0), (.sp, 8), (.s0, 16), (.s1, 24), (.s2, 32), (.s3, 40), (.s4, 48), (.s5, 56), (.s6, 64),
    (.s7, 72), (.s8, 80), (.s9, 88), (.s10, 96), (.s11, 104)]

/-- `swtch(a0 = old, a1 = new)`. -/
def swtchCode : List Instr := saves .a0 contextRegs ++ loads .a1 contextRegs ++ [.ret]

/-! ## Trap frames -/

/-- `r` is `x`*n*. -/
def regIndex : Reg → ℕ
  | .ra => 1 | .sp => 2 | .gp => 3 | .tp => 4 | .t0 => 5 | .t1 => 6 | .t2 => 7 | .s0 => 8 | .s1 => 9
  | .a0 => 10 | .a1 => 11 | .a2 => 12 | .a3 => 13 | .a4 => 14 | .a5 => 15 | .a6 => 16 | .a7 => 17
  | .s2 => 18 | .s3 => 19 | .s4 => 20 | .s5 => 21 | .s6 => 22 | .s7 => 23 | .s8 => 24 | .s9 => 25
  | .s10 => 26 | .s11 => 27 | .t3 => 28 | .t4 => 29 | .t5 => 30 | .t6 => 31

/-- `struct trap_context` at `b` has the registers and CSRs of `f`. -/
structure TrapFrame (mem : Mem) (b : ℕ) (f : Machine) : Prop where
  regs : ∀ r, load mem (b + 8 * regIndex r) = f.reg r
  sstatus : load mem (b + 256) = f.csr .sstatus
  sepc : load mem (b + 264) = f.csr .sepc
  scause : load mem (b + 272) = f.csr .scause

/-- The tables give each register its place in the frame. -/
lemma trapRestored_eq : trapRestored = (trapRestored.map Prod.fst).map fun r => (r, 8 * regIndex r) := rfl

lemma mem_trapRestored {r : Reg} (hr : r ≠ .sp) : (r, 8 * regIndex r) ∈ trapRestored := by
  have hreg : r ∈ trapRestored.map Prod.fst := by
    simp only [trapRestored, List.map_cons, List.map_nil]
    cases r <;> first | contradiction | simp
  rw [trapRestored_eq]
  exact List.mem_map_of_mem hreg

/-- A frame is 288 bytes of memory. -/
lemma TrapFrame.congr {mem mem' : Mem} {b : ℕ} {f : Machine} (h : TrapFrame mem b f)
    (hmem : ∀ x, b ≤ x → x < b + 288 → mem' x = mem x) : TrapFrame mem' b f := by
  have hload : ∀ o, o + 8 ≤ 288 → load mem' (b + o) = load mem (b + o) := by
    intro o ho
    exact load_congr fun x hlo hhi => hmem x (by omega) (by omega)
  refine ⟨?_, ?_, ?_, ?_⟩
  · intro r
    have hr : 8 * regIndex r + 8 ≤ 288 := by cases r <;> decide
    rw [hload _ hr, h.regs r]
  · rw [hload 256 (by omega), h.sstatus]
  · rw [hload 264 (by omega), h.sepc]
  · rw [hload 272 (by omega), h.scause]

/-- What `trap_vector` stores, in its order. -/
def frameValues (m : Machine) : List (ℕ × BitVec 64) :=
  [(8, m.reg .ra), (40, m.reg .t0), (16, m.reg .sp)] ++
    trapSaved.map (fun x => (x.2, m.reg x.1)) ++
    [(256, m.csr .sstatus), (264, m.csr .sepc), (272, m.csr .scause), (280, m.csr .stval)]

lemma frameValues_spaced (m : Machine) : Spaced ((frameValues m).map Prod.fst) := by
  have hoff : (frameValues m).map Prod.fst =
      [8, 40, 16] ++ trapSaved.map Prod.snd ++ [256, 264, 272, 280] := by
    simp [frameValues, Function.comp_def]
  rw [hoff]
  exact spaced_of_aligned (by decide +kernel) (by decide +kernel)

lemma frameValues_reg (m : Machine) (r : Reg) : (8 * regIndex r, m.reg r) ∈ frameValues m := by
  have hr : r = .ra ∨ r = .t0 ∨ r = .sp ∨ (r, 8 * regIndex r) ∈ trapSaved := by
    cases r <;> decide +kernel
  rcases hr with rfl | rfl | rfl | hr
  · simp [frameValues, regIndex]
  · simp [frameValues, regIndex]
  · simp [frameValues, regIndex]
  · have := List.mem_map_of_mem (f := fun x : Reg × ℕ => (x.2, m.reg x.1)) hr
    simp only [frameValues, List.mem_append]
    exact .inl (.inr this)

lemma frameValues_lt {m : Machine} {v : ℕ × BitVec 64} (hv : v ∈ frameValues m) : v.1 + 8 ≤ 288 := by
  have hmem : v.1 ∈ [8, 40, 16] ++ trapSaved.map Prod.snd ++ [256, 264, 272, 280] := by
    have := List.mem_map_of_mem (f := Prod.fst) hv
    simpa [frameValues, Function.comp_def] using this
  have hall : ∀ o ∈ [8, 40, 16] ++ trapSaved.map Prod.snd ++ [256, 264, 272, 280], o + 8 ≤ 288 := by
    decide
  exact hall v.1 hmem

/-- A frame slot of a stack pointer with room above it. -/
lemma addr_sp {m : Machine} {b o : ℕ} (hsp : (m.reg .sp).toNat = b) (hb : b + 288 ≤ 2 ^ 64)
    (ho : o + 8 ≤ 288) : m.addr .sp o = b + o := by
  rw [Machine.addr_eq (by omega), hsp]

/-- The first five instructions: the frame is allocated, and `ra`, `t0` and the old `sp` saved. -/
lemma trapSave_head {m : Machine} {b : ℕ} (hsp : (m.reg .sp).toNat = b + 288) :
    ∃ reg, exec [.addi .sp .sp (-288), .sd .ra 8 .sp, .sd .t0 40 .sp, .addi .t0 .sp 288,
        .sd .t0 16 .sp] m =
      ⟨reg, m.csr, m.pc, storeAll m.mem b [(8, m.reg .ra), (40, m.reg .t0), (16, m.reg .sp)]⟩ ∧
      (reg .sp).toNat = b ∧ ∀ r, r ≠ .sp → r ≠ .t0 → reg r = m.reg r := by
  obtain ⟨y, hy⟩ : ∃ y, y = m.reg .sp + BitVec.ofInt 64 (-288) := ⟨_, rfl⟩
  have hlt : (m.reg .sp).toNat < 2 ^ 64 := (m.reg .sp).isLt
  have hb : y.toNat = b := by
    have hneg : (BitVec.ofInt 64 (-288)).toNat = 2 ^ 64 - 288 := by decide
    rw [hy, BitVec.toNat_add]
    omega
  have hback : y + BitVec.ofInt 64 288 = m.reg .sp := by
    have hzero : BitVec.ofInt 64 (-288) + BitVec.ofInt 64 288 = 0#64 := by decide
    rw [hy, BitVec.add_assoc, hzero, BitVec.add_zero]
  have haddr : ∀ o, o + 8 ≤ 288 → (y + BitVec.ofNat 64 o).toNat = b + o := by
    intro o ho
    rw [BitVec.toNat_add, hb, BitVec.toNat_ofNat]
    omega
  have halloc : (Instr.addi .sp .sp (-288)).step m = m.set .sp y := by
    rw [hy]
    rfl
  refine ⟨Function.update (Function.update m.reg .sp y) .t0 (m.reg .sp), ?_, ?_, ?_⟩
  · rw [exec_cons, halloc]
    simp only [exec_cons, exec_nil, Instr.step, Machine.set, Machine.addr, storeAll, List.foldl_cons,
      List.foldl_nil, Function.update_self, ne_eq, reduceCtorEq, not_false_eq_true,
      Function.update_of_ne, hback, haddr 8 (by omega), haddr 40 (by omega), haddr 16 (by omega)]
  · rw [Function.update_of_ne (by decide), Function.update_self, hb]
  · intro r hr ht
    rw [Function.update_of_ne ht, Function.update_of_ne hr]

/-- The last instructions: the CSRs are saved through `t0`, and `trap_handler` called. -/
lemma trapSave_tail {m : Machine} {b : ℕ} (hsp : (m.reg .sp).toNat = b) (hb : b + 288 ≤ 2 ^ 64)
    (trapHandler back : BitVec 64) :
    ∃ reg, exec [.csrr .t0 .sstatus, .sd .t0 256 .sp, .csrr .t0 .sepc, .sd .t0 264 .sp,
        .csrr .t0 .scause, .sd .t0 272 .sp, .csrr .t0 .stval, .sd .t0 280 .sp, .mv .a0 .sp,
        .call trapHandler back] m =
      ⟨reg, m.csr, trapHandler, storeAll m.mem b [(256, m.csr .sstatus), (264, m.csr .sepc),
        (272, m.csr .scause), (280, m.csr .stval)]⟩ ∧
      reg .sp = m.reg .sp ∧ reg .a0 = m.reg .sp ∧ reg .ra = back := by
  have haddr : ∀ o, o + 8 ≤ 288 → (m.reg .sp + BitVec.ofNat 64 o).toNat = b + o := by
    intro o ho
    exact addr_sp hsp hb ho
  refine ⟨Function.update (Function.update (Function.update m.reg .t0 (m.csr .stval)) .a0 (m.reg .sp))
    .ra back, ?_, ?_, ?_, ?_⟩
  · simp only [exec_cons, exec_nil, Instr.step, Machine.set, Machine.addr, storeAll, List.foldl_cons,
      List.foldl_nil, Function.update_self, ne_eq, reduceCtorEq, not_false_eq_true,
      Function.update_of_ne, Function.update_idem, haddr 256 (by omega), haddr 264 (by omega),
      haddr 272 (by omega), haddr 280 (by omega)]
  · rw [Function.update_of_ne (by decide), Function.update_of_ne (by decide),
      Function.update_of_ne (by decide)]
  · rw [Function.update_of_ne (by decide), Function.update_self]
  · rw [Function.update_self]

/-- **`trap_vector`, saving.**  Below the stack pointer stands a frame with every register as it was at the
trap, and `trap_handler` is called with a pointer to it. -/
lemma trapSave_spec {m : Machine} {b : ℕ} (hsp : (m.reg .sp).toNat = b + 288)
    (trapHandler back : BitVec 64) :
    ∃ m', exec (trapVectorSave trapHandler back) m = m' ∧ TrapFrame m'.mem b m ∧
      (m'.reg .sp).toNat = b ∧ m'.reg .a0 = m'.reg .sp ∧ m'.reg .ra = back ∧ m'.pc = trapHandler ∧
      ∀ x, x < b ∨ b + 288 ≤ x → m'.mem x = m.mem x := by
  have hb : b + 288 ≤ 2 ^ 64 := by
    have := (m.reg .sp).isLt
    omega
  rcases trapSave_head hsp with ⟨reg, hhead, hsp', hreg⟩
  have hsaves := exec_saves .sp b trapSaved ⟨reg, m.csr, m.pc,
      storeAll m.mem b [(8, m.reg .ra), (40, m.reg .t0), (16, m.reg .sp)]⟩ (by
    intro x hx
    have hx' : x.2 + 8 ≤ 288 := (by decide : ∀ y ∈ trapSaved, y.2 + 8 ≤ 288) x hx
    exact addr_sp hsp' hb hx')
  -- `sp` and `t0` are not in the table, so what it saves is what they were at the trap
  have hvals : (trapSaved.map fun x => (x.2, reg x.1)) = trapSaved.map fun x => (x.2, m.reg x.1) := by
    refine List.map_congr_left fun x hx => ?_
    have hx' : x.1 ≠ .sp ∧ x.1 ≠ .t0 := (by decide : ∀ y ∈ trapSaved, y.1 ≠ .sp ∧ y.1 ≠ .t0) x hx
    rw [hreg x.1 hx'.1 hx'.2]
  rcases trapSave_tail (m := ⟨reg, m.csr, m.pc, storeAll (storeAll m.mem b
      [(8, m.reg .ra), (40, m.reg .t0), (16, m.reg .sp)]) b (trapSaved.map fun x => (x.2, m.reg x.1))⟩)
    hsp' hb trapHandler back with ⟨reg', htail, hsp'', ha0, hra⟩
  refine ⟨⟨reg', m.csr, trapHandler, storeAll m.mem b (frameValues m)⟩, ?_, ?_, ?_, ?_, hra, rfl, ?_⟩
  · rw [trapVectorSave, exec_append, exec_append, hhead, hsaves, hvals, htail]
    simp only [frameValues, storeAll_append]
  · have hslot := load_storeAll b (frameValues m) m.mem (frameValues_spaced m)
    refine ⟨fun r => hslot _ (frameValues_reg m r), hslot (256, _) ?_, hslot (264, _) ?_,
      hslot (272, _) ?_⟩
    · simp [frameValues]
    · simp [frameValues]
    · simp [frameValues]
  · show (reg' .sp).toNat = b
    rw [hsp'']
    exact hsp'
  · exact ha0.trans hsp''.symm
  · intro x hx
    refine storeAll_outside b x _ _ fun v hv => ?_
    have := frameValues_lt hv
    omega

/-- **`trap_vector`, restoring.**  All registers come from the frame, `pc` from its `sepc`, and `sret`
takes `SIE` from its `SPIE`. -/
lemma trapRestore_spec {m f : Machine} {b : ℕ} (hsp : (m.reg .sp).toNat = b) (hb : b + 288 ≤ 2 ^ 64)
    (hf : TrapFrame m.mem b f) :
    ∃ m', exec trapVectorRestore m = m' ∧ m'.reg = f.reg ∧ m'.pc = f.csr .sepc ∧
      m'.csr .sstatus = leaveStatus (f.csr .sstatus) ∧ m'.mem = m.mem := by
  have haddr : ∀ o, o + 8 ≤ 288 → (m.reg .sp + BitVec.ofNat 64 o).toNat = b + o := by
    intro o ho
    exact addr_sp hsp hb ho
  -- the CSRs go through `t0`, which the table then loads
  have hcsrs : ∃ csr reg, exec [.ld .t0 256 .sp, .csrw .sstatus .t0, .ld .t0 264 .sp,
        .csrw .sepc .t0] m = ⟨reg, csr, m.pc, m.mem⟩ ∧ csr .sstatus = f.csr .sstatus ∧
      csr .sepc = f.csr .sepc ∧ reg .sp = m.reg .sp := by
    refine ⟨Function.update (Function.update m.csr .sstatus (f.csr .sstatus)) .sepc (f.csr .sepc),
      Function.update m.reg .t0 (f.csr .sepc), ?_, ?_, ?_, ?_⟩
    · simp only [exec_cons, exec_nil, Instr.step, Machine.set, Machine.setCsr, Machine.addr,
        Function.update_self, ne_eq, reduceCtorEq, not_false_eq_true, Function.update_of_ne,
        Function.update_idem, haddr 256 (by omega), haddr 264 (by omega), hf.sstatus, hf.sepc]
    · rw [Function.update_of_ne (by decide), Function.update_self]
    · rw [Function.update_self]
    · rw [Function.update_of_ne (by decide)]
  rcases hcsrs with ⟨csr, reg, hcsrs, hstatus, hsepc, hreg⟩
  have hsp' : (reg .sp).toNat = b := by rw [hreg, hsp]
  rcases exec_loads .sp b trapRestored ⟨reg, csr, m.pc, m.mem⟩ (by
    intro x hx
    have hx' : x.2 + 8 ≤ 288 := (by decide : ∀ y ∈ trapRestored, y.2 + 8 ≤ 288) x hx
    exact addr_sp hsp' hb hx') (by decide) (by decide) with ⟨reg', hloads, hin, hout⟩
  have hsp'' : (reg' .sp).toNat = b := by rw [hout .sp (by decide), hsp']
  refine ⟨⟨Function.update reg' .sp (f.reg .sp), Function.update csr .sstatus
    (leaveStatus (f.csr .sstatus)), f.csr .sepc, m.mem⟩, ?_, ?_, rfl, ?_, rfl⟩
  · rw [trapVectorRestore, exec_append, exec_append, hcsrs, hloads]
    have hld : Machine.addr ⟨reg', csr, m.pc, m.mem⟩ .sp 16 = b + 16 := addr_sp hsp'' hb (by omega)
    have hslot : load m.mem (b + 16) = f.reg .sp := hf.regs .sp
    simp only [exec_cons, exec_nil, Instr.step, Machine.set, Machine.setCsr, hld, hslot, hstatus, hsepc]
  · funext r
    show Function.update reg' .sp (f.reg .sp) r = f.reg r
    by_cases hr : r = .sp
    · rw [hr, Function.update_self]
    · rw [Function.update_of_ne hr, hin _ (mem_trapRestored hr)]
      exact hf.regs r
  · simp

/-! ## Contexts -/

/-- `struct context` at `b` has `ra`, `sp` and `s0`–`s11` of `f`. -/
def SavedContext (mem : Mem) (b : ℕ) (f : Machine) : Prop :=
  ∀ x ∈ contextRegs, load mem (b + x.2) = f.reg x.1

lemma SavedContext.congr {mem mem' : Mem} {b : ℕ} {f : Machine} (h : SavedContext mem b f)
    (hmem : ∀ x, b ≤ x → x < b + 112 → mem' x = mem x) : SavedContext mem' b f := by
  intro x hx
  have hx' : x.2 + 8 ≤ 112 := (by decide : ∀ y ∈ contextRegs, y.2 + 8 ≤ 112) x hx
  rw [← h x hx]
  exact load_congr fun a hlo hhi => hmem a (by omega) (by omega)

/-- **`swtch`.**  The old context keeps the callee-saved registers, `ra` and `sp`; the new one provides
them, and control goes to its `ra`. -/
lemma swtch_spec {m : Machine} {old new : ℕ} (hold : (m.reg .a0).toNat = old)
    (hnew : (m.reg .a1).toNat = new) (ho : old + 112 ≤ 2 ^ 64) (hn : new + 112 ≤ 2 ^ 64)
    (hdis : old + 112 ≤ new ∨ new + 112 ≤ old) :
    ∃ m', exec swtchCode m = m' ∧ SavedContext m'.mem old m ∧
      (∀ x ∈ contextRegs, m'.reg x.1 = load m.mem (new + x.2)) ∧ m'.pc = load m.mem new ∧
      m'.csr = m.csr ∧ ∀ x, x < old ∨ old + 112 ≤ x → m'.mem x = m.mem x := by
  have hoff : ∀ y ∈ contextRegs, y.2 + 8 ≤ 112 := by decide
  have hsaves := exec_saves .a0 old contextRegs m fun x hx => by
    have := hoff x hx
    rw [Machine.addr_eq (by omega), hold]
  have hout : ∀ x, x < old ∨ old + 112 ≤ x →
      storeAll m.mem old (contextRegs.map fun x => (x.2, m.reg x.1)) x = m.mem x := by
    intro x hx
    refine storeAll_outside old x _ _ fun v hv => ?_
    rcases List.mem_map.mp hv with ⟨y, hy, rfl⟩
    have := hoff y hy
    dsimp only
    omega
  rcases exec_loads .a1 new contextRegs { m with
      mem := storeAll m.mem old (contextRegs.map fun x => (x.2, m.reg x.1)) } (by
    intro x hx
    have := hoff x hx
    rw [Machine.addr_eq] <;> dsimp only <;> omega) (by decide) (by decide) with ⟨reg, hloads, hin, _⟩
  have hnewReg : ∀ x ∈ contextRegs, reg x.1 = load m.mem (new + x.2) := by
    intro x hx
    have := hoff x hx
    rw [hin x hx]
    exact load_congr fun a hlo hhi => hout a (by omega)
  refine ⟨_, rfl, ?_⟩
  rw [swtchCode, exec_append, exec_append, hsaves, hloads]
  refine ⟨?_, hnewReg, hnewReg (.ra, 0) (by decide), rfl, hout⟩
  intro x hx
  refine load_storeAll old _ m.mem ?_ (x.2, m.reg x.1) (List.mem_map_of_mem hx)
  have hmap : (contextRegs.map fun x => (x.2, m.reg x.1)).map Prod.fst = contextRegs.map Prod.snd := by
    simp [Function.comp_def]
  rw [hmap]
  exact spaced_of_aligned (by decide) (by decide)

end NetStack
