import NetStack.Lib.ByteMem

/-!
# A supervisor-mode RISC-V hart

The 31 writable integer registers, the four supervisor CSRs a trap uses, and the handful of instructions
that context-switching code is made of.  A piece of straight-line code is a list of instructions;
`exec` runs it.  `pc` is meaningful between pieces: it is set by `call`, `ret`, `sret` and by a trap.

Code that saves or restores registers consists of runs of `sd` and `ld` off one base register, and
`exec_saves` and `exec_loads` say what such a run does as a whole.
-/

namespace Riscv

open ByteMem

/-! ## Machine -/

/-- `x1` … `x31`, by their ABI names. -/
inductive Reg
  | ra | sp | gp | tp | t0 | t1 | t2 | s0 | s1 | a0 | a1 | a2 | a3 | a4 | a5 | a6 | a7
  | s2 | s3 | s4 | s5 | s6 | s7 | s8 | s9 | s10 | s11 | t3 | t4 | t5 | t6
  deriving DecidableEq, Repr

inductive Csr
  | sstatus | sepc | scause | stval
  deriving DecidableEq, Repr

structure Machine where
  reg : Reg → BitVec 64
  csr : Csr → BitVec 64
  pc : BitVec 64
  mem : Mem

/-- The doubleword at an address. -/
def load (m : Mem) (a : ℕ) : BitVec 64 := BitVec.ofNat 64 (loadLE m 8 a)

def store (m : Mem) (a : ℕ) (v : BitVec 64) : Mem := storeLE m 8 a v.toNat

lemma load_store (m : Mem) (a : ℕ) (v : BitVec 64) : load (store m a v) a = v := by
  have hlt : v.toNat < 256 ^ 8 := v.isLt
  rw [load, store, loadLE_storeLE, Nat.mod_eq_of_lt hlt, BitVec.ofNat_toNat, BitVec.setWidth_eq]

lemma store_outside (m : Mem) {a x : ℕ} (v : BitVec 64) (h : x < a ∨ a + 8 ≤ x) :
    store m a v x = m x := storeLE_outside 8 m a v.toNat x h

lemma load_congr {m m' : Mem} {a : ℕ} (h : ∀ x, a ≤ x → x < a + 8 → m' x = m x) :
    load m' a = load m a := by
  rw [load, load, loadLE_congr 8 a fun i hi => h (a + i) (by omega) (by omega)]

lemma load_store_of_disjoint (m : Mem) {a b : ℕ} (v : BitVec 64) (h : b + 8 ≤ a ∨ a + 8 ≤ b) :
    load (store m a v) b = load m b :=
  load_congr fun _ _ _ => store_outside m v (by omega)

def Machine.set (m : Machine) (r : Reg) (v : BitVec 64) : Machine :=
  { m with reg := Function.update m.reg r v }

def Machine.setCsr (m : Machine) (c : Csr) (v : BitVec 64) : Machine :=
  { m with csr := Function.update m.csr c v }

/-- The effective address `off(base)`. -/
def Machine.addr (m : Machine) (base : Reg) (off : ℕ) : ℕ := (m.reg base + BitVec.ofNat 64 off).toNat

lemma Machine.addr_eq {m : Machine} {base : Reg} {off : ℕ}
    (h : (m.reg base).toNat + off < 2 ^ 64) : m.addr base off = (m.reg base).toNat + off := by
  rw [Machine.addr, BitVec.toNat_add, BitVec.toNat_ofNat, Nat.add_mod_mod, Nat.mod_eq_of_lt h]

/-! ## Traps -/

def sieBit : ℕ := 1
def spieBit : ℕ := 5
def sppBit : ℕ := 8

def setBit (v : BitVec 64) (i : ℕ) (b : Bool) : BitVec 64 :=
  if b then v ||| BitVec.twoPow 64 i else v &&& ~~~BitVec.twoPow 64 i

lemma getLsbD_setBit (v : BitVec 64) {i j : ℕ} (b : Bool) (hi : i < 64) (hj : j < 64) :
    (setBit v i b).getLsbD j = if j = i then b else v.getLsbD j := by
  cases b
  · simp [setBit, hj, eq_comm]
    grind
  · simp [setBit, hi, eq_comm]
    grind

/-- `sstatus` on entry to a trap taken in supervisor mode: `SPIE` keeps `SIE`, which is cleared. -/
def enterStatus (v : BitVec 64) : BitVec 64 :=
  setBit (setBit (setBit v spieBit (v.getLsbD sieBit)) sieBit false) sppBit true

/-- `sstatus` after `sret`: `SIE` comes back from `SPIE`. -/
def leaveStatus (v : BitVec 64) : BitVec 64 :=
  setBit (setBit (setBit v sieBit (v.getLsbD spieBit)) spieBit true) sppBit false

lemma leaveStatus_sie (v : BitVec 64) : (leaveStatus v).getLsbD sieBit = v.getLsbD spieBit := by
  rw [leaveStatus, getLsbD_setBit _ _ (by decide) (by decide), if_neg (by decide),
    getLsbD_setBit _ _ (by decide) (by decide), if_neg (by decide),
    getLsbD_setBit _ _ (by decide) (by decide), if_pos rfl]

lemma enterStatus_spie (v : BitVec 64) : (enterStatus v).getLsbD spieBit = v.getLsbD sieBit := by
  rw [enterStatus, getLsbD_setBit _ _ (by decide) (by decide), if_neg (by decide),
    getLsbD_setBit _ _ (by decide) (by decide), if_neg (by decide),
    getLsbD_setBit _ _ (by decide) (by decide), if_pos rfl]

/-- What the hardware does on a trap. -/
def Machine.trap (m : Machine) (stvec cause : BitVec 64) : Machine :=
  { m with
    csr := fun
      | .sstatus => enterStatus (m.csr .sstatus)
      | .sepc => m.pc
      | .scause => cause
      | .stval => 0
    pc := stvec }

/-- Interrupts are enabled. -/
def Machine.sie (m : Machine) : Bool := (m.csr .sstatus).getLsbD sieBit

/-! ## Instructions -/

inductive Instr
  | addi (rd rs : Reg) (imm : ℤ)
  | mv (rd rs : Reg)
  | sd (rs : Reg) (off : ℕ) (base : Reg)
  | ld (rd : Reg) (off : ℕ) (base : Reg)
  | csrr (rd : Reg) (c : Csr)
  | csrw (c : Csr) (rs : Reg)
  /-- `call target`, from the instruction before `back`. -/
  | call (target back : BitVec 64)
  | ret
  | sret

def Instr.step (m : Machine) : Instr → Machine
  | .addi rd rs imm => m.set rd (m.reg rs + BitVec.ofInt 64 imm)
  | .mv rd rs => m.set rd (m.reg rs)
  | .sd rs off base => { m with mem := store m.mem (m.addr base off) (m.reg rs) }
  | .ld rd off base => m.set rd (load m.mem (m.addr base off))
  | .csrr rd c => m.set rd (m.csr c)
  | .csrw c rs => m.setCsr c (m.reg rs)
  | .call target back => { m.set .ra back with pc := target }
  | .ret => { m with pc := m.reg .ra }
  | .sret => { m.setCsr .sstatus (leaveStatus (m.csr .sstatus)) with pc := m.csr .sepc }

def exec (code : List Instr) (m : Machine) : Machine := code.foldl Instr.step m

@[simp] lemma exec_nil (m : Machine) : exec [] m = m := rfl

@[simp] lemma exec_cons (i : Instr) (code : List Instr) (m : Machine) :
    exec (i :: code) m = exec code (i.step m) := rfl

@[simp] lemma exec_append (code code' : List Instr) (m : Machine) :
    exec (code ++ code') m = exec code' (exec code m) := List.foldl_append ..

/-! ## Saving registers -/

/-- `sd r, off(base)` for every entry of the table. -/
def saves (base : Reg) (l : List (Reg × ℕ)) : List Instr := l.map fun x => .sd x.1 x.2 base

/-- `ld r, off(base)` for every entry of the table. -/
def loads (base : Reg) (l : List (Reg × ℕ)) : List Instr := l.map fun x => .ld x.1 x.2 base

/-- Store doublewords at offsets from `b`, in order. -/
def storeAll (m : Mem) (b : ℕ) (vals : List (ℕ × BitVec 64)) : Mem :=
  vals.foldl (fun m x => store m (b + x.1) x.2) m

lemma storeAll_append (m : Mem) (b : ℕ) (l l' : List (ℕ × BitVec 64)) :
    storeAll m b (l ++ l') = storeAll (storeAll m b l) b l' := List.foldl_append ..

/-- Offsets of doublewords that do not overlap. -/
def Spaced (l : List ℕ) : Prop := l.Pairwise fun o o' => o + 8 ≤ o' ∨ o' + 8 ≤ o

instance (l : List ℕ) : Decidable (Spaced l) := inferInstanceAs (Decidable (l.Pairwise _))

/-- Different multiples of 8 are. -/
lemma spaced_of_aligned {l : List ℕ} (hal : ∀ o ∈ l, o % 8 = 0) (hnd : l.Nodup) : Spaced l := by
  refine List.Pairwise.imp_of_mem (fun {o o'} ho ho' hne => ?_) hnd
  have h := hal o ho
  have h' := hal o' ho'
  omega

lemma storeAll_outside (b x : ℕ) : ∀ (vals : List (ℕ × BitVec 64)) (m : Mem),
    (∀ v ∈ vals, x < b + v.1 ∨ b + v.1 + 8 ≤ x) → storeAll m b vals x = m x
  | [], _, _ => rfl
  | v :: vals, m, h => by
      have ih := storeAll_outside b x vals (store m (b + v.1) v.2)
        fun w hw => h w (List.mem_cons_of_mem v hw)
      have hv := h v List.mem_cons_self
      exact ih.trans (store_outside m v.2 hv)

/-- **Reading back a saved table.** -/
lemma load_storeAll (b : ℕ) : ∀ (vals : List (ℕ × BitVec 64)) (m : Mem),
    Spaced (vals.map Prod.fst) → ∀ v ∈ vals, load (storeAll m b vals) (b + v.1) = v.2
  | [], _, _, _, hv => absurd hv List.not_mem_nil
  | w :: vals, m, hs, v, hv => by
      have hs' := List.pairwise_cons.mp hs
      rcases List.mem_cons.mp hv with rfl | hv
      · -- the later stores leave the first one alone
        have hkeep : load (storeAll (store m (b + v.1) v.2) b vals) (b + v.1) =
            load (store m (b + v.1) v.2) (b + v.1) := by
          refine load_congr fun x hlo hhi => storeAll_outside b x vals _ fun u hu => ?_
          have hdis := hs'.1 u.1 (List.mem_map_of_mem hu)
          omega
        exact hkeep.trans (load_store m _ _)
      · exact load_storeAll b vals _ hs'.2 v hv

lemma exec_saves (base : Reg) (b : ℕ) : ∀ (l : List (Reg × ℕ)) (m : Machine),
    (∀ x ∈ l, m.addr base x.2 = b + x.2) →
      exec (saves base l) m = { m with mem := storeAll m.mem b (l.map fun x => (x.2, m.reg x.1)) }
  | [], _, _ => rfl
  | x :: l, m, h => by
      have hx := h x List.mem_cons_self
      have ih := exec_saves base b l ((Instr.sd x.1 x.2 base).step m)
        fun y hy => h y (List.mem_cons_of_mem x hy)
      have hcode : saves base (x :: l) = .sd x.1 x.2 base :: saves base l := rfl
      rw [hcode, exec_cons, ih]
      simp only [Instr.step, hx, storeAll, List.map_cons, List.foldl_cons]

/-- **Loading a table.**  The base register is not among those loaded. -/
lemma exec_loads (base : Reg) (b : ℕ) : ∀ (l : List (Reg × ℕ)) (m : Machine),
    (∀ x ∈ l, m.addr base x.2 = b + x.2) → base ∉ l.map Prod.fst → (l.map Prod.fst).Nodup →
      ∃ reg, exec (loads base l) m = { m with reg := reg } ∧
        (∀ x ∈ l, reg x.1 = load m.mem (b + x.2)) ∧ ∀ r, r ∉ l.map Prod.fst → reg r = m.reg r
  | [], m, _, _, _ => ⟨m.reg, rfl, by simp, by simp⟩
  | x :: l, m, h, hbase, hnodup => by
      have hx := h x List.mem_cons_self
      rw [List.map_cons, List.mem_cons, not_or] at hbase
      rw [List.map_cons, List.nodup_cons] at hnodup
      have haddr : ∀ y ∈ l, ((Instr.ld x.1 x.2 base).step m).addr base y.2 = b + y.2 := by
        intro y hy
        rw [← h y (List.mem_cons_of_mem x hy)]
        simp [Instr.step, Machine.set, Machine.addr, Function.update_of_ne hbase.1]
      rcases exec_loads base b l _ haddr hbase.2 hnodup.2 with ⟨reg, hexec, hin, hout⟩
      refine ⟨reg, hexec, ?_, ?_⟩
      · intro y hy
        rcases List.mem_cons.mp hy with rfl | hy
        · rw [hout y.1 hnodup.1]
          simp [Instr.step, Machine.set, hx]
        · exact hin y hy
      · intro r hr
        rw [List.map_cons, List.mem_cons, not_or] at hr
        rw [hout r hr.2]
        simp [Instr.step, Machine.set, Function.update_of_ne hr.1]

end Riscv
