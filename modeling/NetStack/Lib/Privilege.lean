import NetStack.Lib.MachineMode

/-!
# Which traps a hart takes, and where

The rules of the privileged architecture.  An interrupt is raised by its bit in `mip` and its bit in `mie`; `mideleg`
says to which level it goes, and that level has to be open for it.  An exception below machine mode goes to the
supervisor if `medeleg` says so, and to machine mode otherwise.  The supervisor reaches `mie` and `mip` through the
views `sie` and `sip`, which show the delegated bits only.

`Passes` relates the points of a listing that one run goes through, each with the hart as it is there.  Which CSRs a
listing writes can be read off it (`Keeps`), so a handler that leaves `mstatus` alone is not interrupted
(`Passes.closed`), and `byteStores` is what a run writes with `sb`, in order.
-/

namespace Riscv

open ByteMem

/-! ## Interrupts -/

def MHart.bit (h : MHart) (c : MCsr) (i : ℕ) : Bool := (h.mcsr c).getLsbD i

/-- Interrupt `i` is pending and enabled. -/
structure MHart.Raised (h : MHart) (i : ℕ) : Prop where
  pending : h.bit .mip i = true
  enabled : h.bit .mie i = true

/-- Interrupt `i` may be taken to machine mode. -/
structure MHart.InterruptsMachine (h : MHart) (i : ℕ) : Prop extends h.Raised i where
  own : h.bit .mideleg i = false
  isOpen : h.mode = .machine → h.bit .mstatus mieBit = true

/-- Interrupt `i` may be taken to supervisor mode. -/
structure MHart.InterruptsSupervisor (h : MHart) (i : ℕ) : Prop extends h.Raised i where
  delegated : h.bit .mideleg i = true
  below : h.mode ≠ .machine
  isOpen : h.mode = .supervisor → h.sie = true

/-- An exception goes to the supervisor. -/
structure MHart.Delegates (h : MHart) (code : ℕ) : Prop where
  below : h.mode ≠ .machine
  delegated : h.bit .medeleg code = true

/-- `mcause` and `scause` of interrupt `i`. -/
def interruptCause (i : ℕ) : BitVec 64 := 1#64 <<< 63 ||| BitVec.ofNat 64 i

/-- `csrs sie, v`. -/
def MHart.setSie (h : MHart) (v : BitVec 64) : MHart := h.setMcsr .mie (h.mcsr .mie ||| (v &&& h.mcsr .mideleg))

/-- `csrc sip, v`. -/
def MHart.clearSip (h : MHart) (v : BitVec 64) : MHart := h.setMcsr .mip (h.mcsr .mip &&& ~~~ (v &&& h.mcsr .mideleg))

/-- The hart is closed: nothing interrupts it, whatever is pending. -/
structure MHart.Closed (h : MHart) : Prop where
  mode : h.mode = .machine
  off : h.bit .mstatus mieBit = false

lemma MHart.Closed.not_interrupted {h : MHart} (hc : h.Closed) (i : ℕ) :
    ¬ h.InterruptsMachine i ∧ ¬ h.InterruptsSupervisor i := by
  refine ⟨fun hi => ?_, fun hi => hi.below hc.mode⟩
  have hon := hi.isOpen hc.mode
  rw [hc.off] at hon
  exact Bool.false_ne_true hon

/-- A trap to machine mode closes it. -/
lemma MHart.trap_closed (h : MHart) (cause : BitVec 64) : (h.trap cause).Closed where
  mode := rfl
  off := by
    show (enterMstatus (h.mcsr .mstatus) h.mode).getLsbD mieBit = false
    rw [enterMstatus, getLsbD_setBit _ _ (by decide) (by decide), if_neg (by decide),
      getLsbD_setBit _ _ (by decide) (by decide), if_neg (by decide), getLsbD_setBit _ _ (by decide) (by decide),
      if_pos rfl]

/-! ## What an operation writes -/

/-- The machine-mode CSR that an operation writes. -/
def MOp.csrWritten : MOp → Option MCsr
  | .csrrw _ c _ | .csrw c _ | .csrwZero c | .csrs c _ | .csrc c _ => some c
  | .base _ | .li .. | .slli .. | .srli .. | .sb .. | .csrr .. => none

/-- The byte that an operation stores with `sb`, and where. -/
def MOp.byteStore (h : MHart) : MOp → List (ℕ × UInt8)
  | .sb rs off b => [(h.addr b off, UInt8.ofNat (h.reg rs).toNat)]
  | _ => []

lemma MHart.setMcsr_self (h : MHart) (c : MCsr) (v : BitVec 64) : (h.setMcsr c v).mcsr c = v :=
  Function.update_self ..

lemma MHart.setMcsr_of_ne (h : MHart) {c c' : MCsr} (v : BitVec 64) (hne : c' ≠ c) :
    (h.setMcsr c v).mcsr c' = h.mcsr c' := Function.update_of_ne hne ..

lemma MHart.set_reg (h : MHart) (r : Reg) (v : BitVec 64) : (h.set r v).reg = Function.update h.reg r v := rfl

lemma MOp.step_sb_reg (h : MHart) (rs b : Reg) (off : ℕ) : ((MOp.sb rs off b).step h).reg = h.reg := rfl

lemma MOp.step_mode (h : MHart) (i : MOp) : (i.step h).mode = h.mode := by cases i <;> rfl

lemma MOp.step_mcsr {i : MOp} {c : MCsr} (hc : i.csrWritten ≠ some c) (h : MHart) : (i.step h).mcsr c = h.mcsr c := by
  have hne : ∀ {c' : MCsr} {v : BitVec 64}, some c' ≠ some c → (h.setMcsr c' v).mcsr c = h.mcsr c :=
    fun hc' => h.setMcsr_of_ne _ fun heq => hc' (congrArg some heq.symm)
  cases i with
  | csrrw rd c' rs => exact hne hc
  | csrw c' rs => exact hne hc
  | csrwZero c' => exact hne hc
  | csrs c' rs => exact hne hc
  | csrc c' rs => exact hne hc
  | base i => rfl
  | li rd v => rfl
  | slli rd rs n => rfl
  | srli rd rs n => rfl
  | sb rs off b => rfl
  | csrr rd c' => rfl

/-! ## The points of a run -/

variable {ι : Type} [DecidableEq ι]

/-- What a line writes, if it is not an `mret`. -/
def Line.csrWritten : Line ι → Option MCsr
  | .op i => i.csrWritten
  | _ => none

/-- No line of the listing writes `c`, the `mret` at its ends apart. -/
def Keeps (c : MCsr) (code : List (Line ι)) : Prop := ∀ l ∈ code, l.csrWritten ≠ some c

instance (c : MCsr) (code : List (Line ι)) : Decidable (Keeps c code) :=
  inferInstanceAs (Decidable (∀ l ∈ code, l.csrWritten ≠ some c))

/-- The line that comes next, and the hart there. -/
def next (code : List (Line ι)) : List (Line ι) × MHart → Option (List (Line ι) × MHart)
  | ([], _) | (.mret :: _, _) => none
  | (.op i :: rest, h) => some (rest, i.step h)
  | (.label _ :: rest, h) => some (rest, h)
  | (.bltz rs l :: rest, h) => some (if (h.reg rs).slt 0 then following l code else rest, h)
  | (.bne rs rt l :: rest, h) => some (if h.reg rs ≠ h.reg rt then following l code else rest, h)
  | (.j l :: _, h) => some (following l code, h)

/-- From one point, a run of the listing comes to another. -/
def Passes (code : List (Line ι)) : List (Line ι) × MHart → List (Line ι) × MHart → Prop :=
  Relation.ReflTransGen fun p q => next code p = some q

/-- The byte that the next line stores with `sb`. -/
def lineStore : List (Line ι) × MHart → List (ℕ × UInt8)
  | (.op i :: _, h) => i.byteStore h
  | _ => []

/-- The bytes that the next `n` lines store with `sb`, first one first. -/
def byteStores (code : List (Line ι)) : ℕ → List (Line ι) × MHart → List (ℕ × UInt8)
  | 0, _ => []
  | n + 1, p => lineStore p ++ ((next code p).map (byteStores code n)).getD []

section

variable {code rest : List (Line ι)} {h h' : MHart} {p q : List (Line ι) × MHart}

lemma run_of_next (hnext : next code p = some q) (n : ℕ) : run code (n + 1) p.1 p.2 = run code n q.1 q.2 := by
  obtain ⟨rest, h⟩ := p
  cases rest with
  | nil => exact absurd hnext (by simp [next])
  | cons line rest =>
      cases line with
      | mret => exact absurd hnext (by simp [next])
      | _ =>
          obtain rfl := Option.some.inj hnext
          rfl

/-- A run that ends at a point without a next one ends with `mret`. -/
lemma run_of_not_next (hnext : next code p = none) {n : ℕ} (hrun : run code n p.1 p.2 = some h') : h' = p.2.mret := by
  obtain ⟨rest, h⟩ := p
  cases n with
  | zero => exact absurd hrun (by simp [run])
  | succ n =>
      cases rest with
      | nil => exact absurd hrun (by simp [run])
      | cons line rest =>
          cases line with
          | mret => exact (Option.some.inj hrun).symm
          | _ => exact absurd hnext (by simp [next])

lemma following_subset (l : ι) : ∀ code : List (Line ι), following l code ⊆ code
  | [] => List.Subset.refl _
  | line :: rest => by
      have ih : following l rest ⊆ line :: rest := fun x hx => List.mem_cons_of_mem line (following_subset l rest hx)
      cases line with
      | label l' =>
          rw [following]
          split_ifs
          · exact List.subset_cons_self _ _
          · exact ih
      | _ => exact ih

/-- A point keeps to the listing, and what its lines keep stays. -/
lemma next_keeps {c : MCsr} (hk : Keeps c code) (hnext : next code p = some q) (hsub : p.1 ⊆ code) :
    q.1 ⊆ code ∧ q.2.mcsr c = p.2.mcsr c ∧ q.2.mode = p.2.mode := by
  obtain ⟨rest, h⟩ := p
  have hbranch : ∀ {cond : Prop} [Decidable cond] {l : ι} {rest : List (Line ι)}, rest ⊆ code →
      (if cond then following l code else rest) ⊆ code := by
    intro cond _ l rest hrest
    split_ifs
    · exact following_subset l code
    · exact hrest
  cases rest with
  | nil => exact absurd hnext (by simp [next])
  | cons line rest =>
      have hrest : rest ⊆ code := fun x hx => hsub (List.mem_cons_of_mem line hx)
      cases line with
      | mret => exact absurd hnext (by simp [next])
      | op i =>
          obtain rfl := Option.some.inj hnext
          exact ⟨hrest, i.step_mcsr (hk (.op i) (hsub List.mem_cons_self)) h, i.step_mode h⟩
      | label l =>
          obtain rfl := Option.some.inj hnext
          exact ⟨hrest, rfl, rfl⟩
      | bltz rs l =>
          obtain rfl := Option.some.inj hnext
          exact ⟨hbranch hrest, rfl, rfl⟩
      | bne rs rt l =>
          obtain rfl := Option.some.inj hnext
          exact ⟨hbranch hrest, rfl, rfl⟩
      | j l =>
          obtain rfl := Option.some.inj hnext
          exact ⟨following_subset l code, rfl, rfl⟩

/-- **A handler that leaves `mstatus` alone is not interrupted.** -/
lemma Passes.closed (hk : Keeps .mstatus code) (hp : Passes code p q) (hsub : p.1 ⊆ code) (hc : p.2.Closed) :
    q.2.Closed := by
  have hall : q.1 ⊆ code ∧ q.2.Closed := by
    induction hp with
    | refl => exact ⟨hsub, hc⟩
    | tail _ hnext ih =>
        obtain ⟨hsub', hst, hmode⟩ := next_keeps hk hnext ih.1
        refine ⟨hsub', hmode.trans ih.2.mode, ?_⟩
        rw [MHart.bit, hst]
        exact ih.2.off
  exact hall.2

/-- What no line writes is there after `mret`. -/
lemma run_mcsr {c : MCsr} (hk : Keeps c code) (hc : c ≠ .mstatus) : ∀ (n : ℕ) (p : List (Line ι) × MHart),
    p.1 ⊆ code → run code n p.1 p.2 = some h' → h'.mcsr c = p.2.mcsr c
  | 0, _, _, hrun => absurd hrun (by simp [run])
  | n + 1, p, hsub, hrun => by
      rcases hnext : next code p with _ | q
      · rw [run_of_not_next hnext hrun, MHart.mret_mcsr _ hc]
      · obtain ⟨hsub', hcsr, -⟩ := next_keeps hk hnext hsub
        exact (run_mcsr hk hc n q hsub' ((run_of_next hnext n).symm.trans hrun)).trans hcsr

lemma Returns.mcsr {c : MCsr} (hret : Returns code h h') (hk : Keeps c code) (hc : c ≠ .mstatus) :
    h'.mcsr c = h.mcsr c := by
  obtain ⟨n, hn⟩ := hret
  exact run_mcsr hk hc n (code, h) (List.Subset.refl _) hn

/-! ## The bytes that are stored -/

/-- What straight-line code stores. -/
def opStores : List MOp → MHart → List (ℕ × UInt8)
  | [], _ => []
  | i :: ops, h => i.byteStore h ++ opStores ops (i.step h)

lemma byteStores_ops (ops : List MOp) (h : MHart) (n : ℕ) :
    byteStores code (ops.length + n) (ops.map .op ++ rest, h) =
      opStores ops h ++ byteStores code n (rest, execOps ops h) := by
  induction ops generalizing h with
  | nil => rw [List.length_nil, Nat.zero_add]; rfl
  | cons i ops ih =>
      have hlen : (i :: ops).length + n = (ops.length + n) + 1 := by
        rw [List.length_cons]
        omega
      have hstep : byteStores code ((ops.length + n) + 1) ((i :: ops).map .op ++ rest, h) =
          i.byteStore h ++ byteStores code (ops.length + n) (ops.map .op ++ rest, i.step h) := rfl
      rw [hlen, hstep, ih, opStores, List.append_assoc]
      rfl

/-- Later lines only add to what was stored. -/
lemma byteStores_prefix (m n : ℕ) (p : List (Line ι) × MHart) : byteStores code m p <+: byteStores code (m + n) p := by
  induction m generalizing p with
  | zero => exact List.nil_prefix
  | succ m ih =>
      rw [Nat.add_right_comm, byteStores, byteStores, List.prefix_append_right_inj]
      cases next code p with
      | none => exact List.prefix_rfl
      | some q => exact ih q

/-- A run that comes from `p` to `q` and stores `bytes` on the way. -/
def Stores (code : List (Line ι)) (p : List (Line ι) × MHart) (bytes : List (ℕ × UInt8))
    (q : List (Line ι) × MHart) : Prop := ∃ n, ∀ m, byteStores code (n + m) p = bytes ++ byteStores code m q

lemma stores_ops (ops : List MOp) (h : MHart) :
    Stores code (ops.map .op ++ rest, h) (opStores ops h) (rest, execOps ops h) :=
  ⟨ops.length, fun m => byteStores_ops ops h m⟩

/-- A line without `sb`. -/
lemma stores_next (hnext : next code p = some q) (hno : lineStore p = []) : Stores code p [] q := by
  refine ⟨1, fun m => ?_⟩
  rw [Nat.add_comm, byteStores, hnext, hno]
  rfl

lemma Stores.trans {r : List (Line ι) × MHart} {l l' : List (ℕ × UInt8)} (hp : Stores code p l q)
    (hq : Stores code q l' r) : Stores code p (l ++ l') r := by
  obtain ⟨n, hn⟩ := hp
  obtain ⟨n', hn'⟩ := hq
  refine ⟨n + n', fun m => ?_⟩
  rw [Nat.add_assoc, hn, hn', List.append_assoc]

/-- Before a run comes to a point behind which nothing is stored, it has stored no more than it has there. -/
lemma Stores.prefix_of_silent {l : List (ℕ × UInt8)} (hp : Stores code p l q) (hq : ∀ m, byteStores code m q = [])
    (n : ℕ) : byteStores code n p <+: l := by
  obtain ⟨k, hk⟩ := hp
  have hall : byteStores code n p <+: byteStores code (n + k) p := byteStores_prefix n k p
  rwa [Nat.add_comm, hk, hq, List.append_nil] at hall

lemma byteStores_mret : ∀ n, byteStores code n (.mret :: rest, h) = []
  | 0 => rfl
  | _ + 1 => rfl

/-- A line that jumps to itself. -/
lemma byteStores_j {l : ι} (hloop : following l code = .j l :: rest) :
    ∀ n, byteStores code n (.j l :: rest, h) = []
  | 0 => rfl
  | n + 1 => by
      have hnext : next code (.j l :: rest, h) = some (.j l :: rest, h) := by rw [next, hloop]
      have ih := byteStores_j hloop n
      rw [byteStores, hnext, Option.map_some, ih]
      rfl

/-- From `p`, a run comes to a point with the property `T` and stores no byte on the way. -/
def Leads (code : List (Line ι)) (T : List (Line ι) × MHart → Prop) (p : List (Line ι) × MHart) : Prop :=
  ∃ q, Stores code p [] q ∧ T q

variable {T : List (Line ι) × MHart → Prop}

lemma Leads.of_next (hnext : next code p = some q) (hno : lineStore p = []) (hq : Leads code T q) :
    Leads code T p := by
  obtain ⟨r, hr, ht⟩ := hq
  exact ⟨r, (stores_next hnext hno).trans hr, ht⟩

lemma leads_refl (ht : T p) : Leads code T p := ⟨p, ⟨0, fun m => by rw [Nat.zero_add, List.nil_append]⟩, ht⟩

lemma leads_ops (ops : List MOp) (hno : opStores ops h = []) (hq : Leads code T (rest, execOps ops h)) :
    Leads code T (ops.map .op ++ rest, h) := by
  obtain ⟨r, hr, ht⟩ := hq
  have hops : Stores code (ops.map .op ++ rest, h) (opStores ops h) (rest, execOps ops h) := stores_ops ops h
  rw [hno] at hops
  exact ⟨r, hops.trans hr, ht⟩

lemma leads_label {l : ι} (hq : Leads code T (rest, h)) : Leads code T (.label l :: rest, h) := hq.of_next rfl rfl

lemma leads_bltz {rs : Reg} {l : ι}
    (hq : Leads code T (if (h.reg rs).slt 0 then following l code else rest, h)) :
    Leads code T (.bltz rs l :: rest, h) := hq.of_next rfl rfl

lemma leads_bne {rs rt : Reg} {l : ι}
    (hq : Leads code T (if h.reg rs ≠ h.reg rt then following l code else rest, h)) :
    Leads code T (.bne rs rt l :: rest, h) := hq.of_next rfl rfl

end

end Riscv
