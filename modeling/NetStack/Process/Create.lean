import NetStack.Process.SchedulerInv
import NetStack.Memory.PageTableMap

/-!
# Creating processes on the allocator

`proc_init` and `proc_create` on the table and the heap as they are in memory: numbers, where `Scheduler` has
stackPages and frames.  Other clients of the allocator come and go, processes run and end, and a call of `proc_create`
is not interrupted.

**The account.**  The stack page of a slot in use belongs to it as a live allocation belongs to its client
(`Inv`); nothing gives it back, also not when the process ends.  `step_inv` says that every step keeps the account,
`procCreate_spec` what a call does under it, and `setup_stores` that it is the same call as in `Scheduler`.
-/

namespace NetStack

open ByteMem Transition
open Kernel (nameBytes createStores applyStores applyStores_all)

namespace Table

/-! ## Data -/

/-- `struct context`. -/
structure Context where
  ra : ℕ
  sp : ℕ
  s : Fin 12 → ℕ

/-- `mem_set(&p->context, 0, sizeof(p->context))`. -/
def Context.zero : Context := ⟨0, 0, fun _ => 0⟩

/-- `struct process`. -/
structure Process where
  pid : ℕ
  state : ProcState
  stack : ℕ
  context : Context
  entry : Option ℕ
  name : ℕ → UInt8

def stackSize : ℕ := 4096

lemma stackSize_eq : stackSize = pageSize := rfl

/-! ## The functions -/

/-- `proc_init`. -/
def procInit (procs : Slot → Process) : Slot → Process := fun i =>
  { procs i with
    pid := 0
    state := .unused
    stack := 0
    entry := none
    name := Function.update (procs i).name 0 0
    context := .zero }

/-- The search for a slot. -/
def findUnused (procs : Slot → Process) : Option Slot :=
  (List.finRange nproc).find? fun i => (procs i).state = .unused

/-- `while (name[len] != '\0' && len < 15)`, from the character `name` points to on; the list ends before the `NUL`. -/
def copyName : (name : List UInt8) → (len : ℕ) → (dst : ℕ → UInt8) → (ℕ → UInt8) × ℕ
  | [], len, dst => (dst, len)
  | c :: name, len, dst => if c ≠ 0 ∧ len < 15 then copyName name (len + 1) (Function.update dst len c) else (dst, len)

/-- What `proc_create` makes of the slot `k`. -/
def setup (forkret : ℕ) (k : Slot) (stack : ℕ) (r : Request) (p : Process) : Process :=
  let p := { p with pid := k + 1 }
  let p := { p with state := .runnable }
  let p := { p with stack := stack }
  let p := { p with entry := r.entry }
  let (name, len) := match r.name with
    | some name => copyName name 0 p.name
    | none => (p.name, 0)
  let p := { p with name := Function.update name len 0 }
  let p := { p with context := .zero }
  let p := { p with context := { p.context with sp := (stack + stackSize) % 2 ^ 64 } }
  { p with context := { p.context with ra := forkret } }

/-- `proc_create`; `none` is `NULL`. -/
def procCreate (limit forkret : ℕ) (procs : Slot → Process) (h : Heap) (r : Request) :
    Option ((Slot → Process) × Heap × Option Slot) :=
  match findUnused procs with
  | none => some (procs, h, none)
  | some k => do
      let (h, stack) ← memAlloc limit h stackSize
      if stack = 0 then some (procs, h, none)
      else some (Function.update procs k (setup forkret k stack r (procs k)), h, some k)

/-! ## The system -/

/-- The table, the heap, and the live allocations of the allocator's other clients. -/
structure Sys where
  procs : Slot → Process
  heap : Heap
  live : List (List ℕ)

/-- The slot is in use. -/
def Used (procs : Slot → Process) (k : Slot) : Prop := (procs k).state ≠ .unused

instance (procs : Slot → Process) : DecidablePred (Used procs) := fun _ => inferInstanceAs (Decidable (_ ≠ _))

/-- The stack pages of the slots in use. -/
def stackPages (procs : Slot → Process) : List ℕ :=
  ((List.finRange nproc).filter (Used procs ·)).map fun k => (procs k).stack

inductive Event
  | create (r : Request)
  /-- `scheduler`, `yield` and `forkret` set the state of a process that exists; it ends as a zombie -/
  | setState (k : Slot) (st : ProcState)
  /-- `swtch` saves a context -/
  | swtch (k : Slot) (c : Context)
  /-- a process writes to its stack -/
  | push (k : Slot) (x : ℕ) (v : UInt8)
  /-- `mem_alloc`, `mem_free` and writes of other clients -/
  | client (op : AllocOp)

inductive Step (forkret : ℕ) : Sys → Event → Sys → Prop
  | create {s : Sys} {limit : ℕ} {r : Request} {procs : Slot → Process} {h : Heap} {ret : Option Slot}
      (hret : procCreate limit forkret s.procs s.heap r = some (procs, h, ret)) :
      Step forkret s (.create r) ⟨procs, h, s.live⟩
  | setState {s : Sys} {k : Slot} {st : ProcState} (hused : Used s.procs k) (hst : st ≠ .unused) :
      Step forkret s (.setState k st)
        { s with procs := Function.update s.procs k { s.procs k with state := st } }
  | swtch {s : Sys} {k : Slot} {c : Context} (hused : Used s.procs k) :
      Step forkret s (.swtch k c) { s with procs := Function.update s.procs k { s.procs k with context := c } }
  | push {s : Sys} {k : Slot} {x : ℕ} {v : UInt8} (hused : Used s.procs k) (hx : pageFloor x = (s.procs k).stack) :
      Step forkret s (.push k x v) { s with heap := { s.heap with mem := ByteMem.write s.heap.mem x v } }
  | client {s : Sys} {op : AllocOp} {h : Heap} {live : List (List ℕ)}
      (hstep : AllocStep ⟨s.heap, s.live⟩ op ⟨h, live⟩) : Step forkret s (.client op) ⟨s.procs, h, live⟩

/-- **The account**: the heap's pages are free, of a live allocation, or the stack of a slot in use. -/
structure Inv (s : Sys) : Prop where
  split : ∃ l, s.heap.Split l (s.live.flatten ++ stackPages s.procs)
  pid : ∀ k, Used s.procs k → (s.procs k).pid = k + 1

section

variable {procs : Slot → Process} {k : Slot} {p : Process}

/-! ## Names -/

lemma copyName_spec : ∀ (name : List UInt8) (len : ℕ) (dst : ℕ → UInt8),
    (copyName name len dst).2 = len + ((name.takeWhile (· ≠ 0)).take (15 - len)).length ∧
      (∀ i c, ((name.takeWhile (· ≠ 0)).take (15 - len))[i]? = some c → (copyName name len dst).1 (len + i) = c) ∧
      ∀ n < len, (copyName name len dst).1 n = dst n
  | [], len, dst => by simp [copyName]
  | c :: name, len, dst => by
      obtain ⟨hlen, hchars, hbelow⟩ := copyName_spec name (len + 1) (Function.update dst len c)
      by_cases hc : c ≠ 0 ∧ len < 15
      · have hpred : 15 - len = 15 - (len + 1) + 1 := by omega
        have htake : ((c :: name).takeWhile (· ≠ 0)).take (15 - len)
            = c :: (name.takeWhile (· ≠ 0)).take (15 - (len + 1)) := by
          rw [List.takeWhile_cons_of_pos (by simp [hc.1]), hpred, List.take_succ_cons]
        rw [copyName, if_pos hc, htake]
        refine ⟨by rw [hlen, List.length_cons]; omega, fun i c' hi => ?_, fun n hn => ?_⟩
        · cases i with
          | zero =>
              refine (hbelow len (Nat.lt_succ_self len)).trans ?_
              rw [Function.update_self]
              exact Option.some.inj hi
          | succ i =>
              rw [Nat.add_comm i 1, ← Nat.add_assoc]
              exact hchars i c' hi
        · rw [hbelow n (by omega), Function.update_of_ne (by omega)]
      · have htake : ((c :: name).takeWhile (· ≠ 0)).take (15 - len) = [] := by
          by_cases hzero : c = 0
          · rw [List.takeWhile_cons_of_neg (by simp [hzero]), List.take_nil]
          · rw [Nat.sub_eq_zero_of_le (not_lt.mp fun hlt => hc ⟨hzero, hlt⟩), List.take_zero]
        rw [copyName, if_neg hc, htake]
        exact ⟨rfl, fun i c' hi => absurd hi (by simp), fun _ _ => rfl⟩

/-- What is copied of a name. -/
lemma copied_name (r : Request) (dst : ℕ → UInt8) :
    ∃ name, (match r.name with | some name => copyName name 0 dst | none => (dst, 0))
        = (name, (nameBytes r.name).length) ∧
      ∀ i (h : i < (nameBytes r.name).length), name i = (nameBytes r.name)[i] := by
  cases hname : r.name with
  | none => exact ⟨dst, rfl, fun i hi => absurd hi (Nat.not_lt_zero i)⟩
  | some name =>
      obtain ⟨hlen, hchars, -⟩ := copyName_spec name 0 dst
      refine ⟨(copyName name 0 dst).1, Prod.ext rfl (hlen.trans (Nat.zero_add _)), fun i hi => ?_⟩
      have hchar := hchars i _ (List.getElem?_eq_getElem hi)
      rwa [Nat.zero_add] at hchar

/-! ## The slot -/

/-- What a call of `proc_create` leaves in its slot. -/
structure IsSetup (forkret : ℕ) (k : Slot) (a : ℕ) (r : Request) (p : Process) : Prop where
  pid : p.pid = k + 1
  state : p.state = .runnable
  stack : p.stack = a
  entry : p.entry = r.entry
  name : ∀ i (h : i < (nameBytes r.name).length), p.name i = (nameBytes r.name)[i]
  nul : p.name (nameBytes r.name).length = 0
  ra : p.context.ra = forkret
  sp : p.context.sp = (a + stackSize) % 2 ^ 64
  saved : ∀ i, p.context.s i = 0

lemma setup_isSetup (forkret : ℕ) (k : Slot) (stack : ℕ) (r : Request) (p : Process) :
    IsSetup forkret k stack r (setup forkret k stack r p) := by
  obtain ⟨name, hcopy, hchars⟩ := copied_name r p.name
  have hname : (setup forkret k stack r p).name = Function.update name (nameBytes r.name).length 0 := by
    simp only [setup, hcopy]
  refine ⟨rfl, rfl, rfl, rfl, fun i hi => ?_, ?_, rfl, rfl, fun _ => rfl⟩
  · rw [hname, Function.update_of_ne (Nat.ne_of_lt hi), hchars i hi]
  · rw [hname, Function.update_self]

/-- **The same call in `Scheduler`**: its stores leave the same fields, and a context at the top of the same stack. -/
lemma setup_stores (forkret : ℕ) (k : Slot) (stack : ℕ) (r : Request) (p : Process) (q : Proc) :
    (applyStores (createStores k stack r) q).pid = (setup forkret k stack r p).pid ∧
      (applyStores (createStores k stack r) q).state = (setup forkret k stack r p).state ∧
      (applyStores (createStores k stack r) q).stack = some (setup forkret k stack r p).stack ∧
      (applyStores (createStores k stack r) q).entry = (setup forkret k stack r p).entry ∧
      (∀ i ≤ (nameBytes r.name).length,
        (applyStores (createStores k stack r) q).name i = (setup forkret k stack r p).name i) ∧
      (applyStores (createStores k stack r) q).context.sp = some (.page (setup forkret k stack r p).stack, 0) ∧
      (setup forkret k stack r p).context.sp = ((setup forkret k stack r p).stack + stackSize) % 2 ^ 64 := by
  obtain ⟨hd, hc, hst⟩ := applyStores_all k stack r q
  have hs := setup_isSetup forkret k stack r p
  refine ⟨hd.pid.trans hs.pid.symm, hst.trans hs.state.symm, hd.stack.trans (congrArg some hs.stack.symm),
    hd.entry.trans hs.entry.symm, fun i hi => ?_, ?_, ?_⟩
  · rcases Nat.eq_or_lt_of_le hi with rfl | hlt
    · rw [hd.nul, hs.nul]
    · rw [hd.name i hlt, hs.name i hlt]
  · rw [hc, hs.stack]
  · rw [hs.sp, hs.stack]

/-! ## The stackPages -/

lemma mem_stackPages {a : ℕ} : a ∈ stackPages procs ↔ ∃ k, Used procs k ∧ (procs k).stack = a := by
  simp [stackPages]

/-- Neither the state of a slot in use nor its context is part of the account. -/
lemma stackPages_update (hused : Used procs k) (hst : p.state ≠ .unused) (hstack : p.stack = (procs k).stack) :
    stackPages (Function.update procs k p) = stackPages procs := by
  have hsame : ∀ j, (Used (Function.update procs k p) j ↔ Used procs j) ∧
      (Function.update procs k p j).stack = (procs j).stack := by
    intro j
    by_cases hj : j = k
    · subst hj
      exact ⟨by simp [Used, hst, show (procs j).state ≠ .unused from hused], by simp [hstack]⟩
    · simp [Used, Function.update_of_ne hj]
  rw [stackPages, stackPages]
  simp only [(hsame _).1, (hsame _).2]

/-- A slot that is taken into use adds its stack. -/
lemma stackPages_create (hfree : ¬ Used procs k) (hst : p.state ≠ .unused) :
    (stackPages (Function.update procs k p)).Perm (p.stack :: stackPages procs) := by
  have hperm : (List.finRange nproc).Perm (k :: (List.finRange nproc).erase k) :=
    List.perm_cons_erase (List.mem_finRange k)
  have hnotMem : k ∉ (List.finRange nproc).erase k := (List.nodup_finRange nproc).not_mem_erase
  have hused : Used (Function.update procs k p) k := by
    rw [Used, Function.update_self]
    exact hst
  have hothers : ∀ j ∈ (List.finRange nproc).erase k, Function.update procs k p j = procs j := fun j hj =>
    Function.update_of_ne (fun heq : j = k => hnotMem (heq ▸ hj)) _ _
  have hold : (stackPages procs).Perm
      ((((List.finRange nproc).erase k).filter (Used procs ·)).map fun j => (procs j).stack) := by
    have h := (hperm.filter (Used procs ·)).map fun j => (procs j).stack
    rwa [List.filter_cons_of_neg (by simpa using hfree)] at h
  have hnew := (hperm.filter (Used (Function.update procs k p) ·)).map fun j => (Function.update procs k p j).stack
  rw [List.filter_cons_of_pos (by simpa using hused), List.map_cons, Function.update_self] at hnew
  have hrest : (((List.finRange nproc).erase k).filter (Used (Function.update procs k p) ·)).map
      (fun j => (Function.update procs k p j).stack)
        = (((List.finRange nproc).erase k).filter (Used procs ·)).map fun j => (procs j).stack := by
    have hfilter : ((List.finRange nproc).erase k).filter (Used (Function.update procs k p) ·)
        = ((List.finRange nproc).erase k).filter (Used procs ·) :=
      List.filter_congr fun j hj => decide_eq_decide.mpr (by rw [Used, Used, hothers j hj])
    rw [hfilter]
    exact List.map_congr_left fun j hj => by rw [hothers j (List.mem_of_mem_filter hj)]
  rw [hrest] at hnew
  exact hnew.trans (hold.symm.cons _)

end

/-! ## The account -/

section

variable {forkret : ℕ} {s s' : Sys} {k : Slot}

lemma findUnused_some {procs : Slot → Process} (h : findUnused procs = some k) : ¬ Used procs k := by
  have := List.find?_some h
  simpa [Used] using this

lemma findUnused_none {procs : Slot → Process} : findUnused procs = none ↔ ∀ k, Used procs k := by
  simp [findUnused, Used]

/-- What the account says of the stacks. -/
structure Reserved (s : Sys) : Prop where
  pid : ∀ k, Used s.procs k → (s.procs k).pid = k + 1
  page : ∀ k, Used s.procs k → s.heap.IsPage (s.procs k).stack
  apart : ∀ j k, Used s.procs j → Used s.procs k → (s.procs j).stack = (s.procs k).stack → j = k
  notFree : ∀ l, s.heap.Free l → ∀ k, Used s.procs k → (s.procs k).stack ∉ l
  notLive : ∀ block ∈ s.live, ∀ k, Used s.procs k → (s.procs k).stack ∉ block

lemma Inv.reserved (h : Inv s) : Reserved s := by
  obtain ⟨l, hs⟩ := h.split
  have hmem : ∀ k, Used s.procs k → (s.procs k).stack ∈ stackPages s.procs := fun k hk =>
    mem_stackPages.mpr ⟨k, hk, rfl⟩
  have hnd := (List.nodup_append.mp hs.nodup).2.1
  refine ⟨h.pid, fun k hk => hs.isPage_owned (List.mem_append_right _ (hmem k hk)), fun j k hj hk heq => ?_,
    fun l' hl' k hk hin => ?_, fun block hblock k hk hin => ?_⟩
  · exact List.inj_on_of_nodup_map (List.nodup_append.mp hnd).2.1 (by simpa using hj) (by simpa using hk) heq
  · rw [hl'.chain.unique hs.free.chain] at hin
    exact hs.notMem_free (List.mem_append_right _ (hmem k hk)) hin
  · exact (List.nodup_append.mp hnd).2.2 _ (List.mem_flatten.mpr ⟨block, hblock, hin⟩) _ (hmem k hk) rfl

/-- A slot that gets its own pid leaves the others theirs. -/
lemma pid_update {procs : Slot → Process} {p : Process} (h : ∀ j, Used procs j → (procs j).pid = j + 1)
    (hp : p.pid = k + 1) (j : Slot) (hj : Used (Function.update procs k p) j) :
    (Function.update procs k p j).pid = j + 1 := by
  by_cases hjk : j = k
  · rw [hjk, Function.update_self]
    exact hp
  · rw [Used, Function.update_of_ne hjk] at hj
    rw [Function.update_of_ne hjk]
    exact h j hj

/-- **One call of `proc_create`** under the account. -/
lemma procCreate_spec (forkret : ℕ) (h : Inv s) (r : Request) : ∃ procs heap ret,
    (∀ limit, procCreate limit forkret s.procs s.heap r = some (procs, heap, ret)) ∧
      (ret = none ↔ (∀ k, Used s.procs k) ∨ s.heap.freePageCount = 0) ∧
      (ret = none → procs = s.procs ∧ heap = s.heap) ∧
      (∀ k, ret = some k → ¬ Used s.procs k ∧
        ∃ a, procs = Function.update s.procs k (setup forkret k a r (s.procs k))) ∧
      Inv ⟨procs, heap, s.live⟩ := by
  obtain ⟨l, hs⟩ := h.split
  cases hfind : findUnused s.procs with
  | none =>
      have hall := findUnused_none.mp hfind
      refine ⟨s.procs, s.heap, none, fun limit => by rw [procCreate, hfind], by simp [hall], fun _ => ⟨rfl, rfl⟩,
        fun k hk => absurd hk (by simp), h⟩
  | some k =>
      have hfree := findUnused_some hfind
      by_cases hcount : s.heap.freePageCount = 0
      · -- the allocator is empty
        have hfail : ∀ limit, memAlloc limit s.heap stackSize = some (s.heap, 0) := fun limit =>
          memAlloc_tooMany (by decide) (by rw [stackSize_eq, pageCount_pageSize]; omega)
        exact ⟨s.procs, s.heap, none, fun limit => by simp [procCreate, hfind, hfail], by simp [hcount],
          fun _ => ⟨rfl, rfl⟩, fun k hk => absurd hk (by simp), h⟩
      · obtain ⟨⟨h', a⟩, hret⟩ := memAlloc_pageSize s.heap
        have hne : a ≠ 0 := by
          obtain ⟨h'', a', hret', hne, -⟩ := hs.allocPage (n := 0) (by omega) 0
          obtain ⟨-, rfl⟩ := Prod.mk.inj (Option.some.inj ((hret 0).symm.trans hret'))
          exact hne
        obtain ⟨-, -, -, -, l', -, hsplit⟩ := hs.takePage ⟨0, hret 0⟩ hne
        have hcall : ∀ limit, procCreate limit forkret s.procs s.heap r
            = some (Function.update s.procs k (setup forkret k a r (s.procs k)), h', some k) := fun limit => by
          rw [procCreate, hfind, stackSize_eq]
          dsimp only
          rw [hret limit]
          exact if_neg hne
        refine ⟨_, h', some k, hcall, ?_, fun hk => absurd hk (by simp), ?_, ?_⟩
        · simp only [reduceCtorEq, false_iff, not_or, hcount, not_false_iff, and_true]
          exact fun hall => hfree (hall k)
        · rintro j hj
          obtain rfl := Option.some.inj hj
          exact ⟨hfree, a, rfl⟩
        · have hsetup := setup_isSetup forkret k a r (s.procs k)
          have hperm := stackPages_create (p := setup forkret k a r (s.procs k)) hfree (by rw [hsetup.state]; simp)
          rw [hsetup.stack] at hperm
          exact ⟨⟨l', hsplit.of_perm ((hperm.append_left _).trans List.perm_middle)⟩, pid_update h.pid hsetup.pid⟩

/-- A call that finds a slot and a page. -/
lemma Inv.creates (h : Inv s) {n : ℕ} (hslot : ∃ k, ¬ Used s.procs k) (hpage : n + 1 ≤ s.heap.freePageCount)
    (forkret : ℕ) (r : Request) : ∃ s' k, Step forkret s (.create r) s' ∧ ¬ Used s.procs k ∧ Used s'.procs k ∧
      (∀ j, j ≠ k → s'.procs j = s.procs j) ∧ n ≤ s'.heap.freePageCount := by
  obtain ⟨l, hs⟩ := h.split
  obtain ⟨h', a, halloc, hne, hcount⟩ := hs.allocPage hpage 0
  cases hfind : findUnused s.procs with
  | none =>
      obtain ⟨k, hk⟩ := hslot
      exact absurd (findUnused_none.mp hfind k) hk
  | some k =>
      have hcall : procCreate 0 forkret s.procs s.heap r =
          some (Function.update s.procs k (setup forkret k a r (s.procs k)), h', some k) := by
        rw [procCreate, hfind, stackSize_eq]
        dsimp only
        rw [halloc]
        exact if_neg hne
      refine ⟨_, k, .create hcall, findUnused_some hfind, ?_, fun j hj => Function.update_of_ne hj .., hcount⟩
      show (Function.update s.procs k _ k).state ≠ .unused
      rw [Function.update_self, (setup_isSetup ..).state]
      simp

/-- A process that exists keeps its stack. -/
lemma Inv.update {p : Process} (h : Inv s) (hused : Used s.procs k) (hst : p.state ≠ .unused)
    (hstack : p.stack = (s.procs k).stack) (hpid : p.pid = (s.procs k).pid) :
    Inv { s with procs := Function.update s.procs k p } := by
  obtain ⟨l, hs⟩ := h.split
  refine ⟨⟨l, ?_⟩, pid_update h.pid (hpid.trans (h.pid k hused))⟩
  rwa [stackPages_update hused hst hstack]

/-- **Every step keeps the account.** -/
lemma step_inv {e : Event} (hstep : Step forkret s e s') (h : Inv s) : Inv s' := by
  cases hstep with
  | @create limit r procs heap ret hret =>
      obtain ⟨procs', heap', ret', hret', -, -, -, hinv⟩ := procCreate_spec forkret h r
      obtain ⟨rfl, hrest⟩ := Prod.mk.inj (Option.some.inj ((hret' limit).symm.trans hret))
      obtain ⟨rfl, -⟩ := Prod.mk.inj hrest
      exact hinv
  | setState hused hst => exact h.update hused hst rfl rfl
  | swtch hused => exact h.update hused hused rfl rfl
  | @push k x v hused hx =>
      obtain ⟨l, hs⟩ := h.split
      refine ⟨⟨l, hs.write fun y hy => ?_⟩, h.pid⟩
      have hyx : y = x := by
        by_contra hne
        exact hy (ByteMem.write_of_ne _ _ hne)
      rw [hyx, hx]
      exact List.mem_append_right _ (mem_stackPages.mpr ⟨k, hused, rfl⟩)
  | client hstep =>
      obtain ⟨l, hs⟩ := h.split
      obtain ⟨⟨l', hs'⟩, -⟩ := hstep.split (stackPages s.procs) hs
      exact ⟨⟨l', hs'⟩, h.pid⟩

/-- Right after `proc_init` no slot is in use. -/
lemma procInit_inv {procs : Slot → Process} {heap : Heap} {live : List (List ℕ)} {l : List ℕ}
    (hs : heap.Split l live.flatten) : Inv ⟨procInit procs, heap, live⟩ := by
  have hunused : ∀ k, ¬ Used (procInit procs) k := fun k hk => hk rfl
  have hnil : stackPages (procInit procs) = [] := by
    rw [List.eq_nil_iff_forall_not_mem]
    intro a ha
    obtain ⟨k, hk, -⟩ := mem_stackPages.mp ha
    exact hunused k hk
  exact ⟨⟨l, by rwa [hnil, List.append_nil]⟩, fun k hk => absurd hk (hunused k)⟩

end

/-! ## Whole runs -/

/-- **Processes keep their slots, their pids and their stacks to themselves.**  Whatever happened since `proc_init`,
the stack pages of the slots in use are pages of the heap that are all different, not free and in no live
allocation.  `proc_create` returns; it fails, and changes nothing, exactly if every slot is in use or no page is
free; otherwise it sets up one unused slot as requested, and the same holds with its stack among the others. -/
theorem proc_create_disjoint (forkret : ℕ) (procs₀ : Slot → Process) (h₀ : Heap) (live₀ : List (List ℕ)) (l₀ : List ℕ)
    (hs : h₀.Split l₀ live₀.flatten) (es : List Event) (s : Sys)
    (hrun : Run (Step forkret) ⟨procInit procs₀, h₀, live₀⟩ es s) :
    Reserved s ∧ ∀ r, ∃ procs h ret, (∀ limit, procCreate limit forkret s.procs s.heap r = some (procs, h, ret)) ∧
      (ret = none ↔ (∀ k, (s.procs k).state ≠ .unused) ∨ s.heap.freePageCount = 0) ∧
      (ret = none → procs = s.procs ∧ h = s.heap) ∧
      ∀ k, ret = some k → (s.procs k).state = .unused ∧ (∀ j, j ≠ k → procs j = s.procs j) ∧
        IsSetup forkret k (procs k).stack r (procs k) ∧ (procs k).context.sp = (procs k).stack + stackSize ∧
        Reserved ⟨procs, h, s.live⟩ := by
  have hinv : Inv s := hrun.invariant (P := Inv) (fun _ _ _ hstep h => step_inv hstep h) (procInit_inv hs)
  refine ⟨hinv.reserved, fun r => ?_⟩
  obtain ⟨procs, h, ret, hret, hnull, hkeep, hsome, hinv'⟩ := procCreate_spec forkret hinv r
  refine ⟨procs, h, ret, hret, hnull, hkeep, fun k hk => ?_⟩
  obtain ⟨hfree, a, hprocs⟩ := hsome k hk
  have hsetup : IsSetup forkret k a r (procs k) := by
    rw [hprocs, Function.update_self]
    exact setup_isSetup forkret k a r (s.procs k)
  have hused : Used procs k := by
    rw [Used, hsetup.state]
    simp
  obtain ⟨l, hs'⟩ := hinv'.split
  have hpage : h.IsPage (procs k).stack := hinv'.reserved.page k hused
  obtain ⟨-, hlt⟩ := hpage.bounds hs'.bounded
  refine ⟨not_not.mp hfree, fun j hj => by rw [hprocs, Function.update_of_ne hj], hsetup.stack.symm ▸ hsetup, ?_,
    hinv'.reserved⟩
  rw [hsetup.sp, ← hsetup.stack, stackSize]
  exact Nat.mod_eq_of_lt (by omega)

/-- A process is created on a heap of two pages and exits, and another one is created. -/
theorem proc_create_disjoint_second : ∃ s i j, Run (Step 0x80200000)
    ⟨procInit fun _ => ⟨0, .unused, 0, .zero, none, fun _ => 0⟩, twoPageLayout.boot (fun _ => 0) true, []⟩
      [.create ⟨some 0x80201000, some [105, 110, 105, 116]⟩, .setState i .zombie, .create ⟨some 0x80202000, none⟩] s ∧
    (s.procs i).state = .zombie ∧ (s.procs j).state ≠ .unused ∧ (s.procs i).pid ≠ (s.procs j).pid ∧
    (s.procs i).stack ≠ (s.procs j).stack ∧ Reserved s := by
  have hsplit := twoPageLayout.boot_split (fun _ => 0) true
  have hinv : Inv ⟨procInit fun _ => ⟨0, .unused, 0, .zero, none, fun _ => 0⟩,
      twoPageLayout.boot (fun _ => 0) true, []⟩ :=
    procInit_inv hsplit
  have hcount : 2 ≤ (twoPageLayout.boot (fun _ => 0) true).freePageCount := by
    rw [hsplit.free.count, twoPageLayout_pages]
    exact le_rfl
  obtain ⟨s₁, i, hfirst, -, hi, hothers, hcount₁⟩ := hinv.creates (n := 1) ⟨0, fun hk => hk rfl⟩ hcount 0x80200000
    ⟨some 0x80201000, some [105, 110, 105, 116]⟩
  have hexit : Step 0x80200000 s₁ (.setState i .zombie)
      { s₁ with procs := Function.update s₁.procs i { s₁.procs i with state := .zombie } } := .setState hi (by simp)
  obtain ⟨m, hm⟩ := exists_ne i
  have hm₂ : ¬ Used (Function.update s₁.procs i { s₁.procs i with state := .zombie }) m := by
    rw [Used, Function.update_of_ne hm, hothers m hm]
    exact fun hk => hk rfl
  obtain ⟨s, j, hsecond, hj, hj', hothers', -⟩ := (step_inv hexit (step_inv hfirst hinv)).creates (n := 0) ⟨m, hm₂⟩ hcount₁
    0x80200000 ⟨some 0x80202000, none⟩
  have hrun := Run.cons hfirst (.cons hexit (.cons hsecond (.nil _)))
  have hres := (proc_create_disjoint _ _ _ _ _ hsplit _ _ hrun).1
  have hi₂ : (Function.update s₁.procs i { s₁.procs i with state := .zombie } i).state = .zombie := by
    rw [Function.update_self]
  have hij : i ≠ j := by
    rintro rfl
    exact hj (by rw [Used, hi₂]; simp)
  have hi' : (s.procs i).state = .zombie := by
    rw [hothers' i hij]
    exact hi₂
  have hused : Used s.procs i := by
    rw [Used, hi']
    simp
  refine ⟨s, i, j, hrun, hi', hj', ?_, fun heq => hij (hres.apart i j hused hj' heq), hres⟩
  rw [hres.pid i hused, hres.pid j hj']
  exact fun heq => hij (Fin.ext (by omega))

end Table

end NetStack
