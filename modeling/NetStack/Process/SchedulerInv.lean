import NetStack.Process.Scheduler

/-!
# What holds of the scheduler between two statements

`Wf` describes every state that is reached while no timer interrupt is taken on the boot stack with
`current_process` set, nor in `proc_create` between finding a free slot and the last store to it.

* Each slot is unused, is being filled by the `proc_create` on top of the running stack, or is *ready*: it
  has a stack of its own, and its process has not run yet, is parked in `yield`'s `swtch`, or is on the hart.
* On the boot stack `current_process` is `NULL` except right around `scheduler`'s `swtch`; on a
  process's stack it is that process until `yield` clears it.
* An interrupt that finds `current_process == NULL` leaves a trap frame and a `yield` that is about to return:
  such frames are *idle*.

This module says what the invariant is and how each kind of change keeps it.
-/

namespace NetStack

namespace Kernel

open Transition

/-! ## Frames -/

/-- `proc_create` has found a free slot and has not finished filling it. -/
def isWindow : Frame → Bool
  | .create _ (.alloc _) | .create _ (.fill ..) => true
  | _ => false

/-- The frame on top of the running stack is in that window. -/
def inWindow (s : Kernel) : Prop := ∃ f rest, s.frames = f :: rest ∧ isWindow f = true

/-- A frame of an interrupt that has found, or will find, `current_process == NULL`. -/
def Idle : Frame → Prop
  | .trap _ | .yield .load _ | .yield .test none => True
  | _ => False

/-- A frame of process `k` while `current_process` is `k`. -/
def Below (claimed : List (Slot × Request)) (k : Slot) : Frame → Prop
  | .entry | .forkret _ | .trap _ | .yield .load _ | .yield .ret _ => True
  | .yield .test p | .yield .testState p | .yield .setRunnable p | .yield .clearCurrent p => p = some k
  | .create r (.done id i) => claimed[id]? = some (i, r)
  | .create _ (.scan _) | .create _ (.testState _) => True
  | _ => False

/-- The boot stack, without the frames of interrupts. -/
inductive BootCore (claimed : List (Slot × Request)) (used : Slot → Prop) : List Frame → Prop
  | main (finished : Bool) : BootCore claimed used [.main finished]
  | create {r : Request} {pc : CreatePc} (h : ∀ k, Below claimed k (.create r pc)) :
      BootCore claimed used [.create r pc, .main false]
  | sched {pc : SchedPc} (hsave : ∀ i, pc ≠ .save i) (hrestore : ∀ i, pc ≠ .restore i)
      (hused : ∀ i, pc = .setRunning i ∨ pc = .setCurrent i → used i) :
      BootCore claimed used [.sched pc, .main false]

/-- The boot stack while the hart is on it, by `current_process`. -/
inductive BootFlow (claimed : List (Slot × Request)) (used : Slot → Prop) :
    Option Slot → List Frame → Prop
  | idle {ints core : List Frame} (hints : ∀ f ∈ ints, Idle f) (hcore : BootCore claimed used core) :
      BootFlow claimed used none (ints ++ core)
  | window {r : Request} {pc : CreatePc} (h : isWindow (.create r pc) = true) :
      BootFlow claimed used none [.create r pc, .main false]
  | saving {i : Slot} (hused : used i) : BootFlow claimed used (some i) [.sched (.save i), .main false]
  | restoring {i : Slot} (hused : used i) :
      BootFlow claimed used (some i) [.sched (.restore i), .main false]

/-- Process `k`'s `yield` has saved `c` with `rest` below its frame. -/
def SavedBy (a : ℕ) (c : Context) (last : Option Context) (rest : List Frame) : Prop :=
  (∃ v, c = ⟨.yield, some (.page a, rest.length + 1), v⟩) ∧ last = some c

/-- The stack page `a` of process `k` while the hart is on it, by `current_process`. -/
inductive ProcFlow (claimed : List (Slot × Request)) (k : Slot) (a : ℕ) (c : Context)
    (last : Option Context) : Option Slot → List Frame → Prop
  | active {fs : List Frame} (h : ∀ f ∈ fs, Below claimed k f) : ProcFlow claimed k a c last (some k) fs
  | window {r : Request} {pc : CreatePc} {rest : List Frame} (h : isWindow (.create r pc) = true)
      (hrest : ∀ f ∈ rest, Below claimed k f) :
      ProcFlow claimed k a c last (some k) (.create r pc :: rest)
  | saving {ints rest : List Frame} (hints : ∀ f ∈ ints, Idle f) (hrest : ∀ f ∈ rest, Below claimed k f) :
      ProcFlow claimed k a c last none (ints ++ .yield .save (some k) :: rest)
  | saved {ints rest : List Frame} (hints : ∀ f ∈ ints, Idle f) (hrest : ∀ f ∈ rest, Below claimed k f)
      (hsaved : SavedBy a c last rest) :
      ProcFlow claimed k a c last none (ints ++ .yield .restore (some k) :: rest)

/-! ## Slots -/

/-- `pid`, `stack`, `entry` and `name` are as the call of `proc_create` was to set them. -/
structure Described (p : Proc) (k : Slot) (a : ℕ) (r : Request) : Prop where
  pid : p.pid = k + 1
  stack : p.stack = some a
  entry : p.entry = r.entry
  name : ∀ n (h : n < (nameBytes r.name).length), p.name n = (nameBytes r.name)[n]
  nul : p.name (nameBytes r.name).length = 0

/-! ## The stores of `proc_create` -/

/-- Apply stores in order. -/
def applyStores (fs : List (Proc → Proc)) (p : Proc) : Proc := fs.foldl (fun p f => f p) p

lemma applyStores_append (fs gs : List (Proc → Proc)) (p : Proc) :
    applyStores (fs ++ gs) p = applyStores gs (applyStores fs p) := List.foldl_append ..

/-- A store changes the stack to `a` or not at all, and never makes a slot free. -/
lemma store_keeps {k : Slot} {a : ℕ} {r : Request} {f : Proc → Proc} (hf : f ∈ createStores k a r)
    (p : Proc) : ((f p).stack = p.stack ∨ (f p).stack = some a) ∧
      ((f p).state = p.state ∨ (f p).state = .runnable) := by
  simp only [createStores, List.mem_append, List.mem_cons, List.not_mem_nil, or_false,
    List.mem_map] at hf
  rcases hf with ((rfl | rfl | rfl | rfl) | ⟨x, _, rfl⟩) | (rfl | rfl | rfl | rfl) <;> simp

lemma applyStores_stack {k : Slot} {a : ℕ} {r : Request} : ∀ (fs : List (Proc → Proc)) (p : Proc),
    (∀ f ∈ fs, f ∈ createStores k a r) → (p.stack = none ∨ p.stack = some a) →
      (applyStores fs p).stack = none ∨ (applyStores fs p).stack = some a
  | [], _, _, hp => hp
  | f :: fs, p, hfs, hp => by
      refine applyStores_stack fs (f p) (fun g hg => hfs g (List.mem_cons_of_mem f hg)) ?_
      rcases (store_keeps (hfs f List.mem_cons_self) p).1 with h | h
      · rw [h]
        exact hp
      · exact .inr h

/-- The copy loop. -/
lemma applyStores_name (l : List UInt8) : ∀ (i : ℕ) (p : Proc),
    applyStores ((l.zipIdx i).map fun x p => { p with name := Function.update p.name x.2 x.1 }) p =
      { p with name := fun n => if h : i ≤ n ∧ n < i + l.length then l[n - i] else p.name n } := by
  induction l with
  | nil =>
      intro i p
      have hname : (fun n => if h : i ≤ n ∧ n < i + ([] : List UInt8).length then [][n - i]
          else p.name n) = p.name := by
        funext n
        rw [dif_neg (by simp)]
      rw [hname]
      rfl
  | cons b l ih =>
      intro i p
      have hstep : applyStores (((b :: l).zipIdx i).map fun x p =>
          { p with name := Function.update p.name x.2 x.1 }) p =
        applyStores ((l.zipIdx (i + 1)).map fun x p => { p with name := Function.update p.name x.2 x.1 })
          { p with name := Function.update p.name i b } := rfl
      rw [hstep, ih]
      congr 1
      funext n
      by_cases hn : n = i
      · subst hn
        simp
      · have hsub : i + 1 ≤ n → n - i = n - (i + 1) + 1 := by omega
        by_cases hlo : i + 1 ≤ n
        · have h1 : (i + 1 ≤ n ∧ n < i + 1 + l.length) ↔ (i ≤ n ∧ n < i + (b :: l).length) := by
            simp only [List.length_cons]
            omega
          by_cases hhi : i + 1 ≤ n ∧ n < i + 1 + l.length
          · simp only [dif_pos hhi, dif_pos (h1.mp hhi), hsub hlo, List.getElem_cons_succ]
          · simp only [dif_neg hhi, dif_neg (fun h => hhi (h1.mpr h)), Function.update_of_ne hn]
        · have h1 : ¬ (i + 1 ≤ n ∧ n < i + 1 + l.length) := by omega
          have h2 : ¬ (i ≤ n ∧ n < i + (b :: l).length) := by omega
          simp only [dif_neg h1, dif_neg h2, Function.update_of_ne hn]

/-- **The stores describe the process.** -/
lemma applyStores_all (k : Slot) (a : ℕ) (r : Request) (p : Proc) :
    Described (applyStores (createStores k a r) p) k a r ∧
      (applyStores (createStores k a r) p).context = ⟨.forkret, some (.page a, 0), 0⟩ ∧
      (applyStores (createStores k a r) p).state = .runnable := by
  rw [createStores, applyStores_append, applyStores_append, applyStores_name]
  refine ⟨⟨rfl, rfl, rfl, ?_, ?_⟩, rfl, rfl⟩
  · intro n h
    simp [applyStores, Function.update_of_ne (Nat.ne_of_lt h), h]
  · simp [applyStores]

/-! ## Where processes are -/

/-- Where the process of a ready slot is. -/
inductive Whereabouts (s : Kernel) (k : Slot) (a : ℕ) : Prop
  | fresh (hcur : s.cur ≠ .page a) (hstack : s.stack (.page a) = [])
      (hra : (s.procs k).context.ra = .forkret) (hsp : (s.procs k).context.sp = some (.page a, 0))
      (hlast : s.lastSaved (.page a) = none) (hrun : s.hasRun k = false)
  | parked {rest : List Frame} (hcur : s.cur ≠ .page a)
      (hstack : s.stack (.page a) = .yield .restore (some k) :: rest)
      (hrest : ∀ f ∈ rest, Below s.claimed k f)
      (hsaved : SavedBy a (s.procs k).context (s.lastSaved (.page a)) rest) (hrun : s.hasRun k = true)
  | onHart (hcur : s.cur = .page a) (hrun : s.hasRun k = true)
      (hflow : ProcFlow s.claimed k a (s.procs k).context (s.lastSaved (.page a)) s.current
        (s.stack (.page a)))

/-- The `proc_create` on top of the running stack is filling the slot. -/
def Filling (s : Kernel) (k : Slot) : Prop :=
  ∃ r id n a rest, s.frames = .create r (.fill id n k a) :: rest

inductive SlotOk (s : Kernel) (k : Slot) : Prop
  | unused (hstate : (s.procs k).state = .unused) (hstack : (s.procs k).stack = none)
      (hclaimed : ∀ r, (k, r) ∉ s.claimed)
  | filling (h : Filling s k)
  | ready {a : ℕ} {r : Request} (hstate : (s.procs k).state ≠ .unused) (hclaimed : (k, r) ∈ s.claimed)
      (hdesc : Described (s.procs k) k a r) (hwhere : Whereabouts s k a)

/-- What is known in the middle of `proc_create`. -/
def FillOk (s : Kernel) (r : Request) : CreatePc → Prop
  | .alloc k => (s.procs k).state = .unused
  | .fill id n k a => s.claimed[id]? = some (k, r) ∧ n < (createStores k a r).length ∧
      (∃ p, p.state = .unused ∧ p.stack = none ∧
        s.procs k = applyStores ((createStores k a r).take n) p) ∧
      a ∈ s.pages ∧ (∀ j, j ≠ k → (s.procs j).stack ≠ some a) ∧ s.stack (.page a) = [] ∧
      s.lastSaved (.page a) = none ∧ s.hasRun k = false
  | _ => True

/-! ## The invariant -/

/-- A slot that is not free. -/
def used (s : Kernel) (i : Slot) : Prop := (s.procs i).state ≠ .unused

/-- While a process is on the hart, the scheduler waits in its `swtch`. -/
def SchedulerParked (s : Kernel) : Prop := ∃ i, s.stack .boot = [.sched (.restore i), .main false]

/-- What the scheduler saved when it called `swtch`. -/
def SchedulerSaved (s : Kernel) : Prop :=
  (∃ v, s.schedContext = ⟨.scheduler, some (.boot, 2), v⟩) ∧ s.lastSaved .boot = some s.schedContext

structure Wf (s : Kernel) : Prop where
  slot : ∀ k, SlotOk s k
  fill : ∀ r pc rest, s.frames = .create r pc :: rest → FillOk s r pc
  stackInj : ∀ j k a, (s.procs j).stack = some a → (s.procs k).stack = some a → j = k
  stackPage : ∀ k a, (s.procs k).stack = some a → a ∈ s.pages
  freePage : ∀ a, a ∉ s.pages → s.stack (.page a) = [] ∧ s.lastSaved (.page a) = none
  claimedNodup : (s.claimed.map Prod.fst).Nodup
  returned : ∀ x ∈ s.returned, ∃ r, s.claimed[x.1]? = some (x.2, r)
  onBoot : s.cur = .boot → BootFlow s.claimed s.used s.current (s.stack .boot)
  onPage : ∀ a, s.cur = .page a → (∃ k, (s.procs k).stack = some a) ∧ SchedulerParked s
  schedSaved : ∀ i rest, s.stack .boot = .sched (.restore i) :: rest → SchedulerSaved s

/-! ## Frame lemmas -/

lemma Below.mono {claimed claimed' : List (Slot × Request)} {k : Slot} {f : Frame}
    (h : Below claimed k f) (hp : ∃ l, claimed' = claimed ++ l) : Below claimed' k f := by
  rcases hp with ⟨l, rfl⟩
  cases f with
  | create r pc =>
      cases pc with
      | done id i =>
          have hid : claimed[id]? = some (i, r) := h
          show (claimed ++ l)[id]? = some (i, r)
          rw [List.getElem?_append_left (List.getElem?_eq_some_iff.mp hid).1, hid]
      | _ => exact h
  | yield pc p => cases pc <;> exact h
  | _ => exact h

lemma ProcFlow.mono {claimed claimed' : List (Slot × Request)} {k : Slot} {a : ℕ} {c : Context}
    {last : Option Context} {o : Option Slot} {fs : List Frame} (h : ProcFlow claimed k a c last o fs)
    (hp : ∃ l, claimed' = claimed ++ l) : ProcFlow claimed' k a c last o fs := by
  cases h with
  | active h => exact .active fun f hf => (h f hf).mono hp
  | window hw hrest => exact .window hw fun f hf => (hrest f hf).mono hp
  | saving hints hrest => exact .saving hints fun f hf => (hrest f hf).mono hp
  | saved hints hrest hsaved => exact .saved hints (fun f hf => (hrest f hf).mono hp) hsaved

/-- A slot is as it was when nothing that belongs to its process has changed. -/
lemma SlotOk.congr {s s' : Kernel} {k : Slot} (h : SlotOk s k) (hproc : s'.procs k = s.procs k)
    (hclaimed : ∃ l, s'.claimed = s.claimed ++ l ∧ ∀ r, (k, r) ∉ l) (hrun : s'.hasRun k = s.hasRun k)
    (hstack : ∀ a, (s.procs k).stack = some a → s'.stack (.page a) = s.stack (.page a) ∧
      s'.lastSaved (.page a) = s.lastSaved (.page a) ∧ (s'.cur = .page a ↔ s.cur = .page a) ∧
      (s.cur = .page a → s'.current = s.current))
    (hfill : Filling s k → Filling s' k) : SlotOk s' k := by
  rcases hclaimed with ⟨l, hl, hnot⟩
  cases h with
  | unused hstate hnone hcl =>
      refine .unused (hproc ▸ hstate) (hproc ▸ hnone) ?_
      intro r hr
      rw [hl, List.mem_append] at hr
      exact hr.elim (hcl r) (hnot r)
  | filling h => exact .filling (hfill h)
  | @ready a r hstate hcl hdesc hwhere =>
      rcases hstack a hdesc.stack with ⟨hst, hlast, hcur, hcurrent⟩
      refine .ready (a := a) (r := r) (by rw [hproc]; exact hstate) ?_ (by rw [hproc]; exact hdesc) ?_
      · rw [hl]
        exact List.mem_append_left l hcl
      · cases hwhere with
        | fresh h₁ h₂ h₃ h₄ h₅ h₆ =>
            refine .fresh (fun h => h₁ (hcur.mp h)) (hst.trans h₂) ?_ ?_ (hlast.trans h₅) (hrun.trans h₆)
            · rw [hproc]
              exact h₃
            · rw [hproc]
              exact h₄
        | parked h₁ h₂ h₃ h₄ h₅ =>
            refine .parked (fun h => h₁ (hcur.mp h)) (hst.trans h₂) ?_ ?_ (hrun.trans h₅)
            · intro f hf
              exact (h₃ f hf).mono ⟨l, hl⟩
            · rw [hproc, hlast]
              exact h₄
        | onHart h₁ h₂ h₃ =>
            refine .onHart (hcur.mpr h₁) (hrun.trans h₂) ?_
            rw [hproc, hlast, hst, hcurrent h₁]
            exact h₃.mono ⟨l, hl⟩

/-- The stack of a slot that is being filled is not the one the hart is on. -/
lemma Wf.filling_stack {s : Kernel} (h : Wf s) {k : Slot} {a : ℕ} (hk : Filling s k)
    (ha : (s.procs k).stack = some a) : s.cur ≠ .page a := by
  rcases hk with ⟨r, id, n, b, rest, hfr⟩
  rcases h.fill r _ rest hfr with ⟨_, _, ⟨p, _, hp, hprocs⟩, _, _, hempty, _, _⟩
  have hst := applyStores_stack (k := k) (a := b) (r := r) ((createStores k b r).take n) p
    (fun f hf => List.mem_of_mem_take hf) (.inl hp)
  rw [← hprocs, ha] at hst
  intro hcur
  rcases hst with hst | hst
  · exact absurd hst (by simp)
  · have hab : a = b := Option.some.inj hst
    rw [frames, hcur, hab, hempty] at hfr
    exact absurd hfr (by simp)

/-- **The process on the hart.** -/
lemma Wf.onHart {s : Kernel} (h : Wf s) {a : ℕ} (hcur : s.cur = .page a) :
    ∃ k, (s.procs k).stack = some a ∧ s.used k ∧ s.hasRun k = true ∧
      ProcFlow s.claimed k a (s.procs k).context (s.lastSaved (.page a)) s.current s.frames := by
  rcases (h.onPage a hcur).1 with ⟨k, hk⟩
  refine ⟨k, hk, ?_⟩
  cases h.slot k with
  | unused _ hnone _ => exact absurd (hk.symm.trans hnone) (by simp)
  | filling hf => exact absurd hcur (h.filling_stack hf hk)
  | @ready b r hstate _ hdesc hwhere =>
      have hab : a = b := Option.some.inj (hk.symm.trans hdesc.stack)
      subst hab
      cases hwhere with
      | fresh hne => exact absurd hcur hne
      | parked hne => exact absurd hcur hne
      | onHart _ hrun hflow =>
          refine ⟨hstate, hrun, ?_⟩
          rw [frames, hcur]
          exact hflow

/-! ## Steps that move control only -/

/-- No `proc_create` is filling a slot. -/
def NoFill (s : Kernel) : Prop := ∀ r id n k a rest, s.frames ≠ .create r (.fill id n k a) :: rest

lemma NoFill.not_filling {s : Kernel} (h : NoFill s) (k : Slot) : ¬ Filling s k := by
  rintro ⟨r, id, n, a, rest, hfr⟩
  exact h r id n k a rest hfr

/-- A list of frames whose top is not `proc_create` filling a slot, nor about to. -/
def Plain : List Frame → Prop
  | f :: _ => isWindow f = false
  | [] => True

lemma noFill_of_plain {s : Kernel} (h : Plain s.frames) : NoFill s := by
  intro r id n k a rest hfr
  rw [hfr] at h
  exact absurd h (by simp [Plain, isWindow])

/-- What no statement of `process.c` reads. -/
structure Unread where
  sie : Bool
  sregs : ℕ
  returned : List (ℕ × Slot)
  entryCalls : StackId → ℕ
  entryDone : StackId → Bool

/-- The frames of the running stack change, and with them what no one else reads. -/
def move (s : Kernel) (fs : List Frame) (u : Unread) : Kernel :=
  { s with
    stack := Function.update s.stack s.cur fs
    sie := u.sie
    sregs := u.sregs
    returned := u.returned
    entryCalls := u.entryCalls
    entryDone := u.entryDone }

lemma move_frames (s : Kernel) (fs : List Frame) (u : Unread) : (s.move fs u).frames = fs :=
  Function.update_self ..

section Move

variable {s : Kernel} {fs : List Frame} {u : Unread}

/-- Slots whose process is not on the hart. -/
lemma SlotOk.move {k : Slot} (h : SlotOk s k) (hfill : NoFill s)
    (hk : ∀ a, (s.procs k).stack = some a → s.cur ≠ .page a) :
    SlotOk (s.move fs u) k := by
  refine h.congr rfl ⟨[], (List.append_nil _).symm, by simp⟩ rfl ?_ ?_
  · intro a ha
    refine ⟨Function.update_of_ne (Ne.symm (hk a ha)) _ _, rfl, Iff.rfl, fun _ => rfl⟩
  · intro hf
    exact absurd hf (hfill.not_filling k)

/-- What does not depend on who is on the hart. -/
lemma Wf.move_rest (h : Wf s) (hslot : ∀ k, SlotOk (s.move fs u) k)
    (hnew : ∀ r pc rest, fs = .create r pc :: rest → FillOk (s.move fs u) r pc)
    (hret : ∀ x ∈ u.returned, ∃ r, s.claimed[x.1]? = some (x.2, r))
    (hboot : s.cur = .boot → BootFlow s.claimed s.used s.current fs)
    (hnotSaved : s.cur = .boot → ∀ i rest, fs ≠ .sched (.restore i) :: rest) :
    Wf (s.move fs u) where
  slot := hslot
  fill := by
    intro r pc rest hfr
    rw [move_frames] at hfr
    exact hnew r pc rest hfr
  stackInj := h.stackInj
  stackPage := h.stackPage
  freePage := by
    intro a ha
    refine ⟨?_, (h.freePage a ha).2⟩
    -- the hart is on a page that is in use
    have hne : s.cur ≠ .page a := by
      intro hcur
      rcases (h.onPage a hcur).1 with ⟨k, hk⟩
      exact ha (h.stackPage k a hk)
    exact (Function.update_of_ne (Ne.symm hne) _ _).trans (h.freePage a ha).1
  claimedNodup := h.claimedNodup
  returned := hret
  onBoot := by
    intro hcur
    have hst : (s.move fs u).stack .boot = fs := by
      show Function.update s.stack s.cur fs .boot = fs
      have hc : s.cur = .boot := hcur
      rw [hc, Function.update_self]
    rw [hst]
    exact hboot hcur
  onPage := by
    intro a hcur
    rcases h.onPage a hcur with ⟨hk, i, hpark⟩
    have hc : s.cur = .page a := hcur
    have hst : (s.move fs u).stack .boot = s.stack .boot := by
      show Function.update s.stack s.cur fs .boot = s.stack .boot
      rw [hc]
      exact Function.update_of_ne (by simp) _ _
    exact ⟨hk, i, hst.trans hpark⟩
  schedSaved := by
    intro i rest hst
    by_cases hc : s.cur = .boot
    · have hfs : (s.move fs u).stack .boot = fs := by
        show Function.update s.stack s.cur fs .boot = fs
        rw [hc, Function.update_self]
      exact absurd (hfs.symm.trans hst) (hnotSaved hc i rest)
    · have hst' : (s.move fs u).stack .boot = s.stack .boot :=
        Function.update_of_ne (Ne.symm hc) _ _
      exact h.schedSaved i rest (hst'.symm.trans hst)

lemma fillOk_of_plain {t : Kernel} (hplain : Plain fs) :
    ∀ r pc rest, fs = .create r pc :: rest → FillOk t r pc := by
  rintro r pc rest rfl
  cases pc with
  | alloc => simp [Plain, isWindow] at hplain
  | fill => simp [Plain, isWindow] at hplain
  | _ => trivial

/-- **A local step on the boot stack.** -/
lemma Wf.moveBoot (h : Wf s) (hcur : s.cur = .boot) (hfill : NoFill s)
    (hnew : ∀ r pc rest, fs = .create r pc :: rest → FillOk (s.move fs u) r pc)
    (hret : ∀ x ∈ u.returned, ∃ r, s.claimed[x.1]? = some (x.2, r))
    (hnotSaved : ∀ i rest, fs ≠ .sched (.restore i) :: rest)
    (hflow : BootFlow s.claimed s.used s.current fs) : Wf (s.move fs u) :=
  h.move_rest (fun k => (h.slot k).move hfill (by simp [hcur])) hnew hret (fun _ => hflow)
    fun _ => hnotSaved

/-- **A local step on a process's stack.** -/
lemma Wf.movePage (h : Wf s) {a : ℕ} {k : Slot} (hcur : s.cur = .page a) (hk : (s.procs k).stack = some a)
    (hfill : NoFill s)
    (hnew : ∀ r pc rest, fs = .create r pc :: rest → FillOk (s.move fs u) r pc)
    (hret : ∀ x ∈ u.returned, ∃ r, s.claimed[x.1]? = some (x.2, r))
    (hflow : ProcFlow s.claimed k a (s.procs k).context (s.lastSaved (.page a)) s.current fs) :
    Wf (s.move fs u) := by
  refine h.move_rest ?_ hnew hret (by simp [hcur]) (by simp [hcur])
  intro j
  by_cases hj : j = k
  · subst hj
    cases h.slot j with
    | unused _ hnone _ => exact absurd (hk.symm.trans hnone) (by simp)
    | filling hf => exact absurd hcur (h.filling_stack hf hk)
    | @ready b r hstate hcl hdesc hwhere =>
        have hab : a = b := Option.some.inj (hk.symm.trans hdesc.stack)
        subst hab
        cases hwhere with
        | fresh hne => exact absurd hcur hne
        | parked hne => exact absurd hcur hne
        | onHart _ hrun _ =>
            refine .ready hstate hcl hdesc (.onHart hcur hrun ?_)
            have hst : (s.move fs u).stack (.page a) = fs := by
              show Function.update s.stack s.cur fs (.page a) = fs
              rw [hcur, Function.update_self]
            rw [hst]
            exact hflow
  · refine (h.slot j).move hfill ?_
    intro b hb hcur'
    have hab : b = a := StackId.page.inj (hcur'.symm.trans hcur)
    rw [hab] at hb
    exact hj (h.stackInj j k a hb hk)

end Move

/-! ## The frame on top -/

/-- **On a process's stack**, by the frame on top. -/
lemma ProcFlow.top {claimed : List (Slot × Request)} {k : Slot} {a : ℕ} {c : Context}
    {last : Option Context} {o : Option Slot} {f : Frame} {rest : List Frame}
    (h : ProcFlow claimed k a c last o (f :: rest)) :
    (o = some k ∧ (Below claimed k f ∨ isWindow f = true) ∧ ∀ g ∈ rest, Below claimed k g) ∨
      (o = none ∧ Idle f ∧ ProcFlow claimed k a c last none rest) ∨
      (o = none ∧ f = .yield .save (some k) ∧ ∀ g ∈ rest, Below claimed k g) ∨
      (o = none ∧ f = .yield .restore (some k) ∧ (∀ g ∈ rest, Below claimed k g) ∧
        SavedBy a c last rest) := by
  generalize hfs : f :: rest = fs at h
  cases h with
  | active hall =>
      subst hfs
      exact .inl ⟨rfl, .inl (hall f List.mem_cons_self), fun g hg => hall g (List.mem_cons_of_mem f hg)⟩
  | window hw hrest =>
      rcases List.cons.inj hfs with ⟨rfl, rfl⟩
      exact .inl ⟨rfl, .inr hw, hrest⟩
  | @saving ints rest' hints hrest =>
      cases ints with
      | nil =>
          rcases List.cons.inj hfs with ⟨rfl, rfl⟩
          exact .inr (.inr (.inl ⟨rfl, rfl, hrest⟩))
      | cons g ints =>
          rcases List.cons.inj hfs with ⟨rfl, rfl⟩
          exact .inr (.inl ⟨rfl, hints f List.mem_cons_self,
            .saving (fun g hg => hints g (List.mem_cons_of_mem f hg)) hrest⟩)
  | @saved ints rest' hints hrest hsaved =>
      cases ints with
      | nil =>
          rcases List.cons.inj hfs with ⟨rfl, rfl⟩
          exact .inr (.inr (.inr ⟨rfl, rfl, hrest, hsaved⟩))
      | cons g ints =>
          rcases List.cons.inj hfs with ⟨rfl, rfl⟩
          exact .inr (.inl ⟨rfl, hints f List.mem_cons_self,
            .saved (fun g hg => hints g (List.mem_cons_of_mem f hg)) hrest hsaved⟩)

/-- An idle frame on a stack that is idle. -/
lemma ProcFlow.push {claimed : List (Slot × Request)} {k : Slot} {a : ℕ} {c : Context}
    {last : Option Context} {f : Frame} {rest : List Frame} (h : ProcFlow claimed k a c last none rest)
    (hf : Idle f) : ProcFlow claimed k a c last none (f :: rest) := by
  generalize ho : (none : Option Slot) = o at h
  cases h with
  | active => exact absurd ho (by simp)
  | window => exact absurd ho (by simp)
  | @saving ints rest hints hrest =>
      have hints' : ∀ g ∈ f :: ints, Idle g := List.forall_mem_cons.mpr ⟨hf, hints⟩
      exact @ProcFlow.saving claimed k a c last (f :: ints) rest hints' hrest
  | @saved ints rest hints hrest hsaved =>
      have hints' : ∀ g ∈ f :: ints, Idle g := List.forall_mem_cons.mpr ⟨hf, hints⟩
      exact @ProcFlow.saved claimed k a c last (f :: ints) rest hints' hrest hsaved

/-- **On the boot stack**, by the frame on top. -/
lemma BootFlow.top {claimed : List (Slot × Request)} {used : Slot → Prop} {o : Option Slot} {f : Frame}
    {rest : List Frame} (h : BootFlow claimed used o (f :: rest)) :
    (o = none ∧ Idle f ∧ BootFlow claimed used none rest ∧ Plain rest) ∨
      (o = none ∧ BootCore claimed used (f :: rest)) ∨
      (o = none ∧ isWindow f = true ∧ rest = [.main false]) ∨
      (∃ i, o = some i ∧ used i ∧ rest = [.main false] ∧ (f = .sched (.save i) ∨ f = .sched (.restore i))) := by
  generalize hfs : f :: rest = fs at h
  cases h with
  | @idle ints core hints hcore =>
      cases ints with
      | nil =>
          have hcore' : core = f :: rest := hfs.symm
          subst hcore'
          exact .inr (.inl ⟨rfl, hcore⟩)
      | cons g ints =>
          rcases List.cons.inj hfs with ⟨rfl, rfl⟩
          have hints' : ∀ g ∈ ints, Idle g := fun g hg => hints g (List.mem_cons_of_mem f hg)
          refine .inl ⟨rfl, hints f List.mem_cons_self, .idle hints' hcore, ?_⟩
          cases ints with
          | nil =>
              cases hcore with
              | main => rfl
              | sched => rfl
              | @create r pc hb =>
                  have hk := hb 0
                  cases pc <;> first | rfl | exact absurd hk (by simp [Below])
          | cons g ints =>
              have hg := hints' g List.mem_cons_self
              cases g with
              | create => exact absurd hg (by simp [Idle])
              | _ => rfl
  | window hw =>
      rcases List.cons.inj hfs with ⟨rfl, rfl⟩
      exact .inr (.inr (.inl ⟨rfl, hw, rfl⟩))
  | @saving i hused =>
      rcases List.cons.inj hfs with ⟨rfl, rfl⟩
      exact .inr (.inr (.inr ⟨i, rfl, hused, rfl, .inl rfl⟩))
  | @restoring i hused =>
      rcases List.cons.inj hfs with ⟨rfl, rfl⟩
      exact .inr (.inr (.inr ⟨i, rfl, hused, rfl, .inr rfl⟩))

lemma BootFlow.push {claimed : List (Slot × Request)} {used : Slot → Prop} {f : Frame}
    {rest : List Frame} (h : BootFlow claimed used none rest) (hplain : Plain rest) (hf : Idle f) :
    BootFlow claimed used none (f :: rest) := by
  generalize ho : (none : Option Slot) = o at h
  cases h with
  | @idle ints core hints hcore =>
      have hints' : ∀ g ∈ f :: ints, Idle g := List.forall_mem_cons.mpr ⟨hf, hints⟩
      exact @BootFlow.idle claimed used (f :: ints) core hints' hcore
  | window hw => exact absurd (hw.symm.trans hplain) (by simp)
  | saving => exact absurd ho (by simp)
  | restoring => exact absurd ho (by simp)

lemma BootFlow.core {claimed : List (Slot × Request)} {used : Slot → Prop} {core : List Frame}
    (h : BootCore claimed used core) : BootFlow claimed used none core :=
  @BootFlow.idle claimed used [] core (by simp) h

/-! ## Steps that change the process table -/

lemma BootCore.mono {claimed claimed' : List (Slot × Request)} {used used' : Slot → Prop}
    {core : List Frame} (h : BootCore claimed used core) (hp : ∃ l, claimed' = claimed ++ l)
    (hu : ∀ i, used i → used' i) : BootCore claimed' used' core := by
  cases h with
  | main finished => exact .main finished
  | create h => exact .create fun k => (h k).mono hp
  | sched hsave hrestore hused => exact .sched hsave hrestore fun i hi => hu i (hused i hi)

lemma BootFlow.mono {claimed claimed' : List (Slot × Request)} {used used' : Slot → Prop}
    {o : Option Slot} {fs : List Frame} (h : BootFlow claimed used o fs)
    (hp : ∃ l, claimed' = claimed ++ l) (hu : ∀ i, used i → used' i) :
    BootFlow claimed' used' o fs := by
  cases h with
  | idle hints hcore => exact .idle hints (hcore.mono hp hu)
  | window hw => exact .window hw
  | saving h => exact .saving (hu _ h)
  | restoring h => exact .restoring (hu _ h)

/-- What the table says about stacks and free slots is kept by a change of one slot that keeps its stack
and does not free it. -/
lemma Wf.setProc_rest {s : Kernel} (h : Wf s) {i : Slot} {p : Proc} (hfill : NoFill s)
    (hstack : p.stack = (s.procs i).stack) (hused : s.used i) (hp : p.state ≠ .unused)
    (hslot : SlotOk (s.setProc i p) i) : Wf (s.setProc i p) := by
  have hprocs : ∀ j, j ≠ i → (s.setProc i p).procs j = s.procs j :=
    fun j hj => Function.update_of_ne hj _ _
  have hself : (s.setProc i p).procs i = p := Function.update_self ..
  have hst : ∀ j, ((s.setProc i p).procs j).stack = (s.procs j).stack := by
    intro j
    by_cases hj : j = i
    · rw [hj, hself, hstack]
    · rw [hprocs j hj]
  have hu : ∀ j, s.used j → (s.setProc i p).used j := by
    intro j hj
    by_cases hji : j = i
    · rw [used, hji, hself]
      exact hp
    · rw [used, hprocs j hji]
      exact hj
  refine ⟨?_, ?_, ?_, ?_, h.freePage, h.claimedNodup, h.returned, ?_, ?_, h.schedSaved⟩
  · intro j
    by_cases hj : j = i
    · rw [hj]
      exact hslot
    · refine (h.slot j).congr (hprocs j hj) ⟨[], (List.append_nil _).symm, by simp⟩ rfl
        (fun a _ => ⟨rfl, rfl, Iff.rfl, fun _ => rfl⟩) fun hf => hf
  · intro r pc rest hfr
    cases pc with
    | alloc k =>
        have hk : (s.procs k).state = .unused := h.fill r _ rest hfr
        have hki : k ≠ i := by
          rintro rfl
          exact hused hk
        show ((s.setProc i p).procs k).state = .unused
        rw [hprocs k hki]
        exact hk
    | fill id n k a => exact absurd hfr (hfill r id n k a rest)
    | _ => trivial
  · intro j k a hj hk
    rw [hst] at hj hk
    exact h.stackInj j k a hj hk
  · intro k a hk
    rw [hst] at hk
    exact h.stackPage k a hk
  · intro hcur
    exact (h.onBoot hcur).mono ⟨[], (List.append_nil _).symm⟩ hu
  · intro a hcur
    rcases h.onPage a hcur with ⟨⟨k, hk⟩, hpark⟩
    exact ⟨⟨k, (hst k).trans hk⟩, hpark⟩

/-- **A new `state`** for a slot in use. -/
lemma Wf.setState {s : Kernel} (h : Wf s) {i : Slot} {st : ProcState} (hfill : NoFill s)
    (hused : s.used i) (hst : st ≠ .unused) : Wf (s.setState i st) := by
  have hself : (s.setState i st).procs i = { s.procs i with state := st } := Function.update_self ..
  refine h.setProc_rest hfill rfl hused hst ?_
  cases h.slot i with
  | unused hun => exact absurd hun hused
  | filling hf => exact absurd hf (hfill.not_filling i)
  | @ready a r _ hcl hdesc hwhere =>
      refine .ready (a := a) (r := r) ?_ hcl ?_ ?_
      · show ((s.setState i st).procs i).state ≠ .unused
        rw [hself]
        exact hst
      · show Described ((s.setState i st).procs i) i a r
        rw [hself]
        exact ⟨hdesc.pid, hdesc.stack, hdesc.entry, hdesc.name, hdesc.nul⟩
      · have hctx : ((s.setState i st).procs i).context = (s.procs i).context := by rw [hself]
        cases hwhere with
        | fresh h₁ h₂ h₃ h₄ h₅ h₆ =>
            refine .fresh h₁ h₂ ?_ ?_ h₅ h₆
            · show ((s.setState i st).procs i).context.ra = _
              rw [hctx]
              exact h₃
            · show ((s.setState i st).procs i).context.sp = _
              rw [hctx]
              exact h₄
        | parked h₁ h₂ h₃ h₄ h₅ =>
            refine .parked h₁ h₂ h₃ ?_ h₅
            show SavedBy a ((s.setState i st).procs i).context _ _
            rw [hctx]
            exact h₄
        | onHart h₁ h₂ h₃ =>
            refine .onHart h₁ h₂ ?_
            show ProcFlow _ i a ((s.setState i st).procs i).context _ _ _
            rw [hctx]
            exact h₃

/-- **A step of the process on the hart** that changes its own record, `current_process` and its frames. -/
lemma Wf.pageStep {s : Kernel} (h : Wf s) {a : ℕ} {k : Slot} {p : Proc} {o : Option Slot}
    {last : Option Context} {fs : List Frame} (hcur : s.cur = .page a) (hk : (s.procs k).stack = some a)
    (hfill : NoFill s) (hp : p.state ≠ .unused) (hstack : p.stack = (s.procs k).stack)
    (hdesc : ∀ r, Described (s.procs k) k a r → Described p k a r) (hplain : Plain fs)
    (hflow : ProcFlow s.claimed k a p.context last o fs) :
    Wf { s with
      procs := Function.update s.procs k p
      current := o
      lastSaved := Function.update s.lastSaved (.page a) last
      stack := Function.update s.stack (.page a) fs } := by
  have hself : Function.update s.procs k p k = p := Function.update_self ..
  have hprocs : ∀ j, j ≠ k → Function.update s.procs k p j = s.procs j :=
    fun j hj => Function.update_of_ne hj _ _
  have hst : ∀ j, (Function.update s.procs k p j).stack = (s.procs j).stack := by
    intro j
    by_cases hj : j = k
    · rw [hj, hself, hstack]
    · rw [hprocs j hj]
  have hpages : ∀ b, b ≠ a → Function.update s.stack (.page a) fs (.page b) = s.stack (.page b) ∧
      Function.update s.lastSaved (.page a) last (.page b) = s.lastSaved (.page b) := by
    intro b hb
    exact ⟨Function.update_of_ne (by simpa using hb) _ _, Function.update_of_ne (by simpa using hb) _ _⟩
  have hboot : Function.update s.stack (.page a) fs .boot = s.stack .boot :=
    Function.update_of_ne (by simp) _ _
  refine ⟨?_, ?_, ?_, ?_, ?_, h.claimedNodup, h.returned, ?_, ?_, ?_⟩
  · intro j
    by_cases hj : j = k
    · subst hj
      cases h.slot j with
      | unused _ hnone _ => exact absurd (hk.symm.trans hnone) (by simp)
      | filling hf => exact absurd hf (hfill.not_filling j)
      | @ready b r hstate hcl hd hwhere =>
          have hab : a = b := Option.some.inj (hk.symm.trans hd.stack)
          subst hab
          cases hwhere with
          | fresh hne => exact absurd hcur hne
          | parked hne => exact absurd hcur hne
          | onHart _ hrun _ =>
              refine .ready (a := a) (r := r) ?_ hcl ?_ (.onHart hcur hrun ?_)
              all_goals dsimp only
              all_goals rw [hself]
              · exact hp
              · exact hdesc r hd
              · rw [Function.update_self, Function.update_self]
                exact hflow
    · refine (h.slot j).congr (hprocs j hj) ⟨[], (List.append_nil _).symm, by simp⟩ rfl ?_ ?_
      · intro b hb
        have hba : b ≠ a := by
          rintro rfl
          exact hj (h.stackInj j k b hb hk)
        refine ⟨(hpages b hba).1, (hpages b hba).2, Iff.rfl, ?_⟩
        intro hc
        exact absurd (StackId.page.inj (hc.symm.trans hcur)) hba
      · intro hf
        exact absurd hf (hfill.not_filling j)
  · intro r pc rest hfr
    have hfr' : Function.update s.stack (.page a) fs s.cur = .create r pc :: rest := hfr
    rw [hcur, Function.update_self] at hfr'
    exact fillOk_of_plain hplain r pc rest hfr'
  · intro i j b hi hj
    dsimp only at hi hj
    rw [hst] at hi hj
    exact h.stackInj i j b hi hj
  · intro j b hj
    dsimp only at hj
    rw [hst] at hj
    exact h.stackPage j b hj
  · intro b hb
    have hba : b ≠ a := by
      rintro rfl
      exact hb (h.stackPage k b hk)
    exact ⟨(hpages b hba).1.trans (h.freePage b hb).1, (hpages b hba).2.trans (h.freePage b hb).2⟩
  · intro hc
    exact absurd (hc.symm.trans hcur) (by simp)
  · intro b hc
    rcases h.onPage b hc with ⟨⟨j, hj⟩, i, hpark⟩
    exact ⟨⟨j, (hst j).trans hj⟩, i, hboot.trans hpark⟩
  · intro i rest hsched
    have hsaved := h.schedSaved i rest (hboot.symm.trans hsched)
    have hlast : Function.update s.lastSaved (.page a) last .boot = s.lastSaved .boot :=
      Function.update_of_ne (by simp) _ _
    exact ⟨hsaved.1, hlast.trans hsaved.2⟩

/-- **The second half of `swtch` in `yield`**: the process is parked, and the scheduler goes on. -/
lemma Wf.leaveHart {s : Kernel} (h : Wf s) {a : ℕ} {k i : Slot} {v : ℕ} {rest : List Frame}
    (hcur : s.cur = .page a) (hk : (s.procs k).stack = some a) (hnone : s.current = none)
    (hfr : s.frames = .yield .restore (some k) :: rest) (hrest : ∀ f ∈ rest, Below s.claimed k f)
    (hsaved : SavedBy a (s.procs k).context (s.lastSaved (.page a)) rest) :
    Wf { s with
      cur := .boot
      stack := Function.update s.stack .boot [.sched (.clearCurrent i), .main false]
      sregs := v } := by
  have hfill : NoFill s := by
    intro r id n j b rest' h'
    exact absurd (hfr.symm.trans h') (by simp)
  have hpage : ∀ b, Function.update s.stack .boot [.sched (.clearCurrent i), .main false] (.page b) =
      s.stack (.page b) := fun b => Function.update_of_ne (by simp) _ _
  refine ⟨?_, ?_, h.stackInj, h.stackPage, ?_, h.claimedNodup, h.returned, ?_, ?_, ?_⟩
  · intro j
    by_cases hj : j = k
    · subst hj
      cases h.slot j with
      | unused _ hnone _ => exact absurd (hk.symm.trans hnone) (by simp)
      | filling hf => exact absurd hf (hfill.not_filling j)
      | @ready b r hstate hcl hd hwhere =>
          have hab : a = b := Option.some.inj (hk.symm.trans hd.stack)
          subst hab
          cases hwhere with
          | fresh hne => exact absurd hcur hne
          | parked hne => exact absurd hcur hne
          | onHart _ hrun _ =>
              refine .ready hstate hcl hd (.parked (by simp) ((hpage a).trans ?_) hrest hsaved hrun)
              rw [frames, hcur] at hfr
              exact hfr
    · refine (h.slot j).congr rfl ⟨[], (List.append_nil _).symm, by simp⟩ rfl ?_ ?_
      · intro b hb
        have hba : s.cur ≠ .page b := by
          intro hc
          have hab : b = a := StackId.page.inj (hc.symm.trans hcur)
          rw [hab] at hb
          exact hj (h.stackInj j k a hb hk)
        exact ⟨hpage b, rfl, by simp [hba], fun hc => absurd hc hba⟩
      · intro hf
        exact absurd hf (hfill.not_filling j)
  · intro r pc rest' hfr'
    have hfr'' : Function.update s.stack .boot [.sched (.clearCurrent i), .main false] .boot =
        .create r pc :: rest' := hfr'
    rw [Function.update_self] at hfr''
    exact absurd hfr'' (by simp)
  · intro b hb
    exact ⟨(hpage b).trans (h.freePage b hb).1, (h.freePage b hb).2⟩
  · intro _
    dsimp only
    rw [Function.update_self, hnone]
    exact .core (.sched (by simp) (by simp) (by simp))
  · intro b hc
    exact absurd hc (by simp)
  · intro j rest' hst
    dsimp only at hst
    rw [Function.update_self] at hst
    exact absurd hst (by simp)

/-- **A step of the scheduler** that changes `current_process`, what it saved, and its frames. -/
lemma Wf.bootStep {s : Kernel} (h : Wf s) {o : Option Slot} {c : Context} {last : Option Context}
    {fs : List Frame} (hcur : s.cur = .boot) (hfill : NoFill s) (hplain : Plain fs)
    (hflow : BootFlow s.claimed s.used o fs)
    (hsaved : ∀ i rest, fs = .sched (.restore i) :: rest →
      (∃ v, c = ⟨.scheduler, some (.boot, 2), v⟩) ∧ last = some c) :
    Wf { s with
      current := o
      schedContext := c
      lastSaved := Function.update s.lastSaved .boot last
      stack := Function.update s.stack .boot fs } := by
  have hpages : ∀ b, Function.update s.stack .boot fs (.page b) = s.stack (.page b) ∧
      Function.update s.lastSaved .boot last (.page b) = s.lastSaved (.page b) := by
    intro b
    exact ⟨Function.update_of_ne (by simp) _ _, Function.update_of_ne (by simp) _ _⟩
  refine ⟨?_, ?_, h.stackInj, h.stackPage, ?_, h.claimedNodup, h.returned, ?_, ?_, ?_⟩
  · intro j
    refine (h.slot j).congr rfl ⟨[], (List.append_nil _).symm, by simp⟩ rfl ?_ ?_
    · intro b _
      refine ⟨(hpages b).1, (hpages b).2, Iff.rfl, ?_⟩
      intro hc
      exact absurd (hc.symm.trans hcur) (by simp)
    · intro hf
      exact absurd hf (hfill.not_filling j)
  · intro r pc rest hfr
    have hfr' : Function.update s.stack .boot fs s.cur = .create r pc :: rest := hfr
    rw [hcur, Function.update_self] at hfr'
    exact fillOk_of_plain hplain r pc rest hfr'
  · intro b hb
    exact ⟨(hpages b).1.trans (h.freePage b hb).1, (hpages b).2.trans (h.freePage b hb).2⟩
  · intro _
    dsimp only
    rw [Function.update_self]
    exact hflow
  · intro b hc
    exact absurd (hc.symm.trans hcur) (by simp)
  · intro i rest hst
    dsimp only at hst
    rw [Function.update_self] at hst
    rcases hsaved i rest hst with ⟨hc, hlast⟩
    refine ⟨hc, ?_⟩
    show Function.update s.lastSaved .boot last .boot = some c
    rw [Function.update_self, hlast]

/-- **The second half of `swtch` in `scheduler`**: a process gets the hart. -/
lemma Wf.enterHart {s : Kernel} (h : Wf s) {a : ℕ} {i : Slot} {v : ℕ} {fs : List Frame}
    {log : List Slot} (hcur : s.cur = .boot) (hfr : s.frames = [.sched (.restore i), .main false])
    (hi : (s.procs i).stack = some a) (hcurrent : s.current = some i)
    (hfs : ∀ f ∈ fs, Below s.claimed i f) (hplain : Plain fs) :
    Wf { s with
      dispatches := log
      hasRun := Function.update s.hasRun i true
      cur := .page a
      stack := Function.update s.stack (.page a) fs
      sregs := v } := by
  have hfill : NoFill s := by
    intro r id n j b rest' h'
    exact absurd (hfr.symm.trans h') (by simp)
  have hpages : ∀ b, b ≠ a → Function.update s.stack (.page a) fs (.page b) = s.stack (.page b) :=
    fun b hb => Function.update_of_ne (by simpa using hb) _ _
  have hboot : Function.update s.stack (.page a) fs .boot = s.stack .boot :=
    Function.update_of_ne (by simp) _ _
  refine ⟨?_, ?_, h.stackInj, h.stackPage, ?_, h.claimedNodup, h.returned, ?_, ?_, ?_⟩
  · intro j
    by_cases hj : j = i
    · subst hj
      cases h.slot j with
      | unused _ hnone _ => exact absurd (hi.symm.trans hnone) (by simp)
      | filling hf => exact absurd hf (hfill.not_filling j)
      | @ready b r hstate hcl hd hwhere =>
          have hab : a = b := Option.some.inj (hi.symm.trans hd.stack)
          subst hab
          refine .ready hstate hcl hd (.onHart rfl (Function.update_self ..) ?_)
          dsimp only
          rw [Function.update_self, hcurrent]
          exact .active hfs
    · refine (h.slot j).congr rfl ⟨[], (List.append_nil _).symm, by simp⟩
        (Function.update_of_ne hj _ _) ?_ ?_
      · intro b hb
        have hba : b ≠ a := by
          rintro rfl
          exact hj (h.stackInj j i b hb hi)
        refine ⟨hpages b hba, rfl, ?_, ?_⟩
        · simp [hcur, Ne.symm hba]
        · intro hc
          exact absurd (hc.symm.trans hcur) (by simp)
      · intro hf
        exact absurd hf (hfill.not_filling j)
  · intro r pc rest hfr'
    have hfr'' : Function.update s.stack (.page a) fs (.page a) = .create r pc :: rest := hfr'
    rw [Function.update_self] at hfr''
    exact fillOk_of_plain hplain r pc rest hfr''
  · intro b hb
    have hba : b ≠ a := by
      rintro rfl
      exact hb (h.stackPage i b hi)
    exact ⟨(hpages b hba).trans (h.freePage b hb).1, (h.freePage b hb).2⟩
  · intro hc
    exact absurd hc (by simp)
  · intro b hc
    have hab : b = a := (StackId.page.inj hc).symm
    rw [frames, hcur] at hfr
    exact ⟨⟨i, hab ▸ hi⟩, i, hboot.trans hfr⟩
  · intro j rest hst
    exact h.schedSaved j rest (hboot.symm.trans hst)

/-! ## Steps of `proc_create` -/

/-- The flow on the running stack, whichever it is. -/
def FlowOk (s : Kernel) (claimed : List (Slot × Request)) (fs : List Frame) : Prop :=
  (s.cur = .boot → BootFlow claimed s.used s.current fs) ∧
    ∀ a k, s.cur = .page a → (s.procs k).stack = some a →
      ProcFlow claimed k a (s.procs k).context (s.lastSaved (.page a)) s.current fs

lemma Wf.flowOk {s : Kernel} (h : Wf s) : FlowOk s s.claimed s.frames := by
  refine ⟨?_, ?_⟩
  · intro hcur
    rw [frames, hcur]
    exact h.onBoot hcur
  · intro a k hcur hk
    rcases h.onHart hcur with ⟨j, hj, _, _, hflow⟩
    have hjk : j = k := h.stackInj j k a hj hk
    subst hjk
    exact hflow

/-- **A local step**, on whichever stack. -/
lemma Wf.move {s : Kernel} (h : Wf s) {fs : List Frame} {u : Unread} (hfill : NoFill s)
    (hnew : ∀ r pc rest, fs = .create r pc :: rest → FillOk (s.move fs u) r pc)
    (hret : ∀ x ∈ u.returned, ∃ r, s.claimed[x.1]? = some (x.2, r))
    (hnotSaved : ∀ i rest, fs ≠ .sched (.restore i) :: rest) (hflow : FlowOk s s.claimed fs) :
    Wf (s.move fs u) := by
  cases hcur : s.cur with
  | boot => exact h.moveBoot hcur hfill hnew hret hnotSaved (hflow.1 hcur)
  | page a =>
      rcases (h.onPage a hcur).1 with ⟨k, hk⟩
      exact h.movePage hcur hk hfill hnew hret (hflow.2 a k hcur hk)

lemma plain_of_below {claimed : List (Slot × Request)} {k : Slot} {fs : List Frame}
    (h : ∀ f ∈ fs, Below claimed k f) : Plain fs := by
  cases fs with
  | nil => trivial
  | cons f fs =>
      have hf := h f List.mem_cons_self
      cases f with
      | create r pc => cases pc <;> first | rfl | exact absurd hf (by simp [Below])
      | _ => rfl

lemma notSaved_of_below {claimed : List (Slot × Request)} {k : Slot} {fs : List Frame}
    (h : ∀ f ∈ fs, Below claimed k f) (i : Slot) (rest : List Frame) :
    fs ≠ .sched (.restore i) :: rest := by
  rintro rfl
  exact absurd (h _ List.mem_cons_self) (by simp [Below])

/-- A `proc_create` on top: its callers, and where it may go on. -/
lemma Wf.createTop {s : Kernel} (h : Wf s) {r : Request} {pc : CreatePc} {rest : List Frame}
    (hfr : s.frames = .create r pc :: rest) :
    (isWindow (.create r pc) = true ∨ ∀ k, Below s.claimed k (.create r pc)) ∧
      (∀ claimed pc', (∃ l, claimed = s.claimed ++ l) →
        ((∀ k, Below claimed k (.create r pc')) ∨ isWindow (.create r pc') = true) →
          FlowOk s claimed (.create r pc' :: rest)) ∧
      FlowOk s s.claimed rest ∧ (∀ i rest', rest ≠ .sched (.restore i) :: rest') ∧ Plain rest := by
  have hall : ∀ {claimed : List (Slot × Request)} {k : Slot} {pc' : CreatePc},
      Below claimed k (.create r pc') → ∀ j, Below claimed j (.create r pc') := by
    intro claimed k pc' hb j
    cases pc' <;> exact hb
  have hflow := h.flowOk
  rw [hfr] at hflow
  cases hcur : s.cur with
  | boot =>
      have hne : ∀ a, s.cur ≠ .page a := by simp [hcur]
      rcases (hflow.1 hcur).top with ⟨_, hidle, _⟩ | ⟨hnone, hcore⟩ | ⟨hnone, hw, rfl⟩ | ⟨i, _, _, _, hi⟩
      · exact absurd hidle (by simp [Idle])
      · cases hcore with
        | create hb =>
            refine ⟨.inr hb, ?_, ⟨fun _ => ?_, fun a _ ha => absurd ha (hne a)⟩, by simp, rfl⟩
            · intro claimed pc' hp hpc'
              refine ⟨fun _ => ?_, fun a _ ha => absurd ha (hne a)⟩
              rw [hnone]
              rcases hpc' with hpc' | hpc'
              · exact .core (.create hpc')
              · exact .window hpc'
            · rw [hnone]
              exact .core (.main false)
      · refine ⟨.inl hw, ?_, ⟨fun _ => ?_, fun a _ ha => absurd ha (hne a)⟩, by simp, rfl⟩
        · intro claimed pc' hp hpc'
          refine ⟨fun _ => ?_, fun a _ ha => absurd ha (hne a)⟩
          rw [hnone]
          rcases hpc' with hpc' | hpc'
          · exact .core (.create hpc')
          · exact .window hpc'
        · rw [hnone]
          exact .core (.main false)
      · exact absurd hi (by simp)
  | page a =>
      rcases (h.onPage a hcur).1 with ⟨k, hk⟩
      have huniq : ∀ b j, s.cur = .page b → (s.procs j).stack = some b → b = a ∧ j = k := by
        intro b j hb hj
        have hba : b = a := StackId.page.inj (hb.symm.trans hcur)
        rw [hba] at hj
        exact ⟨hba, h.stackInj j k a hj hk⟩
      have hnb : s.cur ≠ .boot := by simp [hcur]
      rcases (hflow.2 a k hcur hk).top with ⟨hsome, hf, hrest⟩ | ⟨_, hidle, _⟩ | ⟨_, hf, _⟩ | ⟨_, hf, _⟩
      · refine ⟨?_, ?_, ⟨fun hb => absurd hb hnb, ?_⟩, notSaved_of_below hrest, plain_of_below hrest⟩
        · exact hf.elim (fun hb => .inr (hall hb)) .inl
        · intro claimed pc' hp hpc'
          refine ⟨fun hb => absurd hb hnb, ?_⟩
          intro b j hb hj
          obtain ⟨rfl, rfl⟩ := huniq b j hb hj
          have hrest' : ∀ g ∈ rest, Below claimed j g := fun g hg => (hrest g hg).mono hp
          rw [hsome]
          rcases hpc' with hpc' | hpc'
          · exact .active (List.forall_mem_cons.mpr ⟨hpc' j, hrest'⟩)
          · exact .window hpc' hrest'
        · intro b j hb hj
          obtain ⟨rfl, rfl⟩ := huniq b j hb hj
          rw [hsome]
          exact .active hrest
      · exact absurd hidle (by simp [Idle])
      · exact absurd hf (by simp)
      · exact absurd hf (by simp)

/-- A slot after a step of the running stack that does not write to it. -/
lemma SlotOk.framesStep {s s' : Kernel} {j : Slot} {fs : List Frame} (h : Wf s)
    (hproc : s'.procs j = s.procs j) (hclaimed : ∃ l, s'.claimed = s.claimed ++ l ∧ ∀ r, (j, r) ∉ l)
    (hrun : s'.hasRun j = s.hasRun j) (hlast : s'.lastSaved = s.lastSaved) (hcur : s'.cur = s.cur)
    (hcurrent : s'.current = s.current) (hstack : s'.stack = Function.update s.stack s.cur fs)
    (hnot : ¬ Filling s j) (hflow : FlowOk s s'.claimed fs) : SlotOk s' j := by
  by_cases hj : ∃ a, s.cur = .page a ∧ (s.procs j).stack = some a
  · rcases hj with ⟨a, hpage, hj⟩
    have hfs : s'.stack (.page a) = fs := by rw [hstack, hpage, Function.update_self]
    rcases hclaimed with ⟨l, hl, _⟩
    cases h.slot j with
    | unused _ hnone _ => exact absurd (hj.symm.trans hnone) (by simp)
    | filling hf => exact absurd hf hnot
    | @ready b r hstate hcl hd hwhere =>
        have hab : a = b := Option.some.inj (hj.symm.trans hd.stack)
        subst hab
        cases hwhere with
        | fresh hne => exact absurd hpage hne
        | parked hne => exact absurd hpage hne
        | onHart _ hrun' _ =>
            refine .ready (a := a) (r := r) (by rw [hproc]; exact hstate) ?_ (by rw [hproc]; exact hd)
              (.onHart (hcur.trans hpage) (hrun.trans hrun') ?_)
            · rw [hl]
              exact List.mem_append_left l hcl
            · rw [hproc, hlast, hcurrent, hfs]
              exact hflow.2 a j hpage hj
  · refine (h.slot j).congr hproc hclaimed hrun ?_ (fun hf => absurd hf hnot)
    intro a ha
    have hne : s.cur ≠ .page a := fun hc => hj ⟨a, hc, ha⟩
    refine ⟨?_, by rw [hlast], by rw [hcur], fun hc => absurd hc hne⟩
    rw [hstack]
    exact Function.update_of_ne (Ne.symm hne) _ _

/-- The boot stack during a step of a stack that does not become, or stop being, the scheduler's. -/
lemma Wf.bootStack {s : Kernel} (h : Wf s) {fs : List Frame} {i : Slot} {rest : List Frame}
    (hnotSaved : ∀ i rest, fs ≠ .sched (.restore i) :: rest)
    (hst : Function.update s.stack s.cur fs .boot = .sched (.restore i) :: rest) : SchedulerSaved s := by
  by_cases hc : s.cur = .boot
  · rw [hc, Function.update_self] at hst
    exact absurd hst (hnotSaved i rest)
  · rw [Function.update_of_ne (Ne.symm hc)] at hst
    exact h.schedSaved i rest hst

lemma Wf.parkedStack {s : Kernel} (h : Wf s) {fs : List Frame} {a : ℕ} (hcur : s.cur = .page a) :
    ∃ i, Function.update s.stack s.cur fs .boot = [.sched (.restore i), .main false] := by
  rcases (h.onPage a hcur).2 with ⟨i, hi⟩
  refine ⟨i, ?_⟩
  rw [hcur, Function.update_of_ne (by simp), hi]

/-- **`mem_alloc` gives `proc_create` a stack.** -/
lemma Wf.allocated {s : Kernel} (h : Wf s) {r : Request} {k : Slot} {a : ℕ} {rest : List Frame}
    (hfr : s.frames = .create r (.alloc k) :: rest) (ha : a ∉ s.pages) :
    Wf ({ s with
      pages := a :: s.pages
      claimed := s.claimed ++ [(k, r)]
      hasRun := Function.update s.hasRun k false }.setFrames
        (.create r (.fill s.claimed.length 0 k a) :: rest)) := by
  have hunused : (s.procs k).state = .unused := h.fill r _ rest hfr
  have hnot : ∀ j, ¬ Filling s j := by
    rintro j ⟨r', id, n, b, rest', h'⟩
    exact absurd (hfr.symm.trans h') (by simp)
  have hslotk : (s.procs k).stack = none ∧ ∀ r, (k, r) ∉ s.claimed := by
    cases h.slot k with
    | unused _ hnone hcl => exact ⟨hnone, hcl⟩
    | filling hf => exact absurd hf (hnot k)
    | ready hstate => exact absurd hunused hstate
  have hflow := (h.createTop hfr).2.1 (s.claimed ++ [(k, r)]) (.fill s.claimed.length 0 k a)
    ⟨_, rfl⟩ (.inr rfl)
  have hcurPage : s.cur ≠ .page a := by
    intro hc
    rcases (h.onPage a hc).1 with ⟨j, hj⟩
    exact ha (h.stackPage j a hj)
  have hfree := h.freePage a ha
  refine ⟨?_, ?_, h.stackInj, ?_, ?_, ?_, ?_, ?_, ?_, ?_⟩
  · intro j
    by_cases hj : j = k
    · subst hj
      exact .filling ⟨r, _, _, a, rest, Function.update_self ..⟩
    · exact SlotOk.framesStep h rfl ⟨[(k, r)], rfl, by simp [hj]⟩ (Function.update_of_ne hj _ _) rfl rfl rfl
        rfl (hnot j) hflow
  · intro r' pc rest' hfr'
    have hfr'' : Function.update s.stack s.cur _ s.cur = .create r' pc :: rest' := hfr'
    rw [Function.update_self] at hfr''
    obtain ⟨⟨rfl, rfl⟩, rfl⟩ : (r = r' ∧ .fill s.claimed.length 0 k a = pc) ∧ rest = rest' := by
      simpa using hfr''
    refine ⟨?_, ?_, ⟨s.procs k, hunused, hslotk.1, rfl⟩, List.mem_cons_self, ?_, ?_, hfree.2,
      Function.update_self ..⟩
    · show (s.claimed ++ [(k, r)])[s.claimed.length]? = some (k, r)
      simp
    · simp [createStores]
    · intro j _ hj
      exact ha (h.stackPage j a hj)
    · show Function.update s.stack s.cur _ (.page a) = []
      rw [Function.update_of_ne (Ne.symm hcurPage)]
      exact hfree.1
  · intro j b hj
    exact List.mem_cons_of_mem a (h.stackPage j b hj)
  · intro b hb
    have hb' : b ∉ s.pages := fun hm => hb (List.mem_cons_of_mem a hm)
    have hne : s.cur ≠ .page b := by
      intro hc
      rcases (h.onPage b hc).1 with ⟨j, hj⟩
      exact hb' (h.stackPage j b hj)
    refine ⟨?_, (h.freePage b hb').2⟩
    show Function.update s.stack s.cur _ (.page b) = []
    rw [Function.update_of_ne (Ne.symm hne)]
    exact (h.freePage b hb').1
  · show ((s.claimed ++ [(k, r)]).map Prod.fst).Nodup
    rw [List.map_append, List.nodup_append]
    refine ⟨h.claimedNodup, by simp, ?_⟩
    intro x hx y hy
    rcases List.mem_map.mp hx with ⟨⟨k', r'⟩, hmem, rfl⟩
    have hyk : y = k := by simpa using hy
    rintro rfl
    subst hyk
    exact hslotk.2 r' hmem
  · intro x hx
    rcases h.returned x hx with ⟨r', hr'⟩
    refine ⟨r', ?_⟩
    show (s.claimed ++ [(k, r)])[x.1]? = _
    rw [List.getElem?_append_left (List.getElem?_eq_some_iff.mp hr').1, hr']
  · intro hc
    show BootFlow (s.claimed ++ [(k, r)]) s.used s.current (Function.update s.stack s.cur _ .boot)
    have hc' : s.cur = .boot := hc
    rw [hc', Function.update_self]
    exact hflow.1 hc'
  · intro b hc
    exact ⟨(h.onPage b hc).1, h.parkedStack hc⟩
  · intro i rest' hst
    exact h.bootStack (by simp) hst

/-- **A store of `proc_create`.**  After the last one the slot is ready, and its process has not run. -/
lemma Wf.filled {s : Kernel} (h : Wf s) {r : Request} {id n : ℕ} {k : Slot} {a : ℕ} {rest : List Frame}
    {f : Proc → Proc} (hfr : s.frames = .create r (.fill id n k a) :: rest)
    (hf : (createStores k a r)[n]? = some f) :
    Wf ((s.setProc k (f (s.procs k))).setFrames
      (.create r (if n + 1 < (createStores k a r).length then .fill id (n + 1) k a
        else .done id k) :: rest)) := by
  rcases h.fill r _ rest hfr with ⟨hid, hn, ⟨p, hpstate, hpstack, hprocs⟩, hapage, hother, hempty, hlast, hrun⟩
  set pc := if n + 1 < (createStores k a r).length then CreatePc.fill id (n + 1) k a else .done id k
    with hpc
  set s' := (s.setProc k (f (s.procs k))).setFrames (.create r pc :: rest) with hs'
  have hself : s'.procs k = f (s.procs k) := Function.update_self ..
  have hne : ∀ j, j ≠ k → s'.procs j = s.procs j := fun j hj => Function.update_of_ne hj _ _
  have hstores : s'.procs k = applyStores ((createStores k a r).take (n + 1)) p := by
    rw [hself, List.take_add_one, hf, applyStores_append, hprocs]
    rfl
  have hcurPage : s.cur ≠ .page a := by
    intro hc
    rw [frames, hc, hempty] at hfr
    exact absurd hfr (by simp)
  have hstackk : (s'.procs k).stack = none ∨ (s'.procs k).stack = some a := by
    rw [hstores]
    exact applyStores_stack (k := k) (a := a) (r := r) _ p (fun g hg => List.mem_of_mem_take hg) (.inl hpstack)
  have hmem : f ∈ createStores k a r := List.mem_of_getElem? hf
  have hused : ∀ j, s.used j → s'.used j := by
    intro j hj
    by_cases hjk : j = k
    · rw [hjk] at hj ⊢
      rw [used, hself]
      rcases (store_keeps hmem (s.procs k)).2 with hst | hst
      · rw [hst]
        exact hj
      · rw [hst]
        simp
    · rw [used, hne j hjk]
      exact hj
  have hstackj : ∀ j b, (s'.procs j).stack = some b → (j = k ∧ b = a) ∨ (j ≠ k ∧ (s.procs j).stack = some b) := by
    intro j b hb
    by_cases hjk : j = k
    · rw [hjk] at hb
      rcases hstackk with h' | h'
      · exact absurd (h'.symm.trans hb) (by simp)
      · exact .inl ⟨hjk, Option.some.inj (hb.symm.trans h')⟩
    · rw [hne j hjk] at hb
      exact .inr ⟨hjk, hb⟩
  -- the slot of the process on the hart is another one
  have howner : ∀ b, s.cur = .page b → ∃ j, (s'.procs j).stack = some b := by
    intro b hc
    rcases (h.onPage b hc).1 with ⟨j, hj⟩
    have hjk : j ≠ k := by
      rintro rfl
      exact h.filling_stack ⟨r, id, n, a, rest, hfr⟩ hj hc
    exact ⟨j, by rw [hne j hjk]; exact hj⟩
  have hflow : FlowOk s s.claimed (.create r pc :: rest) := by
    refine (h.createTop hfr).2.1 s.claimed pc ⟨[], (List.append_nil _).symm⟩ ?_
    rw [hpc]
    split_ifs
    · exact .inr rfl
    · exact .inl fun _ => hid
  have hframes : s'.frames = .create r pc :: rest := Function.update_self ..
  have hpageStack : ∀ b, s.cur ≠ .page b → s'.stack (.page b) = s.stack (.page b) :=
    fun b hb => Function.update_of_ne (Ne.symm hb) _ _
  refine ⟨?_, ?_, ?_, ?_, ?_, h.claimedNodup, h.returned, ?_, ?_, ?_⟩
  · intro j
    by_cases hj : j = k
    · rw [hj]
      by_cases hlen : n + 1 < (createStores k a r).length
      · rw [if_pos hlen] at hpc
        exact .filling ⟨r, id, n + 1, a, rest, by rw [hframes, hpc]⟩
      · have htake : (createStores k a r).take (n + 1) = createStores k a r :=
          List.take_of_length_le (by omega)
        rcases applyStores_all k a r p with ⟨hdesc, hctx, hstate⟩
        rw [htake] at hstores
        refine .ready (a := a) (r := r) ?_ (List.mem_of_getElem? hid) ?_ (.fresh hcurPage ?_ ?_ ?_ hlast hrun)
        · rw [hstores, hstate]
          simp
        · rw [hstores]
          exact hdesc
        · exact (hpageStack a hcurPage).trans hempty
        · rw [hstores, hctx]
        · rw [hstores, hctx]
    · refine SlotOk.framesStep h (hne j hj) ⟨[], (List.append_nil _).symm, by simp⟩ rfl rfl rfl rfl
        rfl ?_ hflow
      rintro ⟨r', id', n', b, rest', h'⟩
      have hinj := hfr.symm.trans h'
      simp only [List.cons.injEq, Frame.create.injEq, CreatePc.fill.injEq] at hinj
      exact hj hinj.1.2.2.2.1.symm
  · intro r' pc' rest' hfr'
    rw [hframes] at hfr'
    obtain ⟨⟨rfl, rfl⟩, rfl⟩ : (r = r' ∧ pc = pc') ∧ rest = rest' := by simpa using hfr'
    by_cases hlen : n + 1 < (createStores k a r).length
    · rw [if_pos hlen] at hpc
      rw [hpc]
      refine ⟨hid, hlen, ⟨p, hpstate, hpstack, hstores⟩, hapage, ?_, (hpageStack a hcurPage).trans hempty,
        hlast, hrun⟩
      intro j hj
      rw [hne j hj]
      exact hother j hj
    · rw [if_neg hlen] at hpc
      rw [hpc]
      trivial
  · intro i j b hi hj
    rcases hstackj i b hi with ⟨rfl, rfl⟩ | ⟨hik, hi'⟩
    · rcases hstackj j b hj with ⟨rfl, _⟩ | ⟨hjk, hj'⟩
      · rfl
      · exact absurd hj' (hother j hjk)
    · rcases hstackj j b hj with ⟨rfl, rfl⟩ | ⟨hjk, hj'⟩
      · exact absurd hi' (hother i hik)
      · exact h.stackInj i j b hi' hj'
  · intro j b hj
    rcases hstackj j b hj with ⟨rfl, rfl⟩ | ⟨_, hj'⟩
    · exact hapage
    · exact h.stackPage j b hj'
  · intro b hb
    have hc : s.cur ≠ .page b := by
      intro hc
      rcases (h.onPage b hc).1 with ⟨j, hj⟩
      exact hb (h.stackPage j b hj)
    exact ⟨(hpageStack b hc).trans (h.freePage b hb).1, (h.freePage b hb).2⟩
  · intro hc
    have hc' : s.cur = .boot := hc
    have hst : s'.stack .boot = .create r pc :: rest := by
      show Function.update s.stack s.cur _ .boot = _
      rw [hc', Function.update_self]
    rw [hst]
    exact (hflow.1 hc').mono ⟨[], (List.append_nil _).symm⟩ hused
  · intro b hc
    exact ⟨howner b hc, h.parkedStack hc⟩
  · intro i rest' hst
    exact h.bootStack (by simp) hst

/-! ## One statement -/

@[simp] lemma frames_setFrames (s : Kernel) (fs : List Frame) : (s.setFrames fs).frames = fs :=
  Function.update_self ..

@[simp] lemma setFrames_setFrames (s : Kernel) (fs gs : List Frame) :
    (s.setFrames fs).setFrames gs = s.setFrames gs := by
  simp [setFrames]

lemma flowOk_boot {s : Kernel} {claimed : List (Slot × Request)} {fs : List Frame} (hcur : s.cur = .boot)
    (h : BootFlow claimed s.used s.current fs) : FlowOk s claimed fs :=
  ⟨fun _ => h, fun a _ ha => absurd (ha.symm.trans hcur) (by simp)⟩

lemma Wf.flowOk_page {s : Kernel} (hwf : Wf s) {a : ℕ} {k : Slot} {fs : List Frame}
    (hcur : s.cur = .page a) (hk : (s.procs k).stack = some a)
    (h : ProcFlow s.claimed k a (s.procs k).context (s.lastSaved (.page a)) s.current fs) :
    FlowOk s s.claimed fs := by
  refine ⟨fun hb => absurd (hb.symm.trans hcur) (by simp), ?_⟩
  intro b j hb hj
  have hba : b = a := StackId.page.inj (hb.symm.trans hcur)
  subst hba
  have hjk : j = k := hwf.stackInj j k b hj hk
  rw [hjk]
  exact h

lemma Wf.setFrames {s : Kernel} (h : Wf s) {fs : List Frame} (hold : Plain s.frames) (hplain : Plain fs)
    (hnotSaved : ∀ i rest, fs ≠ .sched (.restore i) :: rest) (hflow : FlowOk s s.claimed fs) :
    Wf (s.setFrames fs) :=
  h.move (u := ⟨s.sie, s.sregs, s.returned, s.entryCalls, s.entryDone⟩) (noFill_of_plain hold)
    (fillOk_of_plain hplain) h.returned hnotSaved hflow

lemma notSaved_of_boot {claimed : List (Slot × Request)} {used : Slot → Prop} {fs : List Frame}
    (h : BootFlow claimed used none fs) (i : Slot) (rest : List Frame) :
    fs ≠ .sched (.restore i) :: rest := by
  rintro rfl
  rcases h.top with ⟨_, hidle, _⟩ | ⟨_, hcore⟩ | ⟨_, hw, _⟩ | ⟨_, hi, _⟩
  · exact absurd hidle (by simp [Idle])
  · cases hcore with
    | sched _ hrestore => exact hrestore i rfl
  · exact absurd hw (by simp [isWindow])
  · exact absurd hi (by simp)

lemma notSaved_of_proc {claimed : List (Slot × Request)} {k : Slot} {a : ℕ} {c : Context}
    {last : Option Context} {o : Option Slot} {fs : List Frame} (h : ProcFlow claimed k a c last o fs)
    (i : Slot) (rest : List Frame) : fs ≠ .sched (.restore i) :: rest := by
  rintro rfl
  rcases h.top with ⟨_, hf, _⟩ | ⟨_, hidle, _⟩ | ⟨_, hf, _⟩ | ⟨_, hf, _⟩
  · exact absurd hf (by simp [Below, isWindow])
  · exact absurd hidle (by simp [Idle])
  · exact absurd hf (by simp)
  · exact absurd hf (by simp)

lemma plain_of_idle {claimed : List (Slot × Request)} {k : Slot} {a : ℕ} {c : Context}
    {last : Option Context} {fs : List Frame} (h : ProcFlow claimed k a c last none fs) : Plain fs := by
  cases fs with
  | nil => trivial
  | cons f rest =>
      rcases h.top with ⟨hn, _⟩ | ⟨_, hidle, _⟩ | ⟨_, rfl, _⟩ | ⟨_, rfl, _⟩
      · exact absurd hn (by simp)
      · cases f with
        | create => exact absurd hidle (by simp [Idle])
        | _ => rfl
      · rfl
      · rfl

/-- **An idle frame on top**: the others below it are as they were. -/
lemma Wf.idleTop {s : Kernel} (h : Wf s) {f : Frame} {rest : List Frame} (hfr : s.frames = f :: rest)
    (hf : Idle f) (hnone : s.current = none) :
    FlowOk s s.claimed rest ∧ Plain rest ∧ (∀ i rest', rest ≠ .sched (.restore i) :: rest') ∧
      ∀ g, Idle g → FlowOk s s.claimed (g :: rest) := by
  have hflow := h.flowOk
  rw [hfr] at hflow
  cases hcur : s.cur with
  | boot =>
      rcases (hflow.1 hcur).top with ⟨_, _, hrest, hplain⟩ | ⟨_, hcore⟩ | ⟨_, hw, _⟩ | ⟨i, hi, _⟩
      · refine ⟨flowOk_boot hcur (hnone ▸ hrest), hplain, notSaved_of_boot hrest, ?_⟩
        intro g hg
        exact flowOk_boot hcur (hnone ▸ hrest.push hplain hg)
      · cases hcore <;> exact absurd hf (by simp [Idle])
      · cases f with
        | create => exact absurd hf (by simp [Idle])
        | _ => exact absurd hw (by simp [isWindow])
      · exact absurd (hnone.symm.trans hi) (by simp)
  | page a =>
      rcases (h.onPage a hcur).1 with ⟨k, hk⟩
      rcases (hflow.2 a k hcur hk).top with ⟨hsome, _⟩ | ⟨_, _, hrest⟩ | ⟨_, rfl, _⟩ | ⟨_, rfl, _⟩
      · exact absurd (hnone.symm.trans hsome) (by simp)
      · refine ⟨h.flowOk_page hcur hk (hnone ▸ hrest), plain_of_idle hrest, notSaved_of_proc hrest, ?_⟩
        intro g hg
        exact h.flowOk_page hcur hk (hnone ▸ hrest.push hg)
      · exact absurd hf (by simp [Idle])
      · exact absurd hf (by simp [Idle])

/-- **A frame of the running process on top**, while `current_process` is set. -/
lemma Wf.activeTop {s : Kernel} (h : Wf s) {f : Frame} {rest : List Frame} {k : Slot}
    (hfr : s.frames = f :: rest) (hsome : s.current = some k) (hne : ∀ pc, f ≠ .sched pc) :
    ∃ a, s.cur = .page a ∧ (s.procs k).stack = some a ∧ s.used k ∧
      (Below s.claimed k f ∨ isWindow f = true) ∧ (∀ g ∈ rest, Below s.claimed k g) ∧
      ∀ fs, (∀ g ∈ fs, Below s.claimed k g) → FlowOk s s.claimed fs := by
  have hflow := h.flowOk
  rw [hfr] at hflow
  cases hcur : s.cur with
  | boot =>
      rcases (hflow.1 hcur).top with ⟨hn, _⟩ | ⟨hn, _⟩ | ⟨hn, _⟩ | ⟨i, _, _, _, hf⟩
      · exact absurd (hn.symm.trans hsome) (by simp)
      · exact absurd (hn.symm.trans hsome) (by simp)
      · exact absurd (hn.symm.trans hsome) (by simp)
      · rcases hf with hf | hf
        · exact absurd hf (hne _)
        · exact absurd hf (hne _)
  | page a =>
      rcases h.onHart hcur with ⟨j, hj, hused, _, hpf⟩
      rw [hfr] at hpf
      rcases hpf.top with ⟨hs, hf, hrest⟩ | ⟨hn, _⟩ | ⟨hn, _⟩ | ⟨hn, _⟩
      · have hjk : j = k := Option.some.inj (hs.symm.trans hsome)
        subst hjk
        refine ⟨a, rfl, hj, hused, hf, hrest, ?_⟩
        intro fs hfs
        refine h.flowOk_page hcur hj ?_
        rw [hsome]
        exact .active hfs
      · exact absurd (hn.symm.trans hsome) (by simp)
      · exact absurd (hn.symm.trans hsome) (by simp)
      · exact absurd (hn.symm.trans hsome) (by simp)

end Kernel

end NetStack
