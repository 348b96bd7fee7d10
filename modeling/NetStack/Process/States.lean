import NetStack.Process.Contexts

/-!
# Process states

When no interrupt is taken in `scheduler`, while a slot is filled, or in `yield` between
`p->state = PROC_RUNNABLE` and `current_process = NULL`, the `state` fields say where processes are
(`Alive`): a process is `PROC_RUNNING` exactly while it has the hart, or is being given it, and has not ended;
a `PROC_ZOMBIE`'s stack ends in `forkret` past its entry function, and nothing on it makes the process
runnable again; and `scheduler`'s pass knows which slots are finished.

From it: no process is lost by preemption (`no_process_lost`).  The run with an interrupt in that window of
`yield`, which loses one, follows.
-/

namespace NetStack

open Transition

namespace Kernel

/-! ## Stacks of processes -/

/-- `forkret` is past the call of the entry function. -/
def pastEntry : ForkretPc → Bool
  | .testCurrent | .setZombie | .callYield | .spin => true
  | _ => false

def isForkret : Frame → Bool
  | .forkret _ => true
  | _ => false

/-- The stack of a process that has run: `forkret` at the bottom and nowhere else.  `calls` counts the calls of
its entry function. -/
structure Shape (zombie : Prop) (done : Bool) (calls : ℕ) (fs : List Frame) : Prop where
  tail : ∀ p, .yield .clearCurrent p ∈ fs.tail → zombie
  noSet : zombie → ∀ p, .yield .setRunnable p ∉ fs
  base : ∃ pre pc, fs = pre ++ [.forkret pc] ∧ (∀ f ∈ pre, isForkret f = false) ∧ done = pastEntry pc ∧
    (calls = 0 ∨ calls = 1 ∧ pc ≠ .test ∧ pc ≠ .call) ∧ (zombie → pc = .callYield ∨ pc = .spin)

section Shape

variable {zombie : Prop} {done : Bool} {calls : ℕ} {f g : Frame} {rest : List Frame}

lemma Shape.congr {zombie' : Prop} {fs : List Frame} (h : Shape zombie done calls fs)
    (hz : zombie ↔ zombie') : Shape zombie' done calls fs := by
  rw [← propext hz]
  exact h

/-- A frame that is not `forkret` may be exchanged for others. -/
lemma Shape.exchange {L : List Frame} (h : Shape zombie done calls (f :: rest))
    (hf : isForkret f = false) (hnew : ∀ g ∈ L, isForkret g = false)
    (hset : zombie → ∀ p, .yield .setRunnable p ∉ L)
    (hclear : ∀ p, .yield .clearCurrent p ∈ L.tail → zombie) : Shape zombie done calls (L ++ rest) where
  tail := by
    intro p hp
    cases L with
    | nil => exact h.tail p (List.mem_of_mem_tail hp)
    | cons g L =>
        rcases List.mem_append.mp (show Frame.yield .clearCurrent p ∈ L ++ rest from hp) with hp | hp
        · exact hclear p hp
        · exact h.tail p hp
  noSet := by
    intro hz p hp
    rcases List.mem_append.mp hp with hp | hp
    · exact hset hz p hp
    · exact h.noSet hz p (List.mem_cons_of_mem f hp)
  base := by
    rcases h.base with ⟨pre, pc, hfs, hpre, hrest⟩
    cases pre with
    | nil =>
        obtain ⟨rfl, _⟩ : f = .forkret pc ∧ rest = [] := by simpa using hfs
        exact absurd hf (by simp [isForkret])
    | cons f' pre =>
        obtain ⟨rfl, rfl⟩ : f = f' ∧ rest = pre ++ [.forkret pc] := by simpa using hfs
        refine ⟨L ++ pre, pc, by simp, ?_, hrest⟩
        intro g hg
        rcases List.mem_append.mp hg with hg | hg
        · exact hnew g hg
        · exact hpre g (List.mem_cons_of_mem f hg)

/-- A call on top of a frame that is not in the middle of giving up the hart. -/
lemma Shape.push {fs L : List Frame} (h : Shape zombie done calls fs)
    (hnew : ∀ g ∈ L, isForkret g = false ∧ (∀ p, g ≠ .yield .setRunnable p) ∧ ∀ p, g ≠ .yield .clearCurrent p)
    (htop : ∀ p rest, fs = .yield .clearCurrent p :: rest → zombie) : Shape zombie done calls (L ++ fs) where
  tail := by
    intro p hp
    have hmem : Frame.yield .clearCurrent p ∈ fs := by
      rcases List.mem_append.mp (List.mem_of_mem_tail hp) with hp | hp
      · exact absurd rfl ((hnew _ hp).2.2 p)
      · exact hp
    cases fs with
    | nil => exact absurd hmem (by simp)
    | cons f rest =>
        rcases List.mem_cons.mp hmem with rfl | hmem
        · exact htop p rest rfl
        · exact h.tail p hmem
  noSet := by
    intro hz p hp
    rcases List.mem_append.mp hp with hp | hp
    · exact absurd rfl ((hnew _ hp).2.1 p)
    · exact h.noSet hz p hp
  base := by
    rcases h.base with ⟨pre, pc, rfl, hpre, hrest⟩
    refine ⟨L ++ pre, pc, by simp, ?_, hrest⟩
    intro g hg
    rcases List.mem_append.mp hg with hg | hg
    · exact (hnew g hg).1
    · exact hpre g hg

/-- `forkret` on top is the whole stack. -/
lemma Shape.forkret {pc : ForkretPc} (h : Shape zombie done calls (.forkret pc :: rest)) :
    rest = [] ∧ done = pastEntry pc ∧ (calls = 0 ∨ calls = 1 ∧ pc ≠ .test ∧ pc ≠ .call) ∧
      (zombie → pc = .callYield ∨ pc = .spin) := by
  rcases h.base with ⟨pre, pc', hfs, hpre, hrest⟩
  cases pre with
  | nil =>
      obtain ⟨rfl, rfl⟩ : pc = pc' ∧ rest = [] := by simpa using hfs
      exact ⟨rfl, hrest⟩
  | cons f pre =>
      obtain ⟨rfl, _⟩ : .forkret pc = f ∧ rest = pre ++ [.forkret pc'] := by simpa using hfs
      exact absurd (hpre _ List.mem_cons_self) (by simp [isForkret])

lemma Shape.bottom {pc : ForkretPc} (hdone : done = pastEntry pc)
    (hcalls : calls = 0 ∨ calls = 1 ∧ pc ≠ .test ∧ pc ≠ .call)
    (hz : zombie → pc = .callYield ∨ pc = .spin) : Shape zombie done calls [.forkret pc] where
  tail := by simp
  noSet := by simp
  base := ⟨[], pc, rfl, by simp, hdone, hcalls, hz⟩

end Shape

/-! ## The invariant -/

/-- The slot has no process, or one that has ended. -/
def Finished (s : Kernel) (k : Slot) : Prop := (s.procs k).state = .unused ∨ (s.procs k).state = .zombie

/-- `scheduler` has set `k` running and has not switched to it yet. -/
def dispatching (k : Slot) : SchedPc → Prop
  | .setCurrent i | .save i | .restore i => i = k
  | _ => False

/-- `yield` has set the state of its process and has not cleared `current_process`. -/
def clearing (s : Kernel) : Prop := ∃ p rest, s.frames = .yield .clearCurrent p :: rest

/-- Process `k` has the hart, or is being given it. -/
def Runs (s : Kernel) (k : Slot) : Prop :=
  (∃ pc rest, s.frames = .sched pc :: rest ∧ dispatching k pc) ∨
    s.cur ≠ .boot ∧ s.current = some k ∧ ¬ clearing s

/-- What `scheduler` knows in its pass. -/
def PassOk (s : Kernel) : SchedPc → Prop
  | .setRunning i => (s.procs i).state = .runnable
  | .setCurrent i | .save i | .restore i => (s.procs i).state = .running
  | .loop i false => ∀ j : Slot, j < i → Finished s j
  | .testState i false => ∀ j < i, Finished s j
  | .testFound false | .scan _ | .testActive _ | .testDone false => ∀ j, Finished s j
  | .testDone true | .wfi => False
  | _ => True

structure Alive (s : Kernel) : Prop where
  running : ∀ k, (s.procs k).state = .running → Runs s k
  onHart : ∀ k, s.cur ≠ .boot → s.current = some k → ¬ clearing s →
    (s.procs k).state = .running ∨ (s.procs k).state = .zombie
  bootTop : ∀ f rest, s.stack .boot = f :: rest → ¬ Idle f
  pass : ∀ pc rest, s.frames = .sched pc :: rest → PassOk s pc
  exit : ∀ rest, s.frames = .main true :: rest → ∀ j, Finished s j
  fresh : ∀ a, s.stack (.page a) = [] → s.entryDone (.page a) = false ∧ s.entryCalls (.page a) = 0
  shape : ∀ k a, (s.procs k).stack = some a →
    s.stack (.page a) = [] ∧ (s.procs k).state ≠ .zombie ∧ s.cur ≠ .page a ∨
      Shape ((s.procs k).state = .zombie) (s.entryDone (.page a)) (s.entryCalls (.page a)) (s.stack (.page a))

/-- Where a timer interrupt loses no process: not in `scheduler`, not while a slot is filled, and not in
`yield` between `p->state = PROC_RUNNABLE` and `current_process = NULL`. -/
def Resumable (s : Kernel) : Prop :=
  InProcess s ∧ ¬ inWindow s ∧
    ∀ k rest, s.frames = .yield .clearCurrent (some k) :: rest → (s.procs k).state ≠ .runnable

lemma Resumable.atRest {s : Kernel} (h : Resumable s) : AtRest s := ⟨fun hc => absurd hc h.1, h.2.1⟩

/-- A timer interrupt in the code of an entry function. -/
def InEntry (s : Kernel) : Prop := s.cur ≠ .boot ∧ ∃ rest, s.frames = .entry :: rest

lemma InEntry.resumable {s : Kernel} (h : InEntry s) : Resumable s := by
  rcases h with ⟨hcur, rest, hfr⟩
  refine ⟨hcur, ?_, ?_⟩
  · rintro ⟨f, rest', hfr', hw⟩
    rw [← (List.cons.inj (hfr.symm.trans hfr')).1] at hw
    exact absurd hw (by simp [isWindow])
  · intro k rest' hfr'
    exact absurd (hfr.symm.trans hfr') (by simp)

/-! ## Local steps -/

lemma PassOk.congr {s s' : Kernel} {pc : SchedPc} (h : PassOk s pc)
    (hstate : ∀ j, (s'.procs j).state = (s.procs j).state) : PassOk s' pc := by
  have hfin : ∀ j, Finished s j → Finished s' j := by
    intro j hj
    rw [Finished, hstate]
    exact hj
  cases pc with
  | setRunning i => exact (hstate i).trans h
  | setCurrent i => exact (hstate i).trans h
  | save i => exact (hstate i).trans h
  | restore i => exact (hstate i).trans h
  | loop i found =>
      cases found with
      | true => trivial
      | false => exact fun j hj => hfin j (h j hj)
  | testState i found =>
      cases found with
      | true => trivial
      | false => exact fun j hj => hfin j (h j hj)
  | testFound found =>
      cases found with
      | true => trivial
      | false => exact fun j => hfin j (h j)
  | testDone active =>
      cases active with
      | true => exact h
      | false => exact fun j => hfin j (h j)
  | scan i => exact fun j => hfin j (h j)
  | testActive i => exact fun j => hfin j (h j)
  | wfi => exact h
  | _ => trivial

/-- The invariant is about states, stacks and entry functions. -/
lemma Alive.congr {s s' : Kernel} (h : Alive s) (hstate : ∀ j, (s'.procs j).state = (s.procs j).state)
    (hown : ∀ j, (s'.procs j).stack = (s.procs j).stack) (hcurrent : s'.current = s.current)
    (hcur : s'.cur = s.cur) (hstack : s'.stack = s.stack) (hdone : s'.entryDone = s.entryDone)
    (hcalls : s'.entryCalls = s.entryCalls) : Alive s' := by
  have hfr : s'.frames = s.frames := by rw [frames, frames, hstack, hcur]
  have hclear : clearing s' ↔ clearing s := by rw [clearing, clearing, hfr]
  refine ⟨?_, ?_, ?_, ?_, ?_, ?_, ?_⟩
  · intro k hk
    rw [hstate] at hk
    rw [Runs, hfr, hcur, hcurrent, hclear]
    exact h.running k hk
  · intro k hc hk hnc
    rw [hcur] at hc
    rw [hcurrent] at hk
    rw [hclear] at hnc
    rw [hstate]
    exact h.onHart k hc hk hnc
  · intro f rest hf
    rw [hstack] at hf
    exact h.bootTop f rest hf
  · intro pc rest hf
    rw [hfr] at hf
    exact (h.pass pc rest hf).congr hstate
  · intro rest hf j
    rw [hfr] at hf
    rw [Finished, hstate]
    exact h.exit rest hf j
  · intro b hb
    rw [hstack] at hb
    rw [hdone, hcalls]
    exact h.fresh b hb
  · intro j b hj
    rw [hown] at hj
    rw [hstate, hstack, hdone, hcalls, hcur]
    exact h.shape j b hj

/-- Nothing runs while `current_process` is `NULL` and `scheduler` is not dispatching. -/
lemma Alive.notRunning {s : Kernel} (h : Alive s) (hnone : s.current = none)
    (hsched : ∀ pc rest k, s.frames = .sched pc :: rest → ¬ dispatching k pc) (k : Slot) :
    (s.procs k).state ≠ .running := by
  intro hrun
  rcases h.running k hrun with ⟨pc, rest, hfr, hpc⟩ | ⟨_, hsome, _⟩
  · exact hsched pc rest k hfr hpc
  · exact absurd (hnone.symm.trans hsome) (by simp)

lemma Alive.notRunning_sched {s : Kernel} {pc : SchedPc} {rest : List Frame} (h : Alive s)
    (hnone : s.current = none) (hfr : s.frames = .sched pc :: rest) (hpc : ∀ k, ¬ dispatching k pc) (k : Slot) :
    (s.procs k).state ≠ .running := by
  refine h.notRunning hnone ?_ k
  intro pc' rest' j hfr'
  obtain ⟨rfl, _⟩ : pc = pc' ∧ rest = rest' := by simpa using hfr.symm.trans hfr'
  exact hpc j

/-- Only the current process runs on its stack. -/
lemma Alive.running_current {s : Kernel} (h : Alive s) {j k : Slot} (hsome : s.current = some k)
    (hsched : ∀ pc rest, s.frames ≠ .sched pc :: rest) (hj : (s.procs j).state = .running) :
    j = k ∧ ¬ clearing s := by
  rcases h.running j hj with ⟨pc, rest, hfr, _⟩ | ⟨_, hcur, hclear⟩
  · exact absurd hfr (hsched pc rest)
  · exact ⟨Option.some.inj (hcur.symm.trans hsome), hclear⟩

section Local

variable {s : Kernel} {fs : List Frame} {u : Unread} {a : ℕ} {k : Slot}

/-- The stack of the process on the hart changes. -/
lemma Alive.movePage (h : Alive s) (hcur : s.cur = .page a) (hk : (s.procs k).stack = some a)
    (hinj : ∀ j, (s.procs j).stack = some a → j = k)
    (hdone : ∀ b, b ≠ a → u.entryDone (.page b) = s.entryDone (.page b))
    (hcalls : ∀ b, b ≠ a → u.entryCalls (.page b) = s.entryCalls (.page b))
    (hrunning : ∀ j, (s.procs j).state = .running →
      s.current = some j ∧ ∀ p rest, fs ≠ .yield .clearCurrent p :: rest)
    (hcurrent : ∀ j, s.current = some j → (∀ p rest, fs ≠ .yield .clearCurrent p :: rest) →
      (s.procs j).state = .running ∨ (s.procs j).state = .zombie)
    (hbelow : (∀ pc rest, fs ≠ .sched pc :: rest) ∧ ∀ b rest, fs ≠ .main b :: rest)
    (hshape : Shape ((s.procs k).state = .zombie) (u.entryDone (.page a)) (u.entryCalls (.page a)) fs) :
    Alive (s.move fs u) := by
  have hpage : (s.move fs u).stack (.page a) = fs := by
    show Function.update s.stack s.cur fs (.page a) = fs
    rw [hcur, Function.update_self]
  have hother : ∀ b, b ≠ a → (s.move fs u).stack (.page b) = s.stack (.page b) := by
    intro b hb
    show Function.update s.stack s.cur fs (.page b) = s.stack (.page b)
    rw [hcur, Function.update_of_ne (by simpa using hb)]
  have hboot : (s.move fs u).stack .boot = s.stack .boot := by
    show Function.update s.stack s.cur fs .boot = s.stack .boot
    rw [hcur, Function.update_of_ne (by simp)]
  have hclear : ∀ {P : Prop}, (∀ p rest, fs ≠ .yield .clearCurrent p :: rest) → clearing (s.move fs u) → P := by
    rintro P hne ⟨p, rest, hfr⟩
    rw [move_frames] at hfr
    exact absurd hfr (hne p rest)
  refine ⟨?_, ?_, ?_, ?_, ?_, ?_, ?_⟩
  · intro j hj
    rcases hrunning j hj with ⟨hsome, hne⟩
    exact .inr ⟨fun hc => absurd (hcur.symm.trans hc) (by simp), hsome, hclear hne⟩
  · intro j _ hsome hnc
    refine hcurrent j hsome ?_
    intro p rest hfs
    exact hnc ⟨p, rest, (move_frames s fs u).trans hfs⟩
  · intro f rest hst
    exact h.bootTop f rest (hboot.symm.trans hst)
  · intro pc rest hfr
    rw [move_frames] at hfr
    exact absurd hfr (hbelow.1 pc rest)
  · intro rest hfr
    rw [move_frames] at hfr
    exact absurd hfr (hbelow.2 true rest)
  · intro b hb
    by_cases hba : b = a
    · subst hba
      rw [hpage] at hb
      rcases hshape.base with ⟨pre, pc, hfs, _⟩
      exact absurd (hfs.symm.trans hb) (by simp)
    · rw [hother b hba] at hb
      have hold := h.fresh b hb
      exact ⟨(hdone b hba).trans hold.1, (hcalls b hba).trans hold.2⟩
  · intro j b hj
    by_cases hba : b = a
    · subst hba
      obtain rfl := hinj j hj
      rw [hpage]
      exact .inr hshape
    · rw [hother b hba]
      show _ ∨ Shape _ (u.entryDone (.page b)) (u.entryCalls (.page b)) _
      rw [hdone b hba, hcalls b hba]
      exact h.shape j b hj

/-- **The current process goes on.** -/
lemma Alive.goOn (h : Alive s) (hcur : s.cur = .page a) (hk : (s.procs k).stack = some a)
    (hinj : ∀ j, (s.procs j).stack = some a → j = k) (hsome : s.current = some k)
    (hdone : ∀ b, b ≠ a → u.entryDone (.page b) = s.entryDone (.page b))
    (hcalls : ∀ b, b ≠ a → u.entryCalls (.page b) = s.entryCalls (.page b))
    (hsched : ∀ pc rest, s.frames ≠ .sched pc :: rest)
    (hst : (s.procs k).state = .running ∨ (s.procs k).state = .zombie)
    (htop : ∀ p rest, fs = .yield .clearCurrent p :: rest → (s.procs k).state ≠ .running)
    (hbelow : (∀ pc rest, fs ≠ .sched pc :: rest) ∧ ∀ b rest, fs ≠ .main b :: rest)
    (hshape : Shape ((s.procs k).state = .zombie) (u.entryDone (.page a)) (u.entryCalls (.page a)) fs) :
    Alive (s.move fs u) := by
  refine h.movePage hcur hk hinj hdone hcalls ?_ ?_ hbelow hshape
  · intro j hj
    obtain ⟨rfl, _⟩ := h.running_current hsome hsched hj
    exact ⟨hsome, fun p rest hfs => htop p rest hfs hj⟩
  · intro j hj _
    obtain rfl := Option.some.inj (hsome.symm.trans hj)
    exact hst

/-- **The boot stack changes**, between dispatches. -/
lemma Alive.moveBoot (h : Alive s) (hcur : s.cur = .boot) (hrun : ∀ k, (s.procs k).state ≠ .running)
    (hdone : u.entryDone = s.entryDone) (hcalls : u.entryCalls = s.entryCalls)
    (hidle : ∀ f rest, fs = f :: rest → ¬ Idle f) (hpass : ∀ pc rest, fs = .sched pc :: rest → PassOk s pc)
    (hexit : ∀ rest, fs = .main true :: rest → ∀ j, Finished s j) : Alive (s.move fs u) := by
  have hpage : ∀ b, (s.move fs u).stack (.page b) = s.stack (.page b) := by
    intro b
    show Function.update s.stack s.cur fs (.page b) = s.stack (.page b)
    rw [hcur, Function.update_of_ne (by simp)]
  have hboot : (s.move fs u).stack .boot = fs := by
    show Function.update s.stack s.cur fs .boot = fs
    rw [hcur, Function.update_self]
  refine ⟨fun k hk => absurd hk (hrun k), fun k hc => absurd hcur hc, ?_, ?_, ?_, ?_, ?_⟩
  · intro f rest hst
    exact hidle f rest (hboot.symm.trans hst)
  · intro pc rest hfr
    rw [move_frames] at hfr
    exact (hpass pc rest hfr).congr fun _ => rfl
  · intro rest hfr
    rw [move_frames] at hfr
    exact hexit rest hfr
  · intro b hb
    rw [hpage b] at hb
    show u.entryDone (.page b) = false ∧ u.entryCalls (.page b) = 0
    rw [hdone, hcalls]
    exact h.fresh b hb
  · intro j b hj
    rw [hpage b]
    show _ ∨ Shape _ (u.entryDone (.page b)) (u.entryCalls (.page b)) _
    rw [hdone, hcalls]
    exact h.shape j b hj

lemma setState_state (i : Slot) (st : ProcState) (j : Slot) :
    ((s.setState i st).procs j).state = if j = i then st else (s.procs j).state := by
  by_cases hj : j = i
  · simp [setState, setProc, hj]
  · simp [setState, setProc, hj]

lemma setState_stack (i : Slot) (st : ProcState) (j : Slot) :
    ((s.setState i st).procs j).stack = (s.procs j).stack := by
  by_cases hj : j = i
  · rw [hj]
    simp [setState, setProc]
  · simp [setState, setProc, hj]

/-- **The current process sets its own state**: `PROC_RUNNABLE` in `yield`, or `PROC_ZOMBIE`. -/
lemma Alive.setOwn {st : ProcState} (h : Alive s) (hcur : s.cur = .page a) (hk : (s.procs k).stack = some a)
    (hinj : ∀ j, (s.procs j).stack = some a → j = k) (hsome : s.current = some k)
    (hsched : ∀ pc rest, s.frames ≠ .sched pc :: rest) (hst : st ≠ .running)
    (htop : (∃ p rest, fs = .yield .clearCurrent p :: rest) ∨ st = .zombie)
    (hbelow : (∀ pc rest, fs ≠ .sched pc :: rest) ∧ ∀ b rest, fs ≠ .main b :: rest)
    (hshape : Shape (st = .zombie) (s.entryDone (.page a)) (s.entryCalls (.page a)) fs) :
    Alive ((s.setState k st).setFrames fs) := by
  set s' := (s.setState k st).setFrames fs with hs'
  have hfr' : s'.frames = fs := frames_setFrames ..
  have hstate : ∀ j, (s'.procs j).state = if j = k then st else (s.procs j).state :=
    fun j => setState_state k st j
  have hstack : ∀ j, (s'.procs j).stack = (s.procs j).stack := fun j => setState_stack k st j
  have hpage : s'.stack (.page a) = fs := by
    show Function.update s.stack s.cur fs (.page a) = fs
    rw [hcur, Function.update_self]
  have hother : ∀ b, b ≠ a → s'.stack (.page b) = s.stack (.page b) := by
    intro b hb
    show Function.update s.stack s.cur fs (.page b) = s.stack (.page b)
    rw [hcur, Function.update_of_ne (by simpa using hb)]
  have hboot : s'.stack .boot = s.stack .boot := by
    show Function.update s.stack s.cur fs .boot = s.stack .boot
    rw [hcur, Function.update_of_ne (by simp)]
  refine ⟨?_, ?_, ?_, ?_, ?_, ?_, ?_⟩
  · intro j hj
    rw [hstate] at hj
    split_ifs at hj with hjk
    · exact absurd hj hst
    · exact absurd (h.running_current hsome hsched hj).1 hjk
  · intro j _ hj hnc
    obtain rfl := Option.some.inj (hsome.symm.trans hj)
    rcases htop with ⟨p, rest, hfs⟩ | hz
    · exact absurd ⟨p, rest, hfr'.trans hfs⟩ hnc
    · rw [hstate, if_pos rfl]
      exact .inr hz
  · intro f rest hst
    exact h.bootTop f rest (hboot.symm.trans hst)
  · intro pc rest hfr
    exact absurd (hfr'.symm.trans hfr) (hbelow.1 pc rest)
  · intro rest hfr
    exact absurd (hfr'.symm.trans hfr) (hbelow.2 true rest)
  · intro b hb
    by_cases hba : b = a
    · subst hba
      rw [hpage] at hb
      rcases hshape.base with ⟨pre, pc, hfs, _⟩
      exact absurd (hfs.symm.trans hb) (by simp)
    · rw [hother b hba] at hb
      exact h.fresh b hb
  · intro j b hj
    rw [hstack] at hj
    rw [hstate]
    by_cases hba : b = a
    · subst hba
      obtain rfl := hinj j hj
      rw [if_pos rfl, hpage]
      exact .inr hshape
    · have hjk : j ≠ k := by
        rintro rfl
        exact hba (Option.some.inj (hj.symm.trans hk))
      rw [if_neg hjk, hother b hba]
      exact h.shape j b hj

/-- **`scheduler` sets the state of the process it picked.** -/
lemma Alive.setPicked {i : Slot} (h : Alive s) (hcur : s.cur = .boot) (hi : (s.procs i).state = .runnable)
    (hrun : ∀ k, (s.procs k).state ≠ .running) :
    Alive ((s.setState i .running).setFrames [.sched (.setCurrent i), .main false]) := by
  set s' := (s.setState i .running).setFrames [.sched (.setCurrent i), .main false] with hs'
  have hfr' : s'.frames = [.sched (.setCurrent i), .main false] := frames_setFrames ..
  have hstate : ∀ j, (s'.procs j).state = if j = i then .running else (s.procs j).state :=
    fun j => setState_state i .running j
  have hstack : ∀ j, (s'.procs j).stack = (s.procs j).stack := fun j => setState_stack i .running j
  have hpage : ∀ b, s'.stack (.page b) = s.stack (.page b) := by
    intro b
    show Function.update s.stack s.cur _ (.page b) = s.stack (.page b)
    rw [hcur, Function.update_of_ne (by simp)]
  have hboot : s'.stack .boot = [.sched (.setCurrent i), .main false] := by
    rw [← hfr', frames]
    exact congrArg s'.stack hcur.symm
  refine ⟨?_, fun k hc => absurd hcur hc, ?_, ?_, ?_, ?_, ?_⟩
  · intro j hj
    rw [hstate] at hj
    split_ifs at hj with hji
    · exact .inl ⟨_, _, hfr', hji.symm⟩
    · exact absurd hj (hrun j)
  · intro f rest hst
    rw [← (List.cons.inj (hboot.symm.trans hst)).1]
    simp [Idle]
  · intro pc rest hfr
    obtain ⟨rfl, _⟩ : .setCurrent i = pc ∧ [.main false] = rest := by simpa using hfr'.symm.trans hfr
    show (s'.procs i).state = .running
    rw [hstate, if_pos rfl]
  · intro rest hfr
    exact absurd (hfr'.symm.trans hfr) (by simp)
  · intro b hb
    rw [hpage] at hb
    exact h.fresh b hb
  · intro j b hj
    rw [hstack] at hj
    rw [hstate, hpage]
    by_cases hji : j = i
    · subst hji
      have hz : ((s.procs j).state = .zombie) ↔ (ProcState.running = .zombie) := by simp [hi]
      rw [if_pos rfl]
      rcases h.shape j b hj with hempty | hshape
      · exact .inl ⟨hempty.1, by simp, hempty.2.2⟩
      · exact .inr (hshape.congr hz)
    · rw [if_neg hji]
      exact h.shape j b hj

/-! ## One step -/

/-- **The process on the hart**, its stack and its state. -/
lemma Alive.active {f : Frame} {rest : List Frame} (h : Alive s) (hwf : Wf s) (hfr : s.frames = f :: rest)
    (hsome : s.current = some k) (hne : ∀ pc, f ≠ .sched pc) :
    ∃ a, s.cur = .page a ∧ (s.procs k).stack = some a ∧ (∀ j, (s.procs j).stack = some a → j = k) ∧
      Shape ((s.procs k).state = .zombie) (s.entryDone (.page a)) (s.entryCalls (.page a)) (f :: rest) ∧
      ((∀ p, f ≠ .yield .clearCurrent p) → (s.procs k).state = .running ∨ (s.procs k).state = .zombie) := by
  rcases hwf.activeTop hfr hsome hne with ⟨a, hcur, hk, _, _, _, _⟩
  have hst : s.stack (.page a) = f :: rest := by
    rw [← hfr, frames, hcur]
  refine ⟨a, hcur, hk, fun j hj => hwf.stackInj j k a hj hk, ?_, ?_⟩
  · rcases h.shape k a hk with ⟨hempty, _⟩ | hshape
    · exact absurd (hst.symm.trans hempty) (by simp)
    · rw [hst] at hshape
      exact hshape
  · intro hclear
    refine h.onHart k (fun hc => absurd (hcur.symm.trans hc) (by simp)) hsome ?_
    rintro ⟨p, rest', hfr'⟩
    exact hclear p (List.cons.inj (hfr.symm.trans hfr')).1

/-- A frame that says nothing about the state of its process. -/
def neutral : Frame → Prop
  | .entry | .trap _ | .create .. => True
  | .yield pc _ => pc ≠ .setRunnable ∧ pc ≠ .clearCurrent
  | _ => False

lemma neutral_spec {g : Frame} (h : neutral g) : isForkret g = false ∧ (∀ p, g ≠ .yield .setRunnable p) ∧
    (∀ p, g ≠ .yield .clearCurrent p) ∧ (∀ pc, g ≠ .sched pc) ∧ ∀ b, g ≠ .main b := by
  cases g with
  | yield pc p => exact ⟨rfl, fun _ hp => h.1 (Frame.yield.inj hp).1, fun _ hp => h.2 (Frame.yield.inj hp).1,
      by simp, by simp⟩
  | main => exact absurd h (by simp [neutral])
  | sched => exact absurd h (by simp [neutral])
  | forkret => exact absurd h (by simp [neutral])
  | _ => exact ⟨rfl, by simp, by simp, by simp, by simp⟩

/-- The frames below the top of a process's stack. -/
lemma below_spec {claimed : List (Slot × Request)} {fs : List Frame} (h : ∀ g ∈ fs, Below claimed k g) :
    (∀ pc rest, fs ≠ .sched pc :: rest) ∧ ∀ b rest, fs ≠ .main b :: rest := by
  refine ⟨?_, ?_⟩
  · rintro pc rest rfl
    exact absurd (h _ List.mem_cons_self) (by simp [Below])
  · rintro b rest rfl
    exact absurd (h _ List.mem_cons_self) (by simp [Below])

/-- **Neutral frames come and go** on the stack of the current process. -/
lemma Alive.exchange {f : Frame} {L rest : List Frame} (h : Alive s) (hwf : Wf s)
    (hfr : s.frames = f :: rest) (hsome : s.current = some k) (hf : neutral f) (hnew : ∀ g ∈ L, neutral g)
    (hdone : u.entryDone = s.entryDone) (hcalls : u.entryCalls = s.entryCalls) :
    Alive (s.move (L ++ rest) u) := by
  rcases neutral_spec hf with ⟨hforkret, _, hclear, hsched, _⟩
  rcases h.active hwf hfr hsome hsched with ⟨a, hcur, hk, hinj, hshape, hst⟩
  rcases hwf.activeTop hfr hsome hsched with ⟨_, _, _, _, _, hrest, _⟩
  have hnosched : ∀ pc rest, s.frames ≠ .sched pc :: rest := by
    intro pc rest' hfr'
    exact hsched pc (List.cons.inj (hfr.symm.trans hfr')).1
  have hshape' : Shape ((s.procs k).state = .zombie) (s.entryDone (.page a)) (s.entryCalls (.page a))
      (L ++ rest) := by
    refine hshape.exchange hforkret (fun g hg => (neutral_spec (hnew g hg)).1) ?_ ?_
    · intro _ p hp
      exact absurd rfl ((neutral_spec (hnew _ hp)).2.1 p)
    · intro p hp
      exact absurd rfl ((neutral_spec (hnew _ (List.mem_of_mem_tail hp))).2.2.1 p)
  refine h.goOn hcur hk hinj hsome (by simp [hdone]) (by simp [hcalls]) hnosched (hst hclear) ?_ ?_ ?_
  · -- a frame that returns may uncover a `yield` about to clear `current_process`: then the process has ended
    intro p rest' heq hrun
    cases L with
    | nil =>
        have hrest' : rest = .yield .clearCurrent p :: rest' := heq
        have hz := hshape.tail p (hrest' ▸ List.mem_cons_self)
        exact absurd (hrun.symm.trans hz) (by simp)
    | cons g L => exact (neutral_spec (hnew g List.mem_cons_self)).2.2.1 p (List.cons.inj heq).1
  · cases L with
    | nil => exact below_spec hrest
    | cons g L =>
        have hg := (neutral_spec (hnew g List.mem_cons_self)).2.2.2
        exact ⟨fun pc _ heq => hg.1 pc (List.cons.inj heq).1, fun b _ heq => hg.2 b (List.cons.inj heq).1⟩
  · rw [hdone, hcalls]
    exact hshape'

/-- `proc_create` runs on the stack of the current process, or in `main`. -/
lemma Wf.createCaller {r : Request} {pc : CreatePc} {rest : List Frame} (h : Wf s)
    (hfr : s.frames = .create r pc :: rest) :
    (∃ k, s.current = some k) ∨ s.cur = .boot ∧ rest = [.main false] ∧ s.current = none := by
  have hflow := h.flowOk
  rw [hfr] at hflow
  cases hcur : s.cur with
  | boot =>
      rcases (hflow.1 hcur).top with ⟨_, hidle, _⟩ | ⟨hnone, hcore⟩ | ⟨hnone, _, hrest⟩ | ⟨i, _, _, _, hi⟩
      · exact absurd hidle (by simp [Idle])
      · cases hcore with
        | create => exact .inr ⟨rfl, rfl, hnone⟩
      · exact .inr ⟨rfl, hrest, hnone⟩
      · exact absurd hi (by simp)
  | page a =>
      rcases h.onHart hcur with ⟨k, _, _, _, hpf⟩
      rw [hfr] at hpf
      rcases hpf.top with ⟨hs, _, _⟩ | ⟨_, hidle, _⟩ | ⟨_, hf, _⟩ | ⟨_, hf, _⟩
      · exact .inl ⟨k, hs⟩
      · exact absurd hidle (by simp [Idle])
      · exact absurd hf (by simp)
      · exact absurd hf (by simp)

/-- **`proc_create` goes on, or returns**, wherever it was called. -/
lemma Alive.createStep {r : Request} {pc : CreatePc} {L rest : List Frame} (h : Alive s) (hwf : Wf s)
    (hfr : s.frames = .create r pc :: rest) (hnew : L = [] ∨ ∃ pc', L = [.create r pc'])
    (hdone : u.entryDone = s.entryDone) (hcalls : u.entryCalls = s.entryCalls) :
    Alive (s.move (L ++ rest) u) := by
  rcases hwf.createCaller hfr with ⟨k, hsome⟩ | ⟨hcur, rfl, hnone⟩
  · refine h.exchange hwf hfr hsome trivial ?_ hdone hcalls
    intro g hg
    rcases hnew with rfl | ⟨pc', rfl⟩
    · exact absurd hg (by simp)
    · rw [List.mem_singleton.mp hg]
      trivial
  · have hrun := h.notRunning hnone (by
      intro pc' rest' j hfr' _
      exact absurd (hfr.symm.trans hfr') (by simp))
    rcases hnew with rfl | ⟨pc', rfl⟩
    · refine h.moveBoot hcur hrun hdone hcalls ?_ (by simp) (by simp)
      intro f rest' heq
      rw [← (List.cons.inj heq).1]
      simp [Idle]
    · refine h.moveBoot hcur hrun hdone hcalls ?_ (by simp) (by simp)
      intro f rest' heq
      rw [← (List.cons.inj heq).1]
      simp [Idle]

lemma applyStores_state {i : Slot} {r : Request} : ∀ (fs : List (Proc → Proc)) (p : Proc),
    (∀ f ∈ fs, f ∈ createStores i a r) → (p.state = .unused ∨ p.state = .runnable) →
      (applyStores fs p).state = .unused ∨ (applyStores fs p).state = .runnable
  | [], _, _, hp => hp
  | f :: fs, p, hfs, hp => by
      refine applyStores_state fs (f p) (fun g hg => hfs g (List.mem_cons_of_mem f hg)) ?_
      rcases (store_keeps (hfs f List.mem_cons_self) p).2 with h | h
      · rw [h]
        exact hp
      · exact .inr h

/-- **A store to the slot that is being filled.** -/
lemma Alive.setFilled {i : Slot} {p : Proc} (h : Alive s) {r : Request} {pc : CreatePc} {rest : List Frame}
    (hfr : s.frames = .create r pc :: rest) (hcurrent : s.current ≠ some i)
    (hstate : p.state = .unused ∨ p.state = .runnable) (hstack : p.stack = none ∨ p.stack = some a)
    (hempty : s.stack (.page a) = []) (hcur : s.cur ≠ .page a) : Alive (s.setProc i p) := by
  have hself : (s.setProc i p).procs i = p := Function.update_self ..
  have hne : ∀ j, j ≠ i → (s.setProc i p).procs j = s.procs j := fun j hj => Function.update_of_ne hj _ _
  refine ⟨?_, ?_, h.bootTop, ?_, ?_, h.fresh, ?_⟩
  · intro j hj
    by_cases hji : j = i
    · rw [hji, hself] at hj
      rcases hstate with hst | hst <;> exact absurd (hj.symm.trans hst) (by simp)
    · rw [hne j hji] at hj
      exact h.running j hj
  · intro j hc hj hclear
    have hji : j ≠ i := by
      rintro rfl
      exact hcurrent hj
    rw [hne j hji]
    exact h.onHart j hc hj hclear
  · intro pc' rest' hfr'
    exact absurd (hfr.symm.trans hfr') (by simp)
  · intro rest' hfr'
    exact absurd (hfr.symm.trans hfr') (by simp)
  · intro j b hj
    by_cases hji : j = i
    · rw [hji, hself] at hj ⊢
      have hba : b = a := by
        rcases hstack with hst | hst
        · exact absurd (hj.symm.trans hst) (by simp)
        · exact Option.some.inj (hj.symm.trans hst)
      rw [hba]
      refine .inl ⟨hempty, ?_, hcur⟩
      rcases hstate with hst | hst <;> rw [hst] <;> simp
    · rw [hne j hji] at hj ⊢
      exact h.shape j b hj

lemma Alive.filled {r : Request} {id n : ℕ} {i : Slot} {f : Proc → Proc} {pc' : CreatePc} {rest : List Frame}
    (h : Alive s) (hwf : Wf s) (hfr : s.frames = .create r (.fill id n i a) :: rest)
    (hf : f ∈ createStores i a r) (v : ℕ) :
    Alive (({ s with sregs := v }.setProc i (f (s.procs i))).setFrames (.create r pc' :: rest)) := by
  rcases hwf.fill r _ rest hfr with ⟨_, _, ⟨p, hp, hpstack, hprocs⟩, _, _, hempty, _, _⟩
  have hold : (s.procs i).state = .unused ∨ (s.procs i).state = .runnable := by
    rw [hprocs]
    exact applyStores_state (a := a) (r := r) (i := i) _ p (fun g hg => List.mem_of_mem_take hg) (.inl hp)
  have hnew : (f (s.procs i)).state = .unused ∨ (f (s.procs i)).state = .runnable := by
    rcases (store_keeps hf (s.procs i)).2 with hst | hst
    · rw [hst]
      exact hold
    · exact .inr hst
  have hstack : (f (s.procs i)).stack = none ∨ (f (s.procs i)).stack = some a := by
    rcases (store_keeps hf (s.procs i)).1 with hst | hst
    · rw [hst, hprocs]
      exact applyStores_stack (k := i) (a := a) (r := r) _ p (fun g hg => List.mem_of_mem_take hg) (.inl hpstack)
    · exact .inr hst
  have hcurrent : s.current ≠ some i := by
    intro hsome
    rcases hwf.activeTop hfr hsome (by simp) with ⟨b, hcur, hb, _⟩
    exact hwf.filling_stack ⟨r, id, n, a, rest, hfr⟩ hb hcur
  have hmoved : Alive (s.move ([.create r pc'] ++ rest) ⟨s.sie, v, s.returned, s.entryCalls, s.entryDone⟩) :=
    h.createStep hwf hfr (.inr ⟨pc', rfl⟩) rfl rfl
  have hcurPage : s.cur ≠ .page a := by
    intro hc
    rw [frames, hc, hempty] at hfr
    exact absurd hfr (by simp)
  exact hmoved.setFilled (move_frames ..) hcurrent hnew hstack
    ((Function.update_of_ne (Ne.symm hcurPage) _ _).trans hempty) hcurPage

/-- **The steps of `scheduler` that move control only.** -/
lemma SchedNext.passOk {pc pc' : SchedPc} (hpc : SchedNext s pc pc') (hok : PassOk s pc)
    (hrun : ∀ k, (s.procs k).state ≠ .running) : PassOk s pc' := by
  -- a slot that is in use, and neither runnable nor running, has ended
  have hfin : ∀ i, (s.procs i).state ≠ .runnable → Finished s i := by
    intro i hi
    cases hst : (s.procs i).state with
    | unused => exact .inl hst
    | zombie => exact .inr hst
    | runnable => exact absurd hst hi
    | running => exact absurd hst (hrun i)
  cases hpc with
  | start => exact fun j hj => absurd hj (Nat.not_lt_zero _)
  | @loop i found h =>
      cases found with
      | true => trivial
      | false => exact fun j hj => hok j (Fin.lt_def.mp hj)
  | @loopEnd i found h =>
      cases found with
      | true => trivial
      | false => exact fun j => hok j (lt_of_lt_of_le j.isLt (Nat.le_of_not_lt h))
  | runnable h => exact h
  | @skip i found h =>
      cases found with
      | true => trivial
      | false =>
          intro j hj
          rcases Nat.lt_succ_iff_lt_or_eq.mp hj with hlt | heq
          · exact hok j (Fin.lt_def.mpr hlt)
          · rw [Fin.ext heq]
            exact hfin i h
  | returned => trivial
  | found => trivial
  | again => trivial
  | search => exact hok
  | scan => exact hok
  | scanEnd => exact hok
  | @active i h => exact absurd (hok i) (fun hf => hf.elim h.1 h.2)
  | inactive => exact hok
  | wait => exact hok
  | wake => trivial

lemma SchedNext.not_dispatching {pc pc' : SchedPc} (hpc : SchedNext s pc pc') (k : Slot) :
    ¬ dispatching k pc := by
  cases hpc <;> simp [dispatching]

/-- `scheduler` between picking a process and switching to it. -/
lemma Alive.dispatchStep {i : Slot} {pc pc' : SchedPc} {s' : Kernel} (h : Alive s)
    (hfr : s.frames = [.sched pc, .main false]) (hcur : s.cur = .boot) (hpc : dispatching i pc)
    (hpc' : dispatching i pc') (hprocs : s'.procs = s.procs) (hcur' : s'.cur = s.cur)
    (hstack : s'.stack = Function.update s.stack s.cur [.sched pc', .main false])
    (hdone : s'.entryDone = s.entryDone) (hcalls : s'.entryCalls = s.entryCalls) : Alive s' := by
  have hfr' : s'.frames = [.sched pc', .main false] := by
    rw [frames, hstack, hcur', Function.update_self]
  have hpage : ∀ b, s'.stack (.page b) = s.stack (.page b) := by
    intro b
    rw [hstack, hcur, Function.update_of_ne (by simp)]
  have huniq : ∀ {j : Slot}, dispatching j pc → j = i := by
    intro j hj
    cases pc with
    | setCurrent => exact hj.symm.trans hpc
    | save => exact hj.symm.trans hpc
    | restore => exact hj.symm.trans hpc
    | _ => exact absurd hj (by simp [dispatching])
  have hstate : (s.procs i).state = .running := by
    have hok := h.pass pc _ hfr
    cases pc with
    | setCurrent j => exact hpc ▸ hok
    | save j => exact hpc ▸ hok
    | restore j => exact hpc ▸ hok
    | _ => exact absurd hpc (by simp [dispatching])
  refine ⟨?_, ?_, ?_, ?_, ?_, ?_, ?_⟩
  · intro j hj
    rw [hprocs] at hj
    rcases h.running j hj with ⟨pc₀, rest, hfr₀, hj₀⟩ | ⟨hc, _⟩
    · obtain ⟨rfl, _⟩ : pc = pc₀ ∧ [.main false] = rest := by simpa using hfr.symm.trans hfr₀
      rw [huniq hj₀]
      exact .inl ⟨pc', _, hfr', hpc'⟩
    · exact absurd hcur hc
  · intro j hc
    exact absurd (hcur'.trans hcur) hc
  · intro f rest hst
    rw [hstack, hcur, Function.update_self] at hst
    rw [← (List.cons.inj hst).1]
    simp [Idle]
  · intro pc₀ rest hfr₀
    obtain ⟨rfl, _⟩ : pc' = pc₀ ∧ [.main false] = rest := by simpa using hfr'.symm.trans hfr₀
    cases pc' with
    | setCurrent j => exact (congrArg (fun g => (g j).state) hprocs).trans (hpc' ▸ hstate)
    | save j => exact (congrArg (fun g => (g j).state) hprocs).trans (hpc' ▸ hstate)
    | restore j => exact (congrArg (fun g => (g j).state) hprocs).trans (hpc' ▸ hstate)
    | _ => exact absurd hpc' (by simp [dispatching])
  · intro rest hfr₀
    exact absurd (hfr'.symm.trans hfr₀) (by simp)
  · intro b hb
    rw [hpage] at hb
    rw [hdone, hcalls]
    exact h.fresh b hb
  · intro j b hj
    rw [hprocs] at hj ⊢
    rw [hpage, hdone, hcalls, hcur']
    exact h.shape j b hj

/-- **The process gets the hart.** -/
lemma Alive.dispatched {i : Slot} {v : ℕ} (h : Alive s) (hwf : Wf s)
    (hfr : s.frames = [.sched (.restore i), .main false]) (hcur : s.cur = .boot) (hsome : s.current = some i)
    (hstack : (s.procs i).stack = some a)
    (hfs : fs = [.forkret .test] ∧ s.stack (.page a) = [] ∨
      ∃ rest, fs = .yield .ret (some i) :: rest ∧ s.stack (.page a) = .yield .restore (some i) :: rest) :
    Alive { s with
      dispatches := s.dispatches ++ [i]
      hasRun := Function.update s.hasRun i true
      cur := .page a
      stack := Function.update s.stack (.page a) fs
      sregs := v } := by
  have hstate : (s.procs i).state = .running := h.pass _ _ hfr
  have hother : ∀ b, b ≠ a → Function.update s.stack (.page a) fs (.page b) = s.stack (.page b) :=
    fun b hb => Function.update_of_ne (by simpa using hb) _ _
  have hboot : Function.update s.stack (.page a) fs .boot = s.stack .boot :=
    Function.update_of_ne (by simp) _ _
  have hshape : Shape ((s.procs i).state = .zombie) (s.entryDone (.page a)) (s.entryCalls (.page a)) fs := by
    rcases hfs with ⟨rfl, hempty⟩ | ⟨rest, rfl, hparked⟩
    · have hfresh := h.fresh a hempty
      refine .bottom hfresh.1 (.inl hfresh.2) ?_
      intro hz
      exact absurd (hstate.symm.trans hz) (by simp)
    · rcases h.shape i a hstack with ⟨hempty, _⟩ | hshape
      · exact absurd (hparked.symm.trans hempty) (by simp)
      · rw [hparked] at hshape
        exact hshape.exchange (L := [.yield .ret (some i)]) rfl (by simp [isForkret]) (by simp) (by simp)
  have htop : (∀ p rest, fs ≠ .yield .clearCurrent p :: rest) ∧ (∀ pc rest, fs ≠ .sched pc :: rest) ∧
      ∀ b rest, fs ≠ .main b :: rest := by
    rcases hfs with ⟨rfl, _⟩ | ⟨rest, rfl, _⟩ <;> simp
  have hfr' : Function.update s.stack (.page a) fs (.page a) = fs := Function.update_self ..
  refine ⟨?_, ?_, ?_, ?_, ?_, ?_, ?_⟩
  · intro j hj
    rcases h.running j hj with ⟨pc, rest, hfr₀, hj₀⟩ | ⟨hc, _⟩
    · obtain ⟨rfl, _⟩ : .restore i = pc ∧ [.main false] = rest := by simpa using hfr.symm.trans hfr₀
      obtain rfl : i = j := hj₀
      refine .inr ⟨by simp, hsome, ?_⟩
      rintro ⟨p, rest, hp⟩
      exact htop.1 p rest (hfr'.symm.trans hp)
    · exact absurd hcur hc
  · intro j _ hj _
    obtain rfl := Option.some.inj (hsome.symm.trans hj)
    exact .inl hstate
  · intro f rest hst
    exact h.bootTop f rest (hboot.symm.trans hst)
  · intro pc rest hp
    exact absurd (hfr'.symm.trans hp) (htop.2.1 pc rest)
  · intro rest hp
    exact absurd (hfr'.symm.trans hp) (htop.2.2 true rest)
  · intro b hb
    by_cases hba : b = a
    · subst hba
      dsimp only at hb
      rw [Function.update_self] at hb
      rcases hshape.base with ⟨pre, pc, hfs', _⟩
      exact absurd (hfs'.symm.trans hb) (by simp)
    · exact h.fresh b ((hother b hba).symm.trans hb)
  · intro j b hj
    dsimp only
    by_cases hba : b = a
    · subst hba
      obtain rfl := hwf.stackInj j i b hj hstack
      rw [Function.update_self]
      exact .inr hshape
    · rw [hother b hba]
      rcases h.shape j b hj with ⟨hempty, hz, _⟩ | hold
      · exact .inl ⟨hempty, hz, by simpa using Ne.symm hba⟩
      · exact .inr hold

/-- **The process leaves the hart**, or an interrupt comes and goes while it does. -/
lemma Alive.leaving {f : Frame} {rest : List Frame} (h : Alive s) (hfr : s.frames = f :: rest)
    (hf : isForkret f = false ∧ ∀ pc, f ≠ .sched pc) (hcur : s.cur = .page a)
    (hk : (s.procs k).stack = some a) (hinj : ∀ j, (s.procs j).stack = some a → j = k)
    (hnone : s.current = none)
    (hfs : ∃ L, fs = L ++ rest ∧ ∀ g ∈ L, neutral g)
    (hbelow : (∀ pc rest, fs ≠ .sched pc :: rest) ∧ ∀ b rest, fs ≠ .main b :: rest)
    (hdone : u.entryDone = s.entryDone) (hcalls : u.entryCalls = s.entryCalls) : Alive (s.move fs u) := by
  have hst : s.stack (.page a) = f :: rest := by
    rw [← hfr, frames, hcur]
  have hshape : Shape ((s.procs k).state = .zombie) (s.entryDone (.page a)) (s.entryCalls (.page a))
      (f :: rest) := by
    rcases h.shape k a hk with ⟨hempty, _⟩ | hshape
    · exact absurd (hst.symm.trans hempty) (by simp)
    · rw [hst] at hshape
      exact hshape
  have hrun := h.notRunning hnone (by
    intro pc rest' j hfr' _
    exact hf.2 pc (List.cons.inj (hfr.symm.trans hfr')).1)
  refine h.movePage hcur hk hinj (by simp [hdone]) (by simp [hcalls])
    (fun j hj => absurd hj (hrun j)) (fun j hj => absurd (hnone.symm.trans hj) (by simp)) hbelow ?_
  rcases hfs with ⟨L, rfl, hnew⟩
  rw [hdone, hcalls]
  refine hshape.exchange hf.1 (fun g hg => (neutral_spec (hnew g hg)).1) ?_ ?_
  · intro _ p hp
    exact absurd rfl ((neutral_spec (hnew _ hp)).2.1 p)
  · intro p hp
    exact absurd rfl ((neutral_spec (hnew _ (List.mem_of_mem_tail hp))).2.2.1 p)

/-- **An interrupt** in a resumable state. -/
lemma Alive.interrupted (h : Alive s) (hwf : Wf s) (hok : Resumable s) :
    Alive ({ s with sie := false }.setFrames (.yield .load none :: .trap s.sie :: s.frames)) := by
  have hpage : ∃ a, s.cur = .page a := by
    cases hcur : s.cur with
    | boot => exact absurd hcur hok.1
    | page a => exact ⟨a, rfl⟩
  rcases hpage with ⟨a, hcur⟩
  rcases hwf.onHart hcur with ⟨k, hk, hused, _, hflow⟩
  have hsched : ∀ pc rest, s.frames ≠ .sched pc :: rest := by
    intro pc rest hfr
    exact hok.1 (hwf.schedTop hfr).1
  have hst : s.stack (.page a) = s.frames := by rw [frames, hcur]
  have hshape : Shape ((s.procs k).state = .zombie) (s.entryDone (.page a)) (s.entryCalls (.page a))
      s.frames := by
    rcases h.shape k a hk with ⟨_, _, hne⟩ | hshape
    · exact absurd hcur hne
    · rw [hst] at hshape
      exact hshape
  have hnew : ∀ g ∈ [.yield .load none, .trap s.sie], isForkret g = false ∧
      (∀ p, g ≠ .yield .setRunnable p) ∧ ∀ p, g ≠ .yield .clearCurrent p := by simp [isForkret]
  have hinj : ∀ j, (s.procs j).stack = some a → j = k := fun j hj => hwf.stackInj j k a hj hk
  rcases Option.eq_none_or_eq_some s.current with hnone | ⟨j, hsome⟩
  · have hrun := h.notRunning hnone fun pc rest _ hfr _ => hsched pc rest hfr
    refine h.movePage (u := ⟨false, s.sregs, s.returned, s.entryCalls, s.entryDone⟩) hcur hk hinj
      (fun _ _ => rfl) (fun _ _ => rfl) (fun j hj => absurd hj (hrun j))
      (fun j hj => absurd (hnone.symm.trans hj) (by simp)) (by simp) (hshape.push hnew ?_)
    intro p rest hfr
    rcases hwf.yieldTop hfr with ⟨_, hidle⟩ | ⟨j, hj, _⟩ | ⟨_, _, _, _, _, _, _, _, hpc | ⟨hpc, _⟩⟩
    · exact absurd hidle (by simp [Idle])
    · exact absurd (hnone.symm.trans hj) (by simp)
    · exact absurd hpc (by simp)
    · exact absurd hpc (by simp)
  · obtain rfl : j = k := by
      rw [hsome] at hflow
      generalize ho : some j = o at hflow
      generalize s.frames = fs at hflow
      cases hflow with
      | active => exact Option.some.inj ho
      | window => exact Option.some.inj ho
      | saving => exact absurd ho (by simp)
      | saved => exact absurd ho (by simp)
    -- a process whose `yield` is about to clear `current_process` has ended: it is not runnable, and not running
    have hzombie : ∀ p rest, s.frames = .yield .clearCurrent p :: rest → (s.procs j).state = .zombie := by
      intro p rest hfr
      obtain rfl : p = some j := by
        rcases hwf.yieldTop hfr with ⟨_, hidle⟩ | ⟨i, hi, hb, _⟩ | ⟨_, _, hnone, _⟩
        · exact absurd hidle (by simp [Idle])
        · rw [Option.some.inj (hsome.symm.trans hi)]
          exact hb
        · exact absurd (hnone.symm.trans hsome) (by simp)
      cases hstate : (s.procs j).state with
      | zombie => rfl
      | unused => exact absurd hstate hused
      | runnable => exact absurd hstate (hok.2.2 j rest hfr)
      | running => exact absurd ⟨_, _, hfr⟩ (h.running_current hsome hsched hstate).2
    have hstate : (s.procs j).state = .running ∨ (s.procs j).state = .zombie := by
      by_cases hclear : clearing s
      · rcases hclear with ⟨p, rest, hfr⟩
        exact .inr (hzombie p rest hfr)
      · exact h.onHart j hok.1 hsome hclear
    exact h.goOn (u := ⟨false, s.sregs, s.returned, s.entryCalls, s.entryDone⟩) hcur hk hinj hsome
      (fun _ _ => rfl) (fun _ _ => rfl) hsched hstate (by simp) (by simp) (hshape.push hnew hzombie)

/-- No frame of `scheduler` or `main` is on a process's stack. -/
lemma ProcFlow.notBoot {claimed : List (Slot × Request)} {c : Context} {last : Option Context}
    {o : Option Slot} (h : ProcFlow claimed k a c last o fs) :
    (∀ pc rest, fs ≠ .sched pc :: rest) ∧ ∀ b rest, fs ≠ .main b :: rest := by
  refine ⟨?_, ?_⟩
  · rintro pc rest rfl
    rcases h.top with ⟨_, hf, _⟩ | ⟨_, hidle, _⟩ | ⟨_, hf, _⟩ | ⟨_, hf, _⟩
    · exact absurd hf (by simp [Below, isWindow])
    · exact absurd hidle (by simp [Idle])
    · exact absurd hf (by simp)
    · exact absurd hf (by simp)
  · rintro b rest rfl
    rcases h.top with ⟨_, hf, _⟩ | ⟨_, hidle, _⟩ | ⟨_, hf, _⟩ | ⟨_, hf, _⟩
    · exact absurd hf (by simp [Below, isWindow])
    · exact absurd hidle (by simp [Idle])
    · exact absurd hf (by simp)
    · exact absurd hf (by simp)

lemma neutral_of_idle {g : Frame} (h : Idle g) : neutral g := by
  cases g with
  | trap => trivial
  | yield pc p =>
      cases pc with
      | load => exact ⟨by simp, by simp⟩
      | test => exact ⟨by simp, by simp⟩
      | _ => exact absurd h (by simp [Idle])
  | _ => exact absurd h (by simp [Idle])

/-- **An interrupt that found no current process** goes on or returns. -/
lemma Alive.idleStep {f : Frame} {ints rest : List Frame} (h : Alive s) (hwf : Wf s) (hfr : s.frames = f :: rest)
    (hf : Idle f) (hnone : s.current = none) (hints : ∀ g ∈ ints, Idle g)
    (hdone : u.entryDone = s.entryDone) (hcalls : u.entryCalls = s.entryCalls) :
    Alive (s.move (ints ++ rest) u) := by
  cases hcur : s.cur with
  | boot =>
      rw [frames, hcur] at hfr
      exact absurd hf (h.bootTop f rest hfr)
  | page a =>
      rcases neutral_spec (neutral_of_idle hf) with ⟨hforkret, _, _, hsched, _⟩
      rcases (hwf.onPage a hcur).1 with ⟨k, hk⟩
      refine h.leaving hfr ⟨hforkret, hsched⟩ hcur hk (fun j hj => hwf.stackInj j k a hj hk) hnone
        ⟨ints, rfl, fun g hg => neutral_of_idle (hints g hg)⟩ ?_ hdone hcalls
      cases ints with
      | cons g ints =>
          have hg := (neutral_spec (neutral_of_idle (hints g List.mem_cons_self))).2.2.2
          exact ⟨fun pc _ heq => hg.1 pc (List.cons.inj heq).1, fun b _ heq => hg.2 b (List.cons.inj heq).1⟩
      | nil => exact ((hwf.idleTop hfr hf hnone).1.2 a k hcur hk).notBoot

/-- **`scheduler` has the hart again.** -/
lemma Alive.parked {i : Slot} {v : ℕ} (h : Alive s) (hrun : ∀ k, (s.procs k).state ≠ .running) :
    Alive { s with
      cur := .boot
      stack := Function.update s.stack .boot [.sched (.clearCurrent i), .main false]
      sregs := v } := by
  have hpage : ∀ b, Function.update s.stack .boot [.sched (.clearCurrent i), .main false] (.page b) =
      s.stack (.page b) := fun b => Function.update_of_ne (by simp) _ _
  have hboot : Function.update s.stack .boot [.sched (.clearCurrent i), .main false] .boot =
      [.sched (.clearCurrent i), .main false] := Function.update_self ..
  refine ⟨fun k hk => absurd hk (hrun k), fun k hc => absurd rfl hc, ?_, ?_, ?_, ?_, ?_⟩
  · intro f rest hst
    rw [← (List.cons.inj (hboot.symm.trans hst)).1]
    simp [Idle]
  · intro pc rest hfr
    obtain ⟨rfl, _⟩ : .clearCurrent i = pc ∧ [.main false] = rest := by simpa using hboot.symm.trans hfr
    trivial
  · intro rest hfr
    exact absurd (hboot.symm.trans hfr) (by simp)
  · intro b hb
    exact h.fresh b ((hpage b).symm.trans hb)
  · intro j b hj
    dsimp only
    rw [hpage]
    rcases h.shape j b hj with ⟨hempty, hz, _⟩ | hshape
    · exact .inl ⟨hempty, hz, by simp⟩
    · exact .inr hshape

/-- `forkret` goes on. -/
lemma Alive.forkretStep {pc pc' : ForkretPc} {L rest : List Frame} (h : Alive s) (hwf : Wf s)
    (hfr : s.frames = .forkret pc :: rest) (hsome : s.current = some k) (hnew : ∀ g ∈ L, neutral g)
    (hdone : ∀ a, s.cur = .page a → (∀ b, b ≠ a → u.entryDone (.page b) = s.entryDone (.page b)) ∧
      (s.entryDone (.page a) = pastEntry pc → u.entryDone (.page a) = pastEntry pc'))
    (hcalls : ∀ a, s.cur = .page a → (∀ b, b ≠ a → u.entryCalls (.page b) = s.entryCalls (.page b)) ∧
      ((s.entryCalls (.page a) = 0 ∨ s.entryCalls (.page a) = 1 ∧ pc ≠ .test ∧ pc ≠ .call) →
        u.entryCalls (.page a) = 0 ∨ u.entryCalls (.page a) = 1 ∧ pc' ≠ .test ∧ pc' ≠ .call))
    (hpc : pc = .callYield ∨ pc = .spin → pc' = .callYield ∨ pc' = .spin) :
    Alive (s.move (L ++ .forkret pc' :: rest) u) := by
  rcases h.active hwf hfr hsome (by simp) with ⟨a, hcur, hk, hinj, hshape, hst⟩
  rcases hshape.forkret with ⟨rfl, hd, hc, hz⟩
  have hbottom : Shape ((s.procs k).state = .zombie) (u.entryDone (.page a)) (u.entryCalls (.page a))
      [.forkret pc'] := .bottom ((hdone a hcur).2 hd) ((hcalls a hcur).2 hc) fun hzombie => hpc (hz hzombie)
  refine h.goOn hcur hk hinj hsome (hdone a hcur).1 (hcalls a hcur).1 (by simp [hfr]) (hst (by simp)) ?_ ?_ ?_
  · intro p rest' heq
    cases L with
    | nil => exact absurd heq (by simp)
    | cons g L => exact absurd (List.cons.inj heq).1 ((neutral_spec (hnew g List.mem_cons_self)).2.2.1 p)
  · cases L with
    | nil => simp
    | cons g L =>
        have hg := (neutral_spec (hnew g List.mem_cons_self)).2.2.2
        exact ⟨fun pc _ heq => hg.1 pc (List.cons.inj heq).1, fun b _ heq => hg.2 b (List.cons.inj heq).1⟩
  · refine hbottom.push ?_ (by simp)
    intro g hg
    have hn := neutral_spec (hnew g hg)
    exact ⟨hn.1, hn.2.1, hn.2.2.1⟩

end Local

/-- **One step keeps the states in order.** -/
theorem Alive.step {s s' : Kernel} {a : Act} (h : Alive s) (hwf : Wf s) (hs : Step Resumable s a s') :
    Alive s' := by
  cases does_of_step hwf hs.1 with
  | own => exact ⟨h.running, h.onHart, h.bootTop, h.pass, h.exit, h.fresh, h.shape⟩
  | setSie => exact ⟨h.running, h.onHart, h.bootTop, h.pass, h.exit, h.fresh, h.shape⟩
  | interrupt => exact h.interrupted hwf (hs.2 rfl)
  | @idle f ints rest _ b v hfr hf hnone hints =>
      exact h.idleStep (u := ⟨b, v, s.returned, s.entryCalls, s.entryDone⟩) hwf hfr hf hnone hints rfl rfl
  | @yieldNext k pc pc' p rest v hfr hsome hpc =>
      -- the frame is neutral before and after, but for `setRunnable` and `clearCurrent`
      have hneutral : ∀ pc', pc' ≠ .setRunnable → pc' ≠ .clearCurrent → pc ≠ .setRunnable → pc ≠ .clearCurrent →
          Alive ({ s with sregs := v }.setFrames (.yield pc' (some k) :: rest)) := by
        intro pc' h₁ h₂ h₃ h₄
        exact h.exchange (u := ⟨s.sie, v, s.returned, s.entryCalls, s.entryDone⟩)
          (f := .yield pc p) hwf hfr hsome ⟨h₃, h₄⟩
          (List.forall_mem_singleton.mpr (show neutral (.yield pc' (some k)) from ⟨h₁, h₂⟩)) rfl rfl
      rcases h.active hwf hfr hsome (by simp) with ⟨a, hcur, hk, hinj, hshape, hst⟩
      cases hpc with
      | load => exact hneutral _ (by simp) (by simp) (by simp) (by simp)
      | test => exact hneutral _ (by simp) (by simp) (by simp) (by simp)
      | running hrun =>
          refine h.goOn (u := ⟨s.sie, v, s.returned, s.entryCalls, s.entryDone⟩) hcur hk hinj hsome
            (fun _ _ => rfl) (fun _ _ => rfl) (by simp [hfr]) (.inl hrun) (by simp) (by simp) ?_
          refine hshape.exchange (L := [.yield .setRunnable (some k)]) rfl (by simp [isForkret]) ?_ (by simp)
          intro hz
          exact absurd (hrun.symm.trans hz) (by simp)
      | notRunning hrun =>
          refine h.goOn (u := ⟨s.sie, v, s.returned, s.entryCalls, s.entryDone⟩) hcur hk hinj hsome
            (fun _ _ => rfl) (fun _ _ => rfl) (by simp [hfr]) (hst (by simp)) (fun _ _ _ => hrun) (by simp) ?_
          exact hshape.exchange (L := [.yield .clearCurrent (some k)]) rfl (by simp [isForkret]) (by simp)
            (by simp)
  | @yieldRunnable k rest v hfr hsome =>
      rcases h.active hwf hfr hsome (by simp) with ⟨a, hcur, hk, hinj, hshape, hst⟩
      have hrun : (s.procs k).state = .running := by
        rcases hst (by simp) with hrun | hz
        · exact hrun
        · exact absurd List.mem_cons_self (hshape.noSet hz (some k))
      have hz : ((s.procs k).state = .zombie) ↔ (ProcState.runnable = .zombie) := by simp [hrun]
      have hshape' := (hshape.congr hz).exchange (L := [.yield .clearCurrent (some k)]) rfl (by simp [isForkret])
        (by simp) (by simp)
      have halive : Alive { s with sregs := v } := ⟨h.running, h.onHart, h.bootTop, h.pass, h.exit, h.fresh, h.shape⟩
      have hfr' : ({ s with sregs := v } : Kernel).frames = .yield .setRunnable (some k) :: rest := hfr
      exact halive.setOwn hcur hk hinj hsome (by simp [hfr']) (by simp) (.inl ⟨_, _, rfl⟩) (by simp) hshape'
  | @yieldClear k rest v hfr hsome =>
      rcases h.active hwf hfr hsome (by simp) with ⟨a, hcur, hk, hinj, hshape, _⟩
      have hrun : ∀ j, (s.procs j).state ≠ .running := by
        intro j hj
        exact (h.running_current hsome (by simp [hfr]) hj).2 ⟨_, _, hfr⟩
      have hcleared : Alive ({ s with sregs := v }.setCurrent none) :=
        ⟨fun j hj => absurd hj (hrun j), fun j _ hj => absurd hj (by simp [setCurrent]), h.bootTop, h.pass, h.exit,
          h.fresh, h.shape⟩
      exact hcleared.leaving (u := ⟨s.sie, v, s.returned, s.entryCalls, s.entryDone⟩)
        (f := .yield .clearCurrent (some k)) hfr ⟨rfl, by simp⟩ hcur hk hinj rfl
        ⟨[.yield .save (some k)], rfl, by simp [neutral]⟩ (by simp) rfl rfl
  | @yieldSave k a rest v c hfr hcur hk hnone =>
      have hmoved := h.leaving (u := ⟨s.sie, v, s.returned, s.entryCalls, s.entryDone⟩) hfr ⟨rfl, by simp⟩ hcur hk
        (fun j hj => hwf.stackInj j k a hj hk) hnone
        ⟨[.yield .restore (some k)], rfl, by simp [neutral]⟩ (by simp) rfl rfl
      have hproc : ∀ j, (Function.update s.procs k { s.procs k with context := c } j).state = (s.procs j).state ∧
          (Function.update s.procs k { s.procs k with context := c } j).stack = (s.procs j).stack := by
        intro j
        by_cases hj : j = k
        · rw [hj, Function.update_self]
          exact ⟨rfl, rfl⟩
        · rw [Function.update_of_ne hj]
          exact ⟨rfl, rfl⟩
      exact hmoved.congr (fun j => (hproc j).1) (fun j => (hproc j).2) rfl rfl rfl rfl rfl
  | @park k i a rest v w hfr hcur hk hnone hboot =>
      exact h.parked (h.notRunning hnone (by simp [hfr]))
  | @schedNext pc pc' v hfr hcur hnone hpc =>
      have hrun := h.notRunning_sched hnone hfr hpc.not_dispatching
      refine h.moveBoot (u := ⟨s.sie, v, s.returned, s.entryCalls, s.entryDone⟩) hcur hrun rfl rfl ?_ ?_ (by simp)
      · intro f rest heq
        rw [← (List.cons.inj heq).1]
        simp [Idle]
      · intro pc₀ rest heq
        obtain ⟨rfl, _⟩ : pc' = pc₀ ∧ [.main false] = rest := by simpa using heq
        exact hpc.passOk (h.pass pc _ hfr) hrun
  | @schedExit v hfr hcur hnone =>
      refine h.moveBoot (u := ⟨s.sie, v, s.returned, s.entryCalls, s.entryDone⟩) hcur
        (h.notRunning_sched hnone hfr (by simp [dispatching])) rfl rfl ?_ (by simp) ?_
      · intro f rest heq
        rw [← (List.cons.inj heq).1]
        simp [Idle]
      · intro _ _ j
        exact h.pass _ _ hfr j
  | @schedRunning i v hfr hcur hnone =>
      have halive : Alive { s with sregs := v } :=
        h.congr (fun _ => rfl) (fun _ => rfl) rfl rfl rfl rfl rfl
      exact halive.setPicked hcur (h.pass _ _ hfr) (h.notRunning_sched hnone hfr (by simp [dispatching]))
  | @schedCurrent i v hfr hcur hnone =>
      have hnew : dispatching i (.save i) := rfl
      exact h.dispatchStep hfr hcur rfl hnew rfl rfl rfl rfl rfl
  | @schedSave i v c hfr hcur hsome =>
      have hnew : dispatching i (.restore i) := rfl
      exact h.dispatchStep hfr hcur rfl hnew rfl rfl rfl rfl rfl
  | @dispatch i a fs v w hfr hcur hsome hstack hfs =>
      refine h.dispatched hwf hfr hcur hsome hstack ?_
      rcases hfs with ⟨hfs, _, _, _, _, hempty⟩ | ⟨rest, hfs, _, _, hparked⟩
      · exact .inl ⟨hfs, hempty⟩
      · exact .inr ⟨rest, hfs, hparked⟩
  | @forkretNext k pc pc' rest v hfr hsome hpc =>
      refine h.forkretStep (u := ⟨s.sie, v, s.returned, s.entryCalls, s.entryDone⟩) (L := []) hwf hfr hsome (by simp)
        ?_ ?_ ?_
      · intro a _
        refine ⟨fun _ _ => rfl, ?_⟩
        rcases hpc with ⟨rfl, rfl⟩ | ⟨rfl, rfl⟩ <;> exact fun hd => hd
      · intro a _
        refine ⟨fun _ _ => rfl, ?_⟩
        rcases hpc with ⟨rfl, rfl⟩ | ⟨rfl, rfl⟩ <;> simp
      · rcases hpc with ⟨rfl, rfl⟩ | ⟨rfl, rfl⟩ <;> simp
  | @forkretNoEntry k rest v hfr hsome =>
      refine h.forkretStep (u := ⟨s.sie, v, s.returned, s.entryCalls, Function.update s.entryDone s.cur true⟩)
        (L := []) hwf hfr hsome (by simp) ?_ ?_ (by simp)
      · intro a hcur
        refine ⟨?_, ?_⟩
        · intro b hb
          exact Function.update_of_ne (by simpa [hcur] using hb) _ _
        · intro _
          exact hcur ▸ Function.update_self ..
      · intro a _
        exact ⟨fun _ _ => rfl, fun hc => .inl (by simpa using hc)⟩
  | @forkretCall k rest v hfr hsome =>
      refine h.forkretStep (u := ⟨s.sie, v, s.returned,
          Function.update s.entryCalls s.cur (s.entryCalls s.cur + 1), s.entryDone⟩)
        (L := [.entry]) hwf hfr hsome (by simp [neutral]) ?_ ?_ (by simp)
      · intro a _
        exact ⟨fun _ _ => rfl, fun hd => hd⟩
      · intro a hcur
        refine ⟨?_, ?_⟩
        · intro b hb
          exact Function.update_of_ne (by simpa [hcur] using hb) _ _
        · intro hzero
          refine .inr ⟨?_, by simp, by simp⟩
          have hc : s.entryCalls (.page a) = 0 := by simpa using hzero
          simp only [hcur, Function.update_self, hc]
  | @forkretZombie k rest v hfr hsome =>
      rcases h.active hwf hfr hsome (by simp) with ⟨a, hcur, hk, hinj, hshape, _⟩
      rcases hshape.forkret with ⟨rfl, hd, hc, _⟩
      have halive : Alive { s with sregs := v } :=
        h.congr (fun _ => rfl) (fun _ => rfl) rfl rfl rfl rfl rfl
      have hfr' : ({ s with sregs := v } : Kernel).frames = [.forkret .setZombie] := hfr
      refine halive.setOwn hcur hk hinj hsome (by simp [hfr']) (by simp) (.inr rfl) (by simp) (.bottom hd ?_ (by simp))
      rcases hc with hc | ⟨hc, _⟩
      · exact .inl hc
      · exact .inr ⟨hc, by simp, by simp⟩
  | @forkretYield k rest v hfr hsome =>
      refine h.forkretStep (u := ⟨s.sie, v, s.returned, s.entryCalls, s.entryDone⟩) (L := [.yield .load none]) hwf hfr
        hsome (by simp [neutral]) ?_ ?_ (by simp)
      · intro a _
        exact ⟨fun _ _ => rfl, fun hd => hd⟩
      · intro a _
        exact ⟨fun _ _ => rfl, by simp⟩
  | @createNext r pc pc' rest v hfr hpc =>
      exact h.createStep (u := ⟨s.sie, v, s.returned, s.entryCalls, s.entryDone⟩) hwf hfr (.inr ⟨pc', rfl⟩) rfl rfl
  | @createFill r id n k a f pc' rest v hfr hf hpc => exact h.filled hwf hfr hf v
  | @createDone r id k rest v hfr =>
      exact h.createStep (u := ⟨s.sie, v, (id, k) :: s.returned, s.entryCalls, s.entryDone⟩) hwf hfr (.inl rfl) rfl rfl
  | @alloc r k a rest hfr ha hk =>
      have hmoved := h.createStep (u := s.unread) hwf hfr (.inr ⟨.fill s.claimed.length 0 k a, rfl⟩) rfl rfl
      exact hmoved.congr (fun _ => rfl) (fun _ => rfl) rfl rfl rfl rfl rfl
  | @returns f rest _ v hfr hf =>
      cases hf with
      | @yield k p hsome =>
          exact h.exchange (u := ⟨s.sie, v, s.returned, s.entryCalls, s.entryDone⟩) (L := []) hwf hfr hsome
            ⟨by simp, by simp⟩ (by simp) rfl rfl
      | createFull =>
          exact h.createStep (u := ⟨s.sie, v, s.returned, s.entryCalls, s.entryDone⟩) hwf hfr (.inl rfl) rfl rfl
      | createFailed =>
          exact h.createStep (u := ⟨s.sie, v, s.returned, s.entryCalls, s.entryDone⟩) hwf hfr (.inl rfl) rfl rfl
  | @trap k b rest v hfr hsome =>
      exact h.exchange (u := ⟨b, v, s.returned, s.entryCalls, s.entryDone⟩) (L := []) hwf hfr hsome trivial (by simp)
        rfl rfl
  | @callYield k rest hfr hsome =>
      exact h.exchange (u := s.unread) (L := [.yield .load none, .entry]) hwf hfr hsome trivial (by simp [neutral])
        rfl rfl
  | @callCreate r f rest hfr hf =>
      rcases hf with rfl | ⟨rfl, rfl⟩
      · rcases hwf.callerTop hfr (.inl rfl) with ⟨k, _, hsome, _⟩ | ⟨b, hb, _⟩
        · exact h.exchange (u := s.unread) (L := [.create r (.scan 0), .entry]) hwf hfr hsome trivial
            (by simp [neutral]) rfl rfl
        · exact absurd hb (by simp)
      · rcases hwf.callerTop hfr (.inr ⟨false, rfl⟩) with ⟨_, hb, _⟩ | ⟨_, _, _, hcur, hnone⟩
        · exact absurd hb (by simp)
        · refine h.moveBoot (u := s.unread) hcur (h.notRunning hnone (by simp [hfr])) rfl rfl ?_ (by simp) (by simp)
          intro f rest heq
          rw [← (List.cons.inj heq).1]
          simp [Idle]
  | @entryReturns k rest hfr hsome =>
      rcases h.active hwf hfr hsome (by simp) with ⟨a, hcur, hk, hinj, hshape, hst⟩
      have hpop := hshape.exchange (L := []) rfl (by simp) (by simp) (by simp)
      rcases hpop.forkret with ⟨rfl, hd, hc, hz⟩
      have hstate : (s.procs k).state ≠ .zombie := fun hzombie => absurd (hz hzombie) (by simp)
      refine h.goOn (u := ⟨s.sie, s.sregs, s.returned, s.entryCalls, Function.update s.entryDone s.cur true⟩) hcur hk
        hinj hsome ?_ (fun _ _ => rfl) (by simp [hfr]) (hst (by simp)) (by simp) (by simp) (.bottom ?_ ?_ ?_)
      · intro b hb
        exact Function.update_of_ne (by simpa [hcur] using hb) _ _
      · exact hcur ▸ Function.update_self ..
      · rcases hc with hc | ⟨hc, _⟩
        · exact .inl hc
        · exact .inr ⟨hc, by simp, by simp⟩
      · exact fun hzombie => absurd hzombie hstate
  | callScheduler hfr hcur hnone =>
      refine h.moveBoot (u := s.unread) hcur (h.notRunning hnone (by simp [hfr])) rfl rfl ?_ ?_ (by simp)
      · intro f rest heq
        rw [← (List.cons.inj heq).1]
        simp [Idle]
      · intro pc rest heq
        obtain ⟨rfl, _⟩ : .start = pc ∧ [.main false] = rest := by simpa using heq
        trivial

lemma boot_alive (sie : Bool) : Alive (boot sie) where
  running := by simp [boot]
  onHart := by simp [boot]
  bootTop := by
    intro f rest hst
    obtain ⟨rfl, _⟩ : .main false = f ∧ [] = rest := by simpa [boot] using hst
    simp [Idle]
  pass := by simp [boot, frames]
  exit := by simp [boot, frames]
  fresh := by simp [boot]
  shape := by simp [boot]

/-- **A run keeps the states in order**, if its interrupts are taken in resumable states. -/
theorem alive_of_run {sie : Bool} {ls : List Act} {s : Kernel} (h : Run (Step Resumable) (boot sie) ls s) :
    Wf s ∧ Alive s := by
  refine h.invariant (P := fun s => Wf s ∧ Alive s) ?_ ⟨boot_wf sie, boot_alive sie⟩
  rintro t a t' hs ⟨hwf, halive⟩
  exact ⟨Step.wf ⟨hs.1, fun ha => (hs.2 ha).atRest⟩ hwf, halive.step hwf hs⟩

/-! ## No process is lost -/

/-- `scheduler` runs, and is not in the middle of a dispatch. -/
def betweenDispatches (s : Kernel) : Prop :=
  s.cur = .boot ∧ ∃ pc rest, s.frames = .sched pc :: rest ∧ ∀ k, ¬ dispatching k pc

/-- **Every process can go on**, until its entry function has returned. -/
structure NoneLost (s : Kernel) : Prop where
  notRunning : betweenDispatches s → ∀ k, (s.procs k).state ≠ .running
  /-- what a successful `proc_create` made is still there, and runnable unless its entry function returned -/
  runnable : betweenDispatches s → ∀ n k, (n, k) ∈ s.returned → ∃ r a, s.claimed[n]? = some (k, r) ∧
    Described (s.procs k) k a r ∧ (s.entryDone (.page a) = false → (s.procs k).state = .runnable)
  /-- `scheduler` exits only when every created process has ended -/
  exit : ∀ rest, s.frames = .main true :: rest → ∀ n k, (n, k) ∈ s.returned → (s.procs k).state = .zombie

/-- The slot of a finished call of `proc_create`. -/
lemma Wf.returned_ready {s : Kernel} (h : Wf s) {n : ℕ} {k : Slot} (hn : (n, k) ∈ s.returned)
    (hfr : ∀ r pc rest, s.frames ≠ .create r pc :: rest) :
    ∃ r a, s.claimed[n]? = some (k, r) ∧ Described (s.procs k) k a r ∧ (s.procs k).state ≠ .unused := by
  rcases h.returned (n, k) hn with ⟨r, hr⟩
  cases h.slot k with
  | unused _ _ hcl => exact absurd (List.mem_of_getElem? hr) (hcl r)
  | filling hf =>
      rcases hf with ⟨r', id, m, a, rest, hfr'⟩
      exact absurd hfr' (hfr _ _ _)
  | @ready a r' hstate hcl hdesc _ =>
      rcases List.getElem?_of_mem hcl with ⟨m, hm⟩
      obtain rfl : m = n := h.claim_unique hr hm
      obtain rfl : r = r' := by simpa [hr] using hm
      exact ⟨r, a, hr, hdesc, hstate⟩

lemma Alive.noneLost {s : Kernel} (h : Alive s) (hwf : Wf s) : NoneLost s := by
  have hquiet : betweenDispatches s → ∀ k, (s.procs k).state ≠ .running := by
    rintro ⟨hcur, pc, rest, hfr, hpc⟩ k hk
    rcases h.running k hk with ⟨pc', rest', hfr', hk'⟩ | ⟨hne, _⟩
    · obtain ⟨rfl, _⟩ : pc = pc' ∧ rest = rest' := by simpa using hfr.symm.trans hfr'
      exact hpc k hk'
    · exact hne hcur
  refine ⟨hquiet, ?_, ?_⟩
  · intro hbetween n k hn
    rcases id hbetween with ⟨_, pc, rest, hfr, _⟩
    rcases hwf.returned_ready hn (by simp [hfr]) with ⟨r, a, hr, hdesc, hused⟩
    refine ⟨r, a, hr, hdesc, ?_⟩
    intro hdone
    cases hst : (s.procs k).state with
    | runnable => rfl
    | unused => exact absurd hst hused
    | running => exact absurd hst (hquiet hbetween k)
    | zombie =>
        rcases h.shape k a hdesc.stack with ⟨_, hz, _⟩ | hshape
        · exact absurd hst hz
        · rcases hshape.base with ⟨pre, pc', _, _, hd, _, hz⟩
          rw [hdone] at hd
          rcases hz hst with rfl | rfl <;> exact absurd hd (by simp [pastEntry])
  · intro rest hfr n k hn
    rcases hwf.returned_ready hn (by simp [hfr]) with ⟨_, _, _, _, hused⟩
    exact (h.exit rest hfr k).resolve_left hused

end Kernel

open Kernel

/-- **No process is lost by preemption** in every run in which no interrupt is taken in `yield` between
`p->state = PROC_RUNNABLE` and `current_process = NULL`, or while a slot is filled. -/
theorem no_process_lost {sie : Bool} {ls : List Act} {s : Kernel}
    (hrun : Run (Step Resumable) (boot sie) ls s) : NoneLost s :=
  (alive_of_run hrun).2.noneLost (alive_of_run hrun).1

/-- Two processes have been created, a timer interrupt has taken the first off the hart, and `scheduler`'s loop
goes on. -/
theorem no_process_lost_preempted : ∃ ls s, Run (Step Resumable) (boot true) ls s ∧ s.dispatches = [0] ∧
    betweenDispatches s ∧ s.returned = [(1, 1), (0, 0)] ∧ (s.procs 0).state = .runnable ∧ NoneLost s := by
  have hentry : InEntry pairFirst := ⟨by simp [pairFirst, called, dispatched, setFrames], _, rfl⟩
  rcases (reaches_pairDispatch.trans (reaches_pairOff hentry.resumable)).run with ⟨ls, hrun⟩
  have hbetween : betweenDispatches pairPreempted := ⟨rfl, .loop 1 true, [.main false], by rfl, by simp [dispatching]⟩
  exact ⟨ls, _, hrun, rfl, hbetween, rfl, rfl, no_process_lost hrun⟩

/-- **An interrupt between `p->state = PROC_RUNNABLE` and `current_process = NULL`**: the handler's `yield`
gives up the hart, `scheduler` sets the process running again, and the first `yield` then parks it so. -/
theorem yield_interrupted : ∃ ls s, Run (Step InProcess) (boot true) ls s ∧ ¬ NoneLost s := by
  let r : Request := ⟨some 0, none⟩
  let below : List Frame := [.entry, .forkret .inEntry]
  let e : Kernel := firstEntry 4096 r
  -- `yield` has set the process runnable when the interrupt comes; the handler's `yield` gives up the hart
  let y : Kernel := (e.setState 0 .runnable).setFrames (.yield .clearCurrent (some 0) :: below)
  let i : Kernel := { y with sie := false }.setFrames (.yield .load none :: .trap true :: y.frames)
  let c : Kernel := i.setFrames (.yield .clearCurrent (some 0) :: .trap true :: y.frames)
  let w : Kernel := c.leaving 0 .runnable (.trap true :: y.frames)
  -- `scheduler` goes round and switches to the process again
  let b : Kernel := { w with
    cur := .boot
    stack := Function.update w.stack .boot [.sched (.loop 1 true), .main false]
    sregs := 0 }
  let x : Kernel := b.switching 0 [.main false]
  -- the handler returns to the first `yield`, which parks the process as it is
  let h : Kernel := { x with
    dispatches := x.dispatches ++ [0]
    hasRun := Function.update x.hasRun 0 true
    cur := .page 4096
    stack := Function.update x.stack (.page 4096) (.trap true :: y.frames)
    sregs := 0 }
  let z : Kernel := { h with sie := true }.setFrames (.yield .clearCurrent (some 0) :: below)
  let q : Kernel := z.leaving 0 .running below
  let f : Kernel := { q with
    cur := .boot
    stack := Function.update q.stack .boot [.sched (.loop 1 true), .main false]
    sregs := 0 }
  have he : Reaches InProcess (boot true) e := reaches_firstEntry 4096 rfl
  have hcall : Reaches InProcess e (e.setFrames (.yield .load none :: below)) :=
    .act (a := .callYield) (by simp) rfl
  have hy : Reaches InProcess (e.setFrames (.yield .load none :: below)) y := by
    have hyield := reaches_yield (P := InProcess) (s := e.setFrames (.yield .load none :: below)) (k := 0)
      (frames_setFrames ..) rfl rfl
    simpa [setFrames, setState, setProc, y] using hyield
  have hi : Reaches InProcess y i :=
    .interrupt (by simp [InProcess, y, e, firstEntry, setFrames, setState, setProc]) rfl
  have hc : Reaches InProcess i c := reaches_yieldPast (frames_setFrames ..) rfl (by
    have hst : (i.procs 0).state = .runnable := rfl
    simp [hst])
  have hw : Reaches InProcess c w := reaches_leaving (frames_setFrames ..)
  have hb : Reaches InProcess w b := reaches_back (k := 0) (i := 0) (frames_setFrames ..) rfl rfl rfl
  have hx : Reaches InProcess b x := by
    have hself : b.setFrames [.sched (.loop 1 true), .main false] = b := by simp [setFrames, b]
    have hnext := reaches_nextPass (P := InProcess) (s := b) (l := [.main false]) (i := 1) (by decide) (by
      intro j hj
      have hne : j ≠ 0 := by
        rintro rfl
        exact absurd hj (by decide)
      have hproc : b.procs j = (boot true).procs j := by
        simp [b, w, c, i, y, e, firstEntry, leaving, switching, firstPass, created, setFrames, remember, setProc, setCurrent,
          setState, hne]
      rw [hproc]
      simp [Kernel.boot])
    rw [hself] at hnext
    exact hnext.trans (reaches_switching (k := 0) (by simp) rfl (by simp))
  have hh : Reaches InProcess x h := reaches_resumed (k := 0) (p := some 0) (frames_setFrames ..) rfl rfl
  have hz : Reaches InProcess h z := .next (L := .trap true :: y.frames) (by simp [frames, h]) rfl
  have hq : Reaches InProcess z q := reaches_leaving (frames_setFrames ..)
  have hf : Reaches InProcess q f := reaches_back (k := 0) (i := 0) (frames_setFrames ..) rfl rfl rfl
  have hparked := (((he.trans hcall).trans hy).trans hi).trans (hc.trans (hw.trans hb))
  rcases (hparked.trans (hx.trans (hh.trans (hz.trans (hq.trans hf))))).run with ⟨ls, hrun⟩
  refine ⟨ls, f, hrun, ?_⟩
  intro hnone
  have hbetween : betweenDispatches f :=
    ⟨rfl, .loop 1 true, [.main false], by simp [f, frames], by simp [dispatching]⟩
  exact hnone.notRunning hbetween 0 rfl

end NetStack
