import NetStack.Process.SchedulerRules
import NetStack.Process.SchedulerPaths

/-!
# Saved contexts and created processes under preemption

`contexts_owned`: a saved context belongs to its process, in every run without an interrupt between
`current_process = p` and the switch to `p`, or on a process's stack while `proc_create` fills a slot.
`proc_create_safe`: what `proc_create` made is complete when `scheduler` can pick it, and slots are not
given out twice, in every run without an interrupt of the second kind.  Runs that break each follow.
-/

namespace NetStack

open Transition

namespace Kernel

/-! ## Contexts -/

/-- No two calls of `proc_create` take one slot. -/
lemma Wf.claim_unique {s : Kernel} (h : Wf s) {id id' : ℕ} {k : Slot} {r r' : Request}
    (hid : s.claimed[id]? = some (k, r)) (hid' : s.claimed[id']? = some (k, r')) : id' = id := by
  have hmap : ∀ {n : ℕ} {q : Request}, s.claimed[n]? = some (k, q) →
      (s.claimed.map Prod.fst)[n]? = some k := by
    intro n q hn
    rw [List.getElem?_map, hn]
    rfl
  have hlt : id' < (s.claimed.map Prod.fst).length := (List.getElem?_eq_some_iff.mp (hmap hid')).1
  exact (List.getElem?_inj hlt h.claimedNodup).mp ((hmap hid').trans (hmap hid).symm)

lemma firstEntry_quiet (a : ℕ) (r : Request) : Quiet (firstEntry a r) := by
  refine ⟨fun hboot => absurd hboot (by simp [firstEntry]), ?_⟩
  rintro ⟨f, rest, hfr, hw⟩
  rw [firstEntry_frames] at hfr
  rw [← (List.cons.inj hfr).1] at hw
  exact absurd hw (by simp [isWindow])

end Kernel

open Kernel

namespace Kernel

/-- **What `proc_create` owes the others.**  A slot that the `proc_create` on the hart is filling cannot be
picked: the hart is not in `scheduler`. -/
structure CreateSafe (s : Kernel) : Prop where
  /-- a process that `scheduler` can pick and that has not run is complete -/
  ready : ∀ k, (s.procs k).state = .runnable → s.hasRun k = false → ¬ Filling s k →
    ∃ r a, (k, r) ∈ s.claimed ∧ Described (s.procs k) k a r ∧
      (s.procs k).context.ra = .forkret ∧ (s.procs k).context.sp = some (.page a, 0)
  /-- two calls that succeed return two slots -/
  distinct : ∀ x ∈ s.returned, ∀ y ∈ s.returned, x.1 ≠ y.1 → x.2 ≠ y.2

lemma Wf.createSafe {s : Kernel} (h : Wf s) : CreateSafe s where
  ready := by
    intro k hst hrun hfill
    cases h.slot k with
    | unused hun => exact absurd (hst.symm.trans hun) (by simp)
    | filling hf => exact absurd hf hfill
    | @ready a r _ hcl hdesc hwhere =>
        cases hwhere with
        | fresh _ _ hra hsp => exact ⟨r, a, hcl, hdesc, hra, hsp⟩
        | parked _ _ _ _ hran => exact absurd (hran.symm.trans hrun) (by simp)
        | onHart _ hran => exact absurd (hran.symm.trans hrun) (by simp)
  distinct := by
    intro x hx y hy hne heq
    rcases h.returned x hx with ⟨r, hr⟩
    rcases h.returned y hy with ⟨r', hr'⟩
    rw [← heq] at hr'
    exact hne (h.claim_unique hr hr').symm

/-- The hart runs process code, or what process code called. -/
def InProcess (s : Kernel) : Prop := s.cur ≠ .boot

end Kernel

/-- **`proc_create` is safe under preemption** in every run in which no interrupt is taken while a process,
having found a free slot, has not finished filling it. -/
theorem proc_create_safe {sie : Bool} {ls : List Act} {s : Kernel}
    (hrun : Run (Step fun s => InProcess s ∧ ¬ inWindow s) (boot sie) ls s) : CreateSafe s := by
  have hrest : Run (Step AtRest) (boot sie) ls s := by
    refine hrun.mono ?_
    intro t a t' hs
    refine ⟨hs.1, ?_⟩
    intro ha
    exact ⟨fun hc => absurd hc (hs.2 ha).1, (hs.2 ha).2⟩
  exact (wf_of_run hrest).createSafe

/-- Two processes have been created; a timer interrupt has taken the first off the hart, and the second has not
run. -/
theorem proc_create_safe_preempted : ∃ ls s,
    Run (Step fun s => InProcess s ∧ ¬ inWindow s) (boot true) ls s ∧ s.dispatches = [0] ∧
      s.returned = [(1, 1), (0, 0)] ∧ (s.procs 1).state = .runnable ∧ s.hasRun 1 = false ∧ CreateSafe s := by
  have hwhere : InProcess pairFirst ∧ ¬ inWindow pairFirst := by
    have hfr : pairFirst.frames = [.entry, .forkret .inEntry] := rfl
    refine ⟨by simp [InProcess, pairFirst, called, dispatched, setFrames], ?_⟩
    rintro ⟨f, rest, hfr', hw⟩
    rw [← (List.cons.inj (hfr.symm.trans hfr')).1] at hw
    exact absurd hw (by simp [isWindow])
  have hoff := reaches_pairOff (P := fun s => InProcess s ∧ ¬ inWindow s) hwhere
  rcases (reaches_pairDispatch.trans hoff).run with ⟨ls, hrun⟩
  exact ⟨ls, _, hrun, rfl, rfl, rfl, rfl, proc_create_safe hrun⟩

/-- **An interrupt after `state = PROC_RUNNABLE`** in `proc_create` leaves `scheduler` a process without a
stack. -/
theorem proc_create_interrupted : ∃ ls s, Run (Step InProcess) (boot true) ls s ∧ ¬ CreateSafe s := by
  let r : Request := ⟨some 0, none⟩
  let p : Proc := applyStores ((createStores 1 8192 r).take 2) ((boot true).procs 1)
  let e : Kernel := firstEntry 4096 r
  let u : Kernel := { e with
    procs := Function.update e.procs 1 p
    pages := 8192 :: e.pages
    claimed := e.claimed ++ [(1, r)]
    hasRun := Function.update e.hasRun 1 false }.setFrames
      [.create r (.fill 1 2 1 8192), .entry, .forkret .inEntry]
  let w : Kernel := { u with sie := false }.setFrames (.yield .load none :: .trap true :: u.frames)
  let x : Kernel := (w.setState 0 .runnable).setFrames (.yield .clearCurrent (some 0) :: .trap true :: u.frames)
  let y : Kernel := x.leaving 0 .runnable (.trap true :: u.frames)
  let z : Kernel := { y with
    cur := .boot
    stack := Function.update y.stack .boot [.sched (.loop 1 true), .main false]
    sregs := 0 }
  have he : Reaches InProcess (boot true) e := reaches_firstEntry 4096 rfl
  have hused : ∀ j < (1 : Slot), (e.procs j).state ≠ .unused := by
    intro j hj
    obtain rfl : j = 0 := by simpa using hj
    simp [e, firstEntry, switching, setFrames, remember, setCurrent, setState, setProc]
  have hpages : 8192 ∉ e.pages := by
    have hp : e.pages = [4096] := rfl
    simp [hp]
  have hu : Reaches InProcess e u := reaches_fill (k := 1) (a := 8192) (r := r) (n := 2) (f := .entry)
    (l := [.forkret .inEntry]) (firstEntry_frames ..) (.inl rfl) rfl hused hpages (by simp [createStores])
  have hw : Reaches InProcess u w := .interrupt (by simp [InProcess, u, e, firstEntry, setFrames]) rfl
  have hx : Reaches InProcess w x := reaches_yield (frames_setFrames ..) rfl rfl
  have hy : Reaches InProcess x y := reaches_leaving (frames_setFrames ..)
  have hz : Reaches InProcess y z := reaches_back (k := 0) (i := 0) (frames_setFrames ..) rfl rfl rfl
  rcases (((((he.trans hu).trans hw).trans hx).trans hy).trans hz).run with ⟨ls, hrun⟩
  have hproc : z.procs 1 = p := rfl
  have hfill : ¬ Filling z 1 := by
    rintro ⟨r', id, n, a, rest, hfr⟩
    exact absurd hfr (by simp [z, frames])
  refine ⟨ls, z, hrun, ?_⟩
  intro h
  rcases h.ready 1 (by rw [hproc]; rfl) rfl hfill with ⟨r', a, _, hd, _⟩
  have hstack : p.stack = some a := hproc ▸ hd.stack
  exact absurd hstack (by simp [p, createStores, applyStores, Kernel.boot])

end NetStack
