import NetStack.Process.Preemptible

/-!
# `SIE` is a token

`swtch` does not touch `sstatus`, so `SIE` stays with the hart when the stacks change: an interrupt moves it into a trap
frame, and only the `sret` of that frame moves it back.  `Effect` says for every step what it does to the trap frames
and to `SIE`.

Two results follow.  There is never more than one trap frame for each time `SIE` was set by hand, and one for the boot
(`trap_frames_le`).  It is about runs whose interrupts are taken in `Quiet` states: after any other a stack may be
resumed from a context below which frames have returned.  And if process code leaves `SIE` alone, there is exactly one
token (`OneToken`): at most one process is ever off the hart because of an interrupt, and until it is dispatched again no
other can be preempted (`preempted_unique`).
-/

namespace NetStack

namespace Kernel

open Transition

def isTrap : Frame → Bool
  | .trap _ => true
  | _ => false

/-- The trap frames on a stack. -/
def trapFrames (fs : List Frame) : List Frame := fs.filter isTrap

@[simp] lemma trapFrames_nil : trapFrames [] = [] := rfl

@[simp] lemma trapFrames_cons_trap (b : Bool) (fs : List Frame) :
    trapFrames (.trap b :: fs) = .trap b :: trapFrames fs := rfl

lemma trapFrames_cons {f : Frame} (hf : isTrap f = false) (fs : List Frame) : trapFrames (f :: fs) = trapFrames fs := by
  rw [trapFrames, List.filter_cons, hf, if_neg Bool.false_ne_true, trapFrames]

/-- The second half of `swtch` comes next. -/
inductive Restoring : List Frame → Prop
  | yield (p : Option Slot) (rest : List Frame) : Restoring (.yield .restore p :: rest)
  | sched (i : Slot) (rest : List Frame) : Restoring (.sched (.restore i) :: rest)

/-- **What a step does to the trap frames and to `SIE`.** -/
inductive Effect (s : Kernel) (a : Act) (s' : Kernel) : Prop
  | quiet (k : StackId) {fs : List Frame} (hstack : s'.stack = Function.update s.stack k fs) (hsie : s'.sie = s.sie)
      (htraps : trapFrames fs = trapFrames (s.stack k))
  /-- the second half of `swtch`, which may find more frames than the context has -/
  | load (k : StackId) {fs : List Frame} {v : ℕ} (ha : a = .step v) (hfr : Restoring s.frames)
      (hstack : s'.stack = Function.update s.stack k fs) (hsie : s'.sie = s.sie)
      (htraps : (trapFrames fs).Sublist (trapFrames (s.stack k)))
  /-- `sret` -/
  | sret {b : Bool} {rest : List Frame} (hfr : s.frames = .trap b :: rest)
      (hstack : s'.stack = Function.update s.stack s.cur rest) (hsie : s'.sie = b)
  | enter {fs : List Frame} (hon : s.sie = true) (hstack : s'.stack = Function.update s.stack s.cur fs)
      (htraps : trapFrames fs = .trap true :: trapFrames s.frames) (hsie : s'.sie = false) (hprocs : s'.procs = s.procs)
  | setSie (b : Bool) (ha : a = .setSie b) (hstack : s'.stack = s.stack) (hsie : s'.sie = b)

section

variable {s s' : Kernel} {rest : List Frame} {v : ℕ}

/-- Another frame on top, or none. -/
lemma Effect.top {a : Act} {f : Frame} {fs : List Frame} (hfr : s.frames = f :: rest) (hf : isTrap f = false)
    (hfs : trapFrames fs = trapFrames rest) (hstack : s'.stack = Function.update s.stack s.cur fs)
    (hsie : s'.sie = s.sie) : Effect s a s' := by
  refine .quiet s.cur hstack hsie ?_
  have hstack' : s.stack s.cur = f :: rest := hfr
  rw [hfs, hstack', trapFrames_cons hf]

/-- `swtch` to a context: frames may be cut off, and one on top is put back. -/
lemma load_effect {c : Context} (h : s.load c = some s') : ∃ k fs, s'.stack = Function.update s.stack k fs ∧
    s'.sie = s.sie ∧ (trapFrames fs).Sublist (trapFrames (s.stack k)) := by
  rw [load] at h
  split at h
  · exact absurd h (by simp)
  · rename_i k n _
    split_ifs at h with hn
    have hdrop : ∀ {fs : List Frame}, (s.stack k).drop ((s.stack k).length - n) = fs →
        (trapFrames fs).Sublist (trapFrames (s.stack k)) := by
      rintro fs rfl
      exact (List.drop_sublist _ _).filter _
    split at h
    · obtain rfl := Option.some.inj h
      refine ⟨k, _, rfl, rfl, ?_⟩
      rw [trapFrames_cons rfl]
      exact hdrop rfl
    · rename_i p fs _ hcut
      obtain rfl := Option.some.inj h
      refine ⟨k, _, rfl, rfl, ?_⟩
      have hold := hdrop hcut
      rwa [trapFrames_cons rfl] at hold ⊢
    · rename_i i fs _ hcut
      obtain rfl := Option.some.inj h
      refine ⟨k, _, rfl, rfl, ?_⟩
      have hold := hdrop hcut
      rwa [trapFrames_cons rfl] at hold ⊢
    · exact absurd h (by simp)

lemma yieldStep_effect {pc : YieldPc} {p : Option Slot} (hfr : s.frames = .yield pc p :: rest)
    (h : ({ s with sregs := v } : Kernel).yieldStep rest pc p = some s') : Effect s (.step v) s' := by
  have htop : ∀ {fs : List Frame}, trapFrames fs = trapFrames rest → s'.stack = Function.update s.stack s.cur fs →
      s'.sie = s.sie → Effect s (.step v) s' := fun hfs hstack hsie => .top hfr rfl hfs hstack hsie
  unfold Kernel.yieldStep at h
  split at h
  case h_8 =>
      obtain ⟨k, fs, hstack, hsie, htraps⟩ := load_effect h
      exact .load k rfl (hfr ▸ .yield _ rest) hstack hsie htraps
  case h_4 =>
      split_ifs at h
      all_goals
        obtain rfl := Option.some.inj h
        exact htop (trapFrames_cons rfl _) rfl rfl
  case h_10 => exact absurd h (by simp)
  all_goals
    obtain rfl := Option.some.inj h
    first
      | exact htop rfl rfl rfl
      | exact htop (trapFrames_cons rfl _) rfl rfl

lemma schedStep_effect {pc : SchedPc} (hfr : s.frames = .sched pc :: rest)
    (h : ({ s with sregs := v } : Kernel).schedStep rest pc = some s') : Effect s (.step v) s' := by
  have htop : ∀ {f : Frame}, isTrap f = false → s'.stack = Function.update s.stack s.cur (f :: rest) →
      s'.sie = s.sie → Effect s (.step v) s' := fun hf hstack hsie => .top hfr rfl (trapFrames_cons hf _) hstack hsie
  cases pc with
  | restore i =>
      obtain ⟨k, fs, hstack, hsie, htraps⟩ := load_effect h
      exact .load k rfl (hfr ▸ .sched i rest) hstack hsie htraps
  | testDone active =>
      simp only [Kernel.schedStep] at h
      split_ifs at h
      · obtain rfl := Option.some.inj h
        exact htop rfl rfl rfl
      · split at h
        · obtain rfl := Option.some.inj h
          exact .top hfr rfl (by rw [trapFrames_cons rfl, trapFrames_cons rfl]) rfl rfl
        · exact absurd h (by simp)
  | loop | testState | testFound | scan | testActive =>
      simp only [Kernel.schedStep] at h
      split_ifs at h
      all_goals
        obtain rfl := Option.some.inj h
        exact htop rfl rfl rfl
  | _ =>
      obtain rfl := Option.some.inj h
      exact htop rfl rfl rfl

lemma forkretStep_effect {pc : ForkretPc} (hfr : s.frames = .forkret pc :: rest)
    (h : ({ s with sregs := v } : Kernel).forkretStep rest pc = some s') : Effect s (.step v) s' := by
  have hself : s.stack = Function.update s.stack s.cur s.frames := (Function.update_eq_self ..).symm
  have htop : ∀ {fs : List Frame}, trapFrames fs = trapFrames rest → s'.stack = Function.update s.stack s.cur fs →
      s'.sie = s.sie → Effect s (.step v) s' := fun hfs hstack hsie => .top hfr rfl hfs hstack hsie
  cases pc with
  | inEntry => exact absurd h (by simp [Kernel.forkretStep])
  | spin =>
      obtain rfl := Option.some.inj h
      exact .quiet s.cur hself rfl rfl
  | callYield =>
      obtain rfl := Option.some.inj h
      exact htop (by rw [trapFrames_cons rfl, trapFrames_cons rfl]) rfl rfl
  | testCurrent =>
      simp only [Kernel.forkretStep] at h
      split_ifs at h
      all_goals
        obtain rfl := Option.some.inj h
        exact htop (trapFrames_cons rfl _) rfl rfl
  | test =>
      simp only [Kernel.forkretStep] at h
      split at h
      · split_ifs at h
        all_goals
          obtain rfl := Option.some.inj h
          exact htop (trapFrames_cons rfl _) rfl rfl
      · obtain rfl := Option.some.inj h
        exact htop (trapFrames_cons rfl _) rfl rfl
  | call =>
      simp only [Kernel.forkretStep] at h
      split at h
      · split_ifs at h
        obtain rfl := Option.some.inj h
        exact htop (by rw [trapFrames_cons rfl, trapFrames_cons rfl]) rfl rfl
      · exact absurd h (by simp)
  | setZombie =>
      simp only [Kernel.forkretStep] at h
      split at h
      · obtain rfl := Option.some.inj h
        exact htop (trapFrames_cons rfl _) rfl rfl
      · exact absurd h (by simp)

lemma createStep_effect {r : Request} {pc : CreatePc} (hfr : s.frames = .create r pc :: rest)
    (h : ({ s with sregs := v } : Kernel).createStep rest r pc = some s') : Effect s (.step v) s' := by
  have htop : ∀ {fs : List Frame}, trapFrames fs = trapFrames rest → s'.stack = Function.update s.stack s.cur fs →
      s'.sie = s.sie → Effect s (.step v) s' := fun hfs hstack hsie => .top hfr rfl hfs hstack hsie
  cases pc with
  | scan i =>
      simp only [Kernel.createStep] at h
      split_ifs at h
      · obtain rfl := Option.some.inj h
        exact htop (trapFrames_cons rfl _) rfl rfl
      · obtain rfl := Option.some.inj h
        exact htop rfl rfl rfl
  | testState i =>
      simp only [Kernel.createStep] at h
      split_ifs at h
      all_goals
        obtain rfl := Option.some.inj h
        exact htop (trapFrames_cons rfl _) rfl rfl
  | alloc k => exact absurd h (by simp [Kernel.createStep])
  | fill id n k a =>
      simp only [Kernel.createStep] at h
      split at h
      · obtain rfl := Option.some.inj h
        exact htop (trapFrames_cons rfl _) rfl rfl
      · exact absurd h (by simp)
  | done id k =>
      obtain rfl := Option.some.inj h
      exact htop rfl rfl rfl

/-- **Inversion**, for any state. -/
theorem effect_of_step {a : Act} (h : s.step a = some s') : Effect s a s' := by
  have hself : s.stack = Function.update s.stack s.cur s.frames := (Function.update_eq_self ..).symm
  cases a with
  | step v =>
      simp only [Kernel.step] at h
      cases hfr : s.frames with
      | nil =>
          rw [hfr] at h
          exact absurd h (by simp [statement])
      | cons f rest =>
          rw [hfr] at h hself
          cases f with
          | main b =>
              obtain rfl := Option.some.inj h
              exact .top hfr rfl (trapFrames_cons rfl _) rfl rfl
          | entry =>
              obtain rfl := Option.some.inj h
              exact .top hfr rfl (trapFrames_cons rfl _) rfl rfl
          | sched pc => exact schedStep_effect hfr h
          | forkret pc => exact forkretStep_effect hfr h
          | yield pc p => exact yieldStep_effect hfr h
          | create r pc => exact createStep_effect hfr h
          | trap b =>
              obtain rfl := Option.some.inj h
              exact .sret hfr rfl rfl
  | alloc o =>
      simp only [Kernel.step] at h
      split at h
      · rename_i r k rest hfr
        cases o with
        | none =>
            obtain rfl := Option.some.inj h
            exact .top hfr rfl rfl rfl rfl
        | some a =>
            simp only [allocStep] at h
            split_ifs at h
            obtain rfl := Option.some.inj h
            exact .top hfr rfl (trapFrames_cons rfl _) rfl rfl
      · exact absurd h (by simp)
  | callYield =>
      simp only [Kernel.step] at h
      split at h
      · rename_i rest hfr
        obtain rfl := Option.some.inj h
        exact .top hfr rfl (by rw [trapFrames_cons rfl, trapFrames_cons rfl]) rfl rfl
      · exact absurd h (by simp)
  | callCreate r =>
      simp only [Kernel.step] at h
      split at h
      · rename_i rest hfr
        obtain rfl := Option.some.inj h
        exact .top hfr rfl (by rw [trapFrames_cons rfl, trapFrames_cons rfl]) rfl rfl
      · rename_i rest hfr
        obtain rfl := Option.some.inj h
        exact .top hfr rfl (by rw [trapFrames_cons rfl, trapFrames_cons rfl]) rfl rfl
      · exact absurd h (by simp)
  | setSie b =>
      simp only [Kernel.step] at h
      split at h
      · obtain rfl := Option.some.inj h
        exact .setSie b rfl rfl rfl
      · exact absurd h (by simp)
  | entryReturns =>
      simp only [Kernel.step] at h
      split at h
      · rename_i rest hfr
        obtain rfl := Option.some.inj h
        exact .top hfr rfl (by rw [trapFrames_cons rfl, trapFrames_cons rfl]) rfl rfl
      · exact absurd h (by simp)
  | callScheduler =>
      simp only [Kernel.step] at h
      split at h
      · rename_i rest hfr
        obtain rfl := Option.some.inj h
        exact .top hfr rfl (by rw [trapFrames_cons rfl, trapFrames_cons rfl]) rfl rfl
      · exact absurd h (by simp)
  | interrupt =>
      simp only [Kernel.step] at h
      split_ifs at h with hon
      obtain rfl := Option.some.inj h
      refine .enter hon rfl ?_ rfl rfl
      rw [trapFrames_cons rfl, hon, trapFrames_cons_trap]

/-! ## Counting -/

/-- How many trap frames are on a stack. -/
def traps (s : Kernel) (k : StackId) : ℕ := (trapFrames (s.stack k)).length

lemma traps_update {k : StackId} {fs : List Frame} (h : s'.stack = Function.update s.stack k fs) :
    s'.traps = Function.update s.traps k (trapFrames fs).length := by
  funext j
  rw [traps, h]
  rcases eq_or_ne j k with rfl | hj
  · rw [Function.update_self, Function.update_self]
  · rw [Function.update_of_ne hj, Function.update_of_ne hj, traps]

/-- There are at most `n` tokens: the trap frames on any stacks, and `SIE`. -/
def TokensLe (n : ℕ) (s : Kernel) : Prop := ∀ K : Finset StackId, ∑ k ∈ K, s.traps k + s.sie.toNat ≤ n

/-- The trap frames when one stack has changed, with that stack among those that are counted. -/
lemma sum_traps {k : StackId} {fs : List Frame} (h : s'.stack = Function.update s.stack k fs) (K : Finset StackId) :
    ∑ j ∈ insert k K, s'.traps j + s.traps k = ∑ j ∈ insert k K, s.traps j + (trapFrames fs).length := by
  have hk : k ∈ insert k K := Finset.mem_insert_self k K
  rw [traps_update h, Finset.sum_update_of_mem hk, ← Finset.add_sum_erase _ _ hk, Finset.sdiff_singleton_eq_erase]
  omega

/-- **A step makes no token**, but setting `SIE` by hand does. -/
lemma Effect.tokensLe {a : Act} {n : ℕ} (h : Effect s a s') (hn : TokensLe n s) :
    TokensLe (n + [a].count (.setSie true)) s' := by
  intro K
  have hle : ∀ k, ∑ j ∈ K, s'.traps j ≤ ∑ j ∈ insert k K, s'.traps j := fun k =>
    Finset.sum_le_sum_of_subset (Finset.subset_insert k K)
  cases h with
  | quiet k hstack hsie htraps =>
      have hsum := sum_traps hstack K
      have hold := hn (insert k K)
      have hnew := hle k
      rw [htraps] at hsum
      rw [hsie]
      simp only [traps] at *
      omega
  | load k ha hfr hstack hsie htraps =>
      have hsum := sum_traps hstack K
      have hold := hn (insert k K)
      have hnew := hle k
      have hlen := htraps.length_le
      rw [hsie]
      simp only [traps] at *
      omega
  | @sret b rest hfr hstack hsie =>
      have hsum := sum_traps hstack K
      have hold := hn (insert s.cur K)
      have hnew := hle s.cur
      have hcur : s.traps s.cur = (trapFrames rest).length + 1 := by
        have hstack' : s.stack s.cur = .trap b :: rest := hfr
        rw [traps, hstack', trapFrames_cons_trap, List.length_cons]
      have hb := Bool.toNat_le b
      rw [hsie]
      omega
  | enter hon hstack htraps hsie hprocs =>
      have hsum := sum_traps hstack K
      have hold := hn (insert s.cur K)
      have hnew := hle s.cur
      rw [htraps, List.length_cons] at hsum
      rw [hon, Bool.toNat_true] at hold
      rw [hsie, Bool.toNat_false]
      simp only [traps, frames] at *
      omega
  | setSie b ha hstack hsie =>
      have hold := hn K
      have hsame : s'.traps = s.traps := by
        funext k
        rw [traps, traps, hstack]
      rw [hsame, hsie, ha]
      cases b <;> simp <;> omega

lemma tokensLe_of_run {ok : Kernel → Prop} {ls : List Act} (h : Run (Step ok) s ls s') :
    ∀ {n : ℕ}, TokensLe n s → TokensLe (n + ls.count (.setSie true)) s' := by
  induction h with
  | nil s => exact fun hn => hn
  | @cons s t s' a ls hs _ ih =>
      intro n hn
      have hstep := ih ((effect_of_step hs.1).tokensLe hn)
      rwa [add_assoc, ← List.count_append, List.singleton_append] at hstep

/-- At boot there is no trap frame. -/
lemma boot_traps (sie : Bool) (k : StackId) : trapFrames ((boot sie).stack k) = [] := by
  show trapFrames (if k = .boot then [.main false] else []) = []
  split_ifs <;> rfl

lemma boot_tokensLe (sie : Bool) : TokensLe sie.toNat (boot sie) := by
  intro K
  have hzero : ∑ k ∈ K, (boot sie).traps k = 0 :=
    Finset.sum_eq_zero fun k _ => by rw [traps, boot_traps, List.length_nil]
  rw [hzero, zero_add]
  exact le_refl _

/-! ## One token -/

/-- In a well-formed state `swtch` finds the frames that the context has. -/
lemma Does.load_traps (h : Does s (.step v) s') (hfr : Restoring s.frames) :
    s'.sie = s.sie ∧ ∀ k, trapFrames (s'.stack k) = trapFrames (s.stack k) := by
  have hsame : ∀ {k : StackId} {fs : List Frame}, trapFrames fs = trapFrames (s.stack k) →
      ∀ j, trapFrames (Function.update s.stack k fs j) = trapFrames (s.stack j) := by
    intro k fs hfs j
    rcases eq_or_ne j k with rfl | hj
    · rw [Function.update_self, hfs]
    · rw [Function.update_of_ne hj]
  cases h with
  | @park k i a rest v w hfr' hcur hk hnone hboot hsaved =>
      exact ⟨rfl, hsame (by rw [hboot]; rfl)⟩
  | @dispatch i a fs v w hfr' hcur hsome hstack hfs =>
      refine ⟨rfl, hsame ?_⟩
      rcases hfs with ⟨rfl, _, _, _, _, hempty⟩ | ⟨rest, rfl, _, _, hold⟩
      · rw [hempty]
        rfl
      · rw [hold, trapFrames_cons rfl, trapFrames_cons rfl]
  | own hfr' hf =>
      rw [hfr'] at hfr
      rcases hf with rfl | ⟨b, rfl⟩ | rfl <;> cases hfr
  | idle hfr' hf =>
      rw [hfr'] at hfr
      cases hfr <;> exact absurd hf (by simp [Idle])
  | returns hfr' hf =>
      rw [hfr'] at hfr
      cases hf <;> cases hfr
  | yieldNext hfr' hsome hpc =>
      rw [hfr'] at hfr
      cases hpc <;> cases hfr
  | schedNext hfr' hcur hnone hpc =>
      rw [hfr'] at hfr
      cases hpc <;> cases hfr
  | _ =>
      rename s.frames = _ => hfr'
      rw [hfr'] at hfr
      cases hfr

/-- `SIE` is set and there is no trap frame, or it is clear and there is one, which will set it. -/
inductive OneToken (s : Kernel) : Prop
  | hart (hsie : s.sie = true) (hnone : ∀ k, trapFrames (s.stack k) = [])
  | frame (k : StackId) (hsie : s.sie = false) (hk : trapFrames (s.stack k) = [.trap true])
      (hnone : ∀ j, j ≠ k → trapFrames (s.stack j) = [])

lemma OneToken.congr (h : OneToken s) (hsie : s'.sie = s.sie)
    (htraps : ∀ k, trapFrames (s'.stack k) = trapFrames (s.stack k)) : OneToken s' := by
  cases h with
  | hart hon hnone => exact .hart (hsie.trans hon) fun k => (htraps k).trans (hnone k)
  | frame k hoff hk hnone =>
      exact .frame k (hsie.trans hoff) ((htraps k).trans hk) fun j hj => (htraps j).trans (hnone j hj)

/-- The token goes from the hart to a frame or back. -/
lemma OneToken.step {a : Act} (h : OneToken s) (hwf : Wf s) (hs : s.step a = some s') (ha : ∀ b, a ≠ .setSie b) :
    OneToken s' := by
  cases effect_of_step hs with
  | quiet k hstack hsie htraps =>
      refine h.congr hsie fun j => ?_
      rw [hstack]
      rcases eq_or_ne j k with rfl | hj
      · rw [Function.update_self, htraps]
      · rw [Function.update_of_ne hj]
  | load k hstep hfr hstack hsie htraps =>
      subst hstep
      exact h.congr hsie (does_of_step hwf hs |>.load_traps hfr).2
  | @sret b rest hfr hstack hsie =>
      have htop : trapFrames (s.stack s.cur) = .trap b :: trapFrames rest := by
        have hstack' : s.stack s.cur = .trap b :: rest := hfr
        rw [hstack', trapFrames_cons_trap]
      cases h with
      | hart _ hnone => exact absurd ((hnone s.cur).symm.trans htop) (by simp)
      | frame k _ hk hnone =>
          -- it is this frame
          obtain rfl : s.cur = k := by
            by_contra hne
            exact absurd ((hnone s.cur hne).symm.trans htop) (by simp)
          obtain ⟨hb, hrest⟩ := List.cons.inj (hk.symm.trans htop)
          obtain rfl : true = b := Frame.trap.inj hb
          refine .hart hsie fun j => ?_
          rw [hstack]
          rcases eq_or_ne j s.cur with rfl | hj
          · rw [Function.update_self, ← hrest]
          · rw [Function.update_of_ne hj, hnone j hj]
  | enter hon hstack htraps hsie hprocs =>
      cases h with
      | frame _ hoff => exact absurd (hon.symm.trans hoff) (by simp)
      | hart _ hnone =>
          refine .frame s.cur hsie ?_ fun j hj => ?_
          · rw [hstack, Function.update_self, htraps, frames, hnone]
          · rw [hstack, Function.update_of_ne hj, hnone]
  | setSie b hset => exact absurd hset (ha b)

/-! ## The preempted process -/

/-- Process `j` is off the hart, in the handler of a timer interrupt. -/
def Preempted (s : Kernel) (j : Slot) : Prop :=
  ∃ a, (s.procs j).stack = some a ∧ s.cur ≠ .page a ∧ ∃ b, .trap b ∈ s.stack (.page a)

/-- No step takes the stack of a process away. -/
lemma Does.stack_kept {a : Act} (h : Does s a s') (hwf : Wf s) {j : Slot} {b : ℕ} (hj : (s.procs j).stack = some b)
    (hb : s.stack (.page b) ≠ []) : (s'.procs j).stack = some b := by
  have hset : ∀ (i : Slot) (p : Proc), p.stack = (s.procs i).stack →
      (Function.update s.procs i p j).stack = some b := by
    intro i p hp
    rcases eq_or_ne j i with rfl | hne
    · rw [Function.update_self, hp, hj]
    · rw [Function.update_of_ne hne, hj]
  cases h with
  | yieldRunnable | yieldSave | schedRunning | forkretZombie => exact hset _ _ rfl
  | @createFill r id n k a f pc' rest v hfr hf hpc =>
      rcases (store_keeps hf (s.procs k)).1 with hsame | hnew
      · exact hset _ _ hsame
      · rcases hwf.fill r _ rest hfr with ⟨_, _, ⟨p, _, hp, hprocs⟩, _, _, hempty, _, _⟩
        rcases eq_or_ne j k with rfl | hne
        · -- the slot has the new stack already, which is empty
          have hst := applyStores_stack (k := j) (a := a) (r := r) ((createStores j a r).take n) p
            (fun f hf => List.mem_of_mem_take hf) (.inl hp)
          rw [← hprocs, hj] at hst
          obtain rfl : b = a := by simpa using hst
          exact absurd hempty hb
        · show (Function.update s.procs k _ j).stack = some b
          rw [Function.update_of_ne hne, hj]
  | _ => exact hj

lemma mem_trapFrames {f : Frame} {fs : List Frame} : f ∈ trapFrames fs ↔ f ∈ fs ∧ isTrap f = true := List.mem_filter

/-- A trap frame is on the boot stack or on the stack of a process. -/
def TrapsOwned (s : Kernel) : Prop := ∀ a, trapFrames (s.stack (.page a)) ≠ [] → ∃ j, (s.procs j).stack = some a

/-- **Where the hart goes.**  It stays on its stack, goes to the boot stack, or is given to a process; no other stack
changes. -/
lemma Does.hart {a : Act} (h : Does s a s') :
    (s'.cur = s.cur ∧ (∀ k, k ≠ s.cur → s'.stack k = s.stack k) ∧ s'.dispatches = s.dispatches) ∨
      (s'.cur = .boot ∧ (∀ k, k ≠ .boot → s'.stack k = s.stack k) ∧ s'.dispatches = s.dispatches) ∨
      ∃ i b, (s.procs i).stack = some b ∧ s'.cur = .page b ∧ (∀ k, k ≠ .page b → s'.stack k = s.stack k) ∧
        s'.dispatches = s.dispatches ++ [i] := by
  cases h with
  | park => exact .inr (.inl ⟨rfl, fun k hk => Function.update_of_ne hk .., rfl⟩)
  | @dispatch i b fs v w hfr hcur hsome hstack =>
      exact .inr (.inr ⟨i, b, hstack, rfl, fun k hk => Function.update_of_ne hk .., rfl⟩)
  | own | setSie => exact .inl ⟨rfl, fun _ _ => rfl, rfl⟩
  | _ => exact .inl ⟨rfl, fun k hk => Function.update_of_ne hk .., rfl⟩

/-- **A preempted process stays preempted** until it is dispatched. -/
lemma Preempted.step {a : Act} {j : Slot} (h : Preempted s j) (hwf : Wf s) (hs : s.step a = some s') :
    Preempted s' j ∧ s'.dispatches = s.dispatches ∨
      ∃ i, s'.dispatches = s.dispatches ++ [i] ∧ (i = j ∨ Preempted s' j) := by
  rcases h with ⟨b, hj, hcur, t, ht⟩
  have hdoes := does_of_step hwf hs
  have hkept : (s'.procs j).stack = some b := hdoes.stack_kept hwf hj (List.ne_nil_of_mem ht)
  rcases hdoes.hart with ⟨hcur', hrest, hdisp⟩ | ⟨hcur', hrest, hdisp⟩ | ⟨i, a', hi, hcur', hrest, hdisp⟩
  · refine .inl ⟨⟨b, hkept, fun hb => hcur (hcur'.symm.trans hb), t, ?_⟩, hdisp⟩
    rwa [hrest _ (Ne.symm hcur)]
  · exact .inl ⟨⟨b, hkept, by simp [hcur'], t, by rwa [hrest _ (by simp)]⟩, hdisp⟩
  · refine .inr ⟨i, hdisp, ?_⟩
    rcases eq_or_ne a' b with rfl | hne
    · exact .inl (hwf.stackInj i j a' hi hj)
    · have hpage : StackId.page b ≠ .page a' := fun heq => hne (StackId.page.inj heq).symm
      refine .inr ⟨b, hkept, by rw [hcur']; exact hpage.symm, t, ?_⟩
      rwa [hrest _ hpage]

lemma Preempted.run {ls : List Act} {j : Slot} (hrun : Run (PlainStep AtRest) s ls s') (hwf : Wf s)
    (h : Preempted s j) : ∃ l, s'.dispatches = s.dispatches ++ l ∧ (Preempted s' j ∨ j ∈ l) := by
  let P : Kernel → Prop := fun t => Wf t ∧ ∃ l, t.dispatches = s.dispatches ++ l ∧ (Preempted t j ∨ j ∈ l)
  refine (hrun.invariant (P := P) ?_ ⟨hwf, [], (List.append_nil _).symm, .inl h⟩).2
  rintro t a t' hs ⟨hwf, l, hl, hj⟩
  refine ⟨hs.1.wf hwf, ?_⟩
  have hgrows : t'.dispatches = t.dispatches ∨ ∃ i, t'.dispatches = t.dispatches ++ [i] := by
    rcases (does_of_step hwf hs.1.1).hart with ⟨_, _, hdisp⟩ | ⟨_, _, hdisp⟩ | ⟨i, _, _, _, _, hdisp⟩
    · exact .inl hdisp
    · exact .inl hdisp
    · exact .inr ⟨i, hdisp⟩
  rcases hj with hpre | hmem
  · rcases hpre.step hwf hs.1.1 with ⟨hpre', hdisp⟩ | ⟨i, hdisp, hi⟩
    · exact ⟨l, hdisp.trans hl, .inl hpre'⟩
    · refine ⟨l ++ [i], by rw [hdisp, hl, List.append_assoc], ?_⟩
      rcases hi with rfl | hpre'
      · exact .inr (List.mem_append_right l (List.mem_singleton_self i))
      · exact .inl hpre'
  · rcases hgrows with hdisp | ⟨i, hdisp⟩
    · exact ⟨l, hdisp.trans hl, .inr hmem⟩
    · exact ⟨l ++ [i], by rw [hdisp, hl, List.append_assoc], .inr (List.mem_append_left _ hmem)⟩

lemma TrapsOwned.step {a : Act} (h : TrapsOwned s) (hwf : Wf s) (hs : s.step a = some s') : TrapsOwned s' := by
  intro b hb
  -- only an interrupt adds a trap frame, to the running stack
  have hold : trapFrames (s.stack (.page b)) ≠ [] ∨ s.cur = .page b ∧ s'.procs = s.procs := by
    by_contra hno
    rw [not_or, not_not] at hno
    refine hb ?_
    have hkeep : ∀ {k : StackId} {fs : List Frame}, s'.stack = Function.update s.stack k fs →
        (trapFrames fs).Sublist (trapFrames (s.stack k)) → trapFrames (s'.stack (.page b)) = [] := by
      intro k fs hstack hsub
      rw [hstack]
      rcases eq_or_ne (.page b) k with rfl | hk
      · rw [Function.update_self]
        rw [hno.1] at hsub
        exact List.sublist_nil.mp hsub
      · rw [Function.update_of_ne hk, hno.1]
    cases effect_of_step hs with
    | quiet k hstack hsie htraps => exact hkeep hstack (by rw [htraps])
    | load k _ hfr hstack hsie htraps => exact hkeep hstack htraps
    | @sret b rest hfr hstack hsie =>
        refine hkeep hstack ?_
        have hstack' : s.stack s.cur = .trap b :: rest := hfr
        rw [hstack', trapFrames_cons_trap]
        exact List.sublist_cons_self ..
    | enter hon hstack htraps hsie hprocs =>
        have hne : StackId.page b ≠ s.cur := fun hcur => hno.2 ⟨hcur.symm, hprocs⟩
        rw [hstack, Function.update_of_ne hne, hno.1]
    | setSie b hset hstack => rw [hstack, hno.1]
  rcases hold with hold | ⟨hcur, hprocs⟩
  · rcases h b hold with ⟨j, hj⟩
    exact ⟨j, (does_of_step hwf hs).stack_kept hwf hj fun hnil => hold (by rw [hnil]; rfl)⟩
  · rcases (hwf.onPage b hcur).1 with ⟨j, hj⟩
    exact ⟨j, by rw [hprocs]; exact hj⟩

lemma boot_token : OneToken (boot true) ∧ TrapsOwned (boot true) :=
  ⟨.hart rfl (boot_traps true), fun a ha => absurd (boot_traps true (.page a)) ha⟩

lemma token_of_run {ls : List Act} (h : Run (PlainStep AtRest) (boot true) ls s) :
    Wf s ∧ OneToken s ∧ TrapsOwned s := by
  refine h.invariant (P := fun s => Wf s ∧ OneToken s ∧ TrapsOwned s) ?_ ⟨boot_wf true, boot_token⟩
  rintro t a t' hs ⟨hwf, htoken, howned⟩
  exact ⟨hs.1.wf hwf, htoken.step hwf hs.1.1 hs.2, howned.step hwf hs.1.1⟩

lemma Preempted.traps {j : Slot} (h : Preempted s j) : ∃ a, (s.procs j).stack = some a ∧ s.cur ≠ .page a ∧
    trapFrames (s.stack (.page a)) ≠ [] := by
  rcases h with ⟨a, ha, hcur, b, hb⟩
  exact ⟨a, ha, hcur, List.ne_nil_of_mem (mem_trapFrames.mpr ⟨hb, rfl⟩)⟩

/-- In the code of a process, with `SIE` clear, the token is with a process off the hart. -/
lemma OneToken.preempted (h : OneToken s) (hwf : Wf s) (howned : TrapsOwned s) (hown : InOwnCode s)
    (hsie : s.sie = false) : ∃ j, Preempted s j := by
  rcases hown with ⟨hcur, _, hno⟩
  obtain ⟨a, ha⟩ : ∃ a, s.cur = .page a := by
    cases hc : s.cur with
    | boot => exact absurd hc hcur
    | page a => exact ⟨a, rfl⟩
  cases h with
  | hart hon => exact absurd (hsie.symm.trans hon) (by simp)
  | frame k _ hk hnone =>
      have hmem : Frame.trap true ∈ s.stack k ∧ isTrap (.trap true) = true := by
        rw [← mem_trapFrames, hk]
        exact List.mem_singleton_self _
      cases k with
      | boot =>
          rcases (hwf.onPage a ha).2 with ⟨i, hi⟩
          rw [hi] at hmem
          exact absurd hmem.1 (by simp)
      | page b =>
          rcases howned b (by rw [hk]; exact List.cons_ne_nil _ _) with ⟨j, hj⟩
          refine ⟨j, b, hj, fun hb => hno true ?_, true, hmem.1⟩
          rw [frames, hb]
          exact hmem.1

end

end Kernel

open Transition Kernel

/-- **The preempted process**, in every schedule in which process code leaves `SIE` alone: there is at most one, while
there is one interrupts are off, process code runs with interrupts off only while there is one, and it stays so until it
is dispatched. -/
theorem preempted_unique {ls : List Act} {s : Kernel} (h : Run (PlainStep AtRest) (boot true) ls s) :
    (∀ i j, Preempted s i → Preempted s j → i = j) ∧ (∀ j, Preempted s j → s.sie = false) ∧
      (InOwnCode s → s.sie = false → ∃ j, Preempted s j) ∧
      ∀ j, Preempted s j → ∀ ls' s', Run (PlainStep AtRest) s ls' s' →
        ∃ l, s'.dispatches = s.dispatches ++ l ∧ (Preempted s' j ∨ j ∈ l) := by
  rcases token_of_run h with ⟨hwf, htoken, howned⟩
  have hone : ∀ j a, (s.procs j).stack = some a → trapFrames (s.stack (.page a)) ≠ [] →
      s.sie = false ∧ ∀ k, trapFrames (s.stack k) ≠ [] → k = .page a := by
    intro j a _ htraps
    cases htoken with
    | hart _ hnone => exact absurd (hnone _) htraps
    | frame k hoff _ hnone =>
        have honly : ∀ i, trapFrames (s.stack i) ≠ [] → i = k := fun i hi => by
          by_contra hne
          exact hi (hnone i hne)
        exact ⟨hoff, fun i hi => (honly i hi).trans (honly _ htraps).symm⟩
  refine ⟨?_, ?_, htoken.preempted hwf howned, fun j hj ls' s' hrun => hj.run hrun hwf⟩
  · intro i j hi hj
    rcases hi.traps with ⟨a, ha, _, hta⟩
    rcases hj.traps with ⟨b, hb, _, htb⟩
    have hab : StackId.page a = .page b := (hone j b hb htb).2 _ hta
    obtain rfl := StackId.page.inj hab
    exact hwf.stackInj i j a ha hb
  · intro j hj
    rcases hj.traps with ⟨a, ha, _, hta⟩
    exact (hone j a ha hta).1

/-- The second of two processes runs with interrupts off, and the first is the preempted one. -/
theorem preempted_unique_pair : ∃ ls s, Run (PlainStep AtRest) (boot true) ls s ∧ InOwnCode s ∧ Preempted s 0 ∧
    s.sie = false ∧ ∀ j, Preempted s j → j = 0 := by
  have hrest : AtRest pairFirst := by
    have hentry : InEntry pairFirst := ⟨by simp [pairFirst, called, dispatched, setFrames], _, rfl⟩
    exact hentry.resumable.atRest
  rcases reaches_pairDispatch.trans (reaches_pairSecond hrest) with ⟨ls, hrun⟩
  have hunique := preempted_unique hrun
  have hfirst : Preempted pairSecond 0 :=
    ⟨4096, rfl, by simp [pairSecond, called, dispatched, setFrames], true, by decide⟩
  refine ⟨ls, pairSecond, hrun, ⟨by simp [pairSecond, called, dispatched, setFrames], ?_⟩, hfirst,
    hunique.2.1 0 hfirst, fun j hj => hunique.1 j 0 hj hfirst⟩
  have hfr : pairSecond.frames = [.entry, .forkret .inEntry] := rfl
  rw [hfr]
  simp

/-- **The depth of interrupts**, in every run whose interrupts are taken in `Quiet` states: there are never more trap
frames, on all stacks together, than `SIE` has been set by hand, or one more if it was set at boot. -/
theorem trap_frames_le {sie : Bool} {ls : List Act} {s : Kernel} (h : Run (Step Quiet) (boot sie) ls s)
    (K : Finset StackId) : ∑ k ∈ K, s.traps k + s.sie.toNat ≤ sie.toNat + ls.count (.setSie true) :=
  tokensLe_of_run h (boot_tokensLe sie) K

/-- A process off the hart has the token of the boot. -/
theorem trap_frames_le_first : ∃ ls s, Run (Step Quiet) (boot true) ls s ∧ s.traps (.page 4096) = 1 ∧
    ∑ k ∈ {.page 4096}, s.traps k + s.sie.toNat ≤ 1 + ls.count (.setSie true) := by
  have hquiet : Quiet (firstEntry 4096 ⟨some 0, none⟩) := firstEntry_quiet ..
  rcases (reaches_firstPreempted 4096 (r := ⟨some 0, none⟩) rfl hquiet).run with ⟨ls, hrun⟩
  exact ⟨ls, _, hrun, rfl, trap_frames_le hrun {.page 4096}⟩

end NetStack
