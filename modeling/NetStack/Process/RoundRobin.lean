import NetStack.Process.ProcessTable

/-!
# Round-robin service

Between two dispatches of a process `p` that follow each other, every other process that exists and does not end
is dispatched exactly once, in cyclic slot order after `p`: `round_robin`.

The invariant (`OnRound`) says how far `scheduler` has come since the dispatch of `p`, counted cyclically from the
slot after `p` (`passed`, `reached`): the slots dispatched since lie before that position, in order, and every slot
before it was dispatched, is a zombie, or was free at the first dispatch.
-/

namespace NetStack

open Transition

namespace Kernel

/-- The place of slot `q` in cyclic order after `p`. -/
def rank (p q : Slot) : ℕ := if p < q then q - p - 1 else q + (nproc - 1) - p

/-- How many slots `scheduler`'s pass is done with; `onBoot` says whether it has the hart. -/
def passed (onBoot : Bool) : SchedPc → ℕ
  | .start => 0
  | .loop i _ => i
  | .testState i _ | .setRunning i | .setCurrent i | .save i => i
  | .restore i => if onBoot then i else i + 1
  | .clearCurrent i | .setFound i => i + 1
  | _ => nproc

/-- The pass has found a process. -/
def foundOne : SchedPc → Prop
  | .loop _ found | .testState _ found | .testFound found => found = true
  | .scan _ | .testActive _ | .testDone _ | .wfi | .start => False
  | _ => True

/-- How far the scheduler has come since the dispatch of `p`: in the pass of that dispatch, or in the next. -/
def reached (p : Slot) (next : Bool) (n : ℕ) : ℕ := if next then n + (nproc - 1) - p else n - p - 1

/-- The scheduler, `n` slots into a pass, has not come back to `p`. -/
def InRound (p : Slot) (pc : SchedPc) (next : Bool) (n : ℕ) : Prop :=
  if next then n ≤ p else p < n ∧ n ≤ nproc ∧ foundOne pc

/-- The first `n` slots after `p` have been served: `mid` holds them, but for the zombies and those free at `s₁`. -/
structure Done (p : Slot) (s₁ s : Kernel) (mid : List Slot) (n : ℕ) : Prop where
  early : ∀ q ∈ mid, rank p q < n
  served : ∀ q, rank p q < n → q ∈ mid ∨ (s.procs q).state = .zombie ∨ (s₁.procs q).state = .unused
  sorted : mid.Pairwise fun q q' => rank p q < rank p q'
  notMem : p ∉ mid

/-- Since the dispatch of `p` at `s₁`, `scheduler` has dispatched `mid`. -/
def OnRound (p : Slot) (s₁ s : Kernel) (mid : List Slot) : Prop :=
  ∃ next pc, s.stack .boot = [.sched pc, .main false] ∧
    InRound p pc next (passed (s.cur = .boot) pc) ∧
    Done p s₁ s mid (reached p next (passed (s.cur = .boot) pc))

/-- Since the dispatch of `p` at `s₁`: the round goes on, or `p` was dispatched again, or has ended. -/
def Round (p : Slot) (s₁ s : Kernel) : Prop :=
  ∃ mid, s.dispatches = s₁.dispatches ++ mid ∧
    (OnRound p s₁ s mid ∨ p ∈ mid ∨ (s.procs p).state = .zombie)

/-! ## Positions -/

lemma rank_injective {p q q' : Slot} (h : rank p q = rank p q') : q = q' := by
  have := p.isLt
  have := q.isLt
  have := q'.isLt
  apply Fin.ext
  simp only [rank, nproc, Fin.lt_def] at *
  split_ifs at h <;> omega

/-- The slot at which the scheduler is. -/
lemma InRound.rank_eq {p i : Slot} {pc : SchedPc} {next : Bool} (h : InRound p pc next i) :
    rank p i = reached p next i := by
  cases next with
  | true =>
      have hle : i ≤ p := Fin.le_def.mpr h
      simp only [rank, reached, if_neg (not_lt.mpr hle), if_true]
  | false =>
      have hlt : p < i := Fin.lt_def.mpr h.1
      simp only [rank, reached, if_pos hlt, Bool.false_eq_true, if_false]

lemma InRound.reached_succ {p i : Slot} {pc : SchedPc} {next : Bool} (h : InRound p pc next i) :
    reached p next (i + 1) = reached p next i + 1 := by
  have := p.isLt
  cases next with
  | true =>
      simp only [reached, nproc, if_true] at *
      omega
  | false =>
      have hlt : (p : ℕ) < i := h.1
      simp only [reached, nproc, Bool.false_eq_true, if_false]
      omega

/-- Past any slot but `p`, the round goes on. -/
lemma InRound.succ {p i : Slot} {pc pc' : SchedPc} {next : Bool} (h : InRound p pc next i) (hne : i ≠ p)
    (hpc : foundOne pc → foundOne pc') : InRound p pc' next (i + 1) := by
  have hne' : (i : ℕ) ≠ p := fun heq => hne (Fin.ext heq)
  have := i.isLt
  cases next with
  | true =>
      have hle : (i : ℕ) ≤ p := h
      show (i : ℕ) + 1 ≤ p
      omega
  | false => exact ⟨by have := h.1; omega, by omega, hpc h.2.2⟩

/-- The round does not depend on the statement, while the slot is the same. -/
lemma InRound.congr {p : Slot} {pc pc' : SchedPc} {next : Bool} {n : ℕ} (h : InRound p pc next n)
    (hpc : foundOne pc → foundOne pc') : InRound p pc' next n := by
  cases next with
  | true => exact h
  | false => exact ⟨h.1, h.2.1, hpc h.2.2⟩

/-- At the end of the pass in which `p` was dispatched, the pass has found a process. -/
lemma InRound.atEnd {p : Slot} {pc : SchedPc} {next : Bool} (h : InRound p pc next nproc) :
    next = false ∧ foundOne pc := by
  cases next with
  | true => exact absurd (show nproc ≤ (p : ℕ) from h) (not_le.mpr p.isLt)
  | false => exact ⟨rfl, h.2.2⟩

lemma Done.congr {p : Slot} {s₁ s s' : Kernel} {mid : List Slot} {n : ℕ} (h : Done p s₁ s mid n)
    (hz : ∀ q, (s.procs q).state = .zombie → (s'.procs q).state = .zombie) : Done p s₁ s' mid n where
  early := h.early
  served := fun q hq => (h.served q hq).imp_right (Or.imp_left (hz q))
  sorted := h.sorted
  notMem := h.notMem

/-- A slot that is passed over. -/
lemma Done.skip {p i : Slot} {s₁ s : Kernel} {mid : List Slot} {n : ℕ} (h : Done p s₁ s mid n)
    (hn : rank p i = n) (hi : (s.procs i).state = .zombie ∨ (s₁.procs i).state = .unused) :
    Done p s₁ s mid (n + 1) where
  early := fun q hq => Nat.lt_succ_of_lt (h.early q hq)
  served := by
    intro q hq
    rcases Nat.lt_succ_iff_lt_or_eq.mp hq with hlt | heq
    · exact h.served q hlt
    · exact .inr (rank_injective (heq.trans hn.symm) ▸ hi)
  sorted := h.sorted
  notMem := h.notMem

/-- A slot that is dispatched. -/
lemma Done.dispatch {p i : Slot} {s₁ s : Kernel} {mid : List Slot} {n : ℕ} (h : Done p s₁ s mid n)
    (hn : rank p i = n) (hne : i ≠ p) : Done p s₁ s (mid ++ [i]) (n + 1) where
  early := by
    intro q hq
    rcases List.mem_append.mp hq with hq | hq
    · exact Nat.lt_succ_of_lt (h.early q hq)
    · rw [List.mem_singleton.mp hq, hn]
      exact Nat.lt_succ_self n
  served := by
    intro q hq
    rcases Nat.lt_succ_iff_lt_or_eq.mp hq with hlt | heq
    · exact (h.served q hlt).imp_left (List.mem_append_left _)
    · exact .inl (by simp [rank_injective (heq.trans hn.symm)])
  sorted := by
    refine List.pairwise_append.mpr ⟨h.sorted, List.pairwise_singleton _ _, ?_⟩
    intro q hq q' hq'
    rw [List.mem_singleton.mp hq', hn]
    exact h.early q hq
  notMem := by
    intro hp
    rcases List.mem_append.mp hp with hp | hp
    · exact h.notMem hp
    · exact hne (List.mem_singleton.mp hp).symm

/-! ## One step -/

/-- What a step on a process's stack leaves alone. -/
lemma Does.onPage {s s' : Kernel} {a : Act} {b : ℕ} (h : Does s a s') (hcur : s.cur = .page b) :
    (s'.cur = s.cur ∧ s'.stack .boot = s.stack .boot ∧ s'.dispatches = s.dispatches) ∨
      ∃ i, s.stack .boot = [.sched (.restore i), .main false] ∧ s'.cur = .boot ∧
        s'.stack .boot = [.sched (.clearCurrent i), .main false] ∧ s'.dispatches = s.dispatches := by
  have hother : ∀ fs, Function.update s.stack s.cur fs .boot = s.stack .boot := by
    intro fs
    rw [hcur, Function.update_of_ne (by simp)]
  cases h with
  | @park k i a rest v w hfr hcur' hk hnone hboot =>
      exact .inr ⟨i, hboot, rfl, by simp, rfl⟩
  | schedNext _ hboot => exact absurd (hboot.symm.trans hcur) (by simp)
  | schedExit _ hboot => exact absurd (hboot.symm.trans hcur) (by simp)
  | schedRunning _ hboot => exact absurd (hboot.symm.trans hcur) (by simp)
  | schedCurrent _ hboot => exact absurd (hboot.symm.trans hcur) (by simp)
  | schedSave _ _ hboot => exact absurd (hboot.symm.trans hcur) (by simp)
  | dispatch _ hboot => exact absurd (hboot.symm.trans hcur) (by simp)
  | callScheduler _ hboot => exact absurd (hboot.symm.trans hcur) (by simp)
  | own => exact .inl ⟨rfl, rfl, rfl⟩
  | setSie => exact .inl ⟨rfl, rfl, rfl⟩
  | _ => exact .inl ⟨rfl, hother _, rfl⟩

/-- What a step of `scheduler` does to its place in the pass. -/
inductive SchedMoves (s s' : Kernel) (pc : SchedPc) : Prop
  | next {pc' : SchedPc} (h : SchedNext s pc pc') (hboot : s'.stack .boot = [.sched pc', .main false])
      (hcur : s'.cur = .boot) (hdisp : s'.dispatches = s.dispatches)
  | stay {pc' : SchedPc} (i : Slot) (h : pc = .setRunning i ∧ pc' = .setCurrent i ∨
        pc = .setCurrent i ∧ pc' = .save i ∨ pc = .save i ∧ pc' = .restore i)
      (hboot : s'.stack .boot = [.sched pc', .main false]) (hcur : s'.cur = .boot)
      (hdisp : s'.dispatches = s.dispatches)
  | dispatch (i : Slot) (h : pc = .restore i) (hboot : s'.stack .boot = s.stack .boot) (hcur : s'.cur ≠ .boot)
      (hdisp : s'.dispatches = s.dispatches ++ [i])
  | exit (h : pc = .testDone false) (hdisp : s'.dispatches = s.dispatches)

lemma Does.onBoot {s s' : Kernel} {a : Act} {pc : SchedPc} (h : Does s a s') (ha : a ≠ .interrupt)
    (hfr : s.frames = [.sched pc, .main false]) (hcur : s.cur = .boot) : SchedMoves s s' pc := by
  have hself : ∀ fs, Function.update s.stack s.cur fs .boot = fs := by
    intro fs
    rw [hcur, Function.update_self]
  cases h with
  | schedNext hfr' _ _ hpc =>
      obtain rfl : pc = _ := by simpa using hfr.symm.trans hfr'
      exact .next hpc (hself _) hcur rfl
  | schedExit hfr' => exact .exit (by simpa using hfr.symm.trans hfr') rfl
  | @schedRunning i v hfr' =>
      exact .stay i (.inl ⟨by simpa using hfr.symm.trans hfr', rfl⟩) (hself _) hcur rfl
  | @schedCurrent i v hfr' =>
      exact .stay i (.inr (.inl ⟨by simpa using hfr.symm.trans hfr', rfl⟩)) (hself _) hcur rfl
  | @schedSave i v c hfr' =>
      exact .stay i (.inr (.inr ⟨by simpa using hfr.symm.trans hfr', rfl⟩)) (hself _) hcur rfl
  | @dispatch i a fs v w hfr' =>
      have hboot : Function.update s.stack (.page a) fs .boot = s.stack .boot :=
        Function.update_of_ne (by simp) ..
      exact .dispatch i (by simpa using hfr.symm.trans hfr') hboot (by simp) rfl
  | interrupt => exact absurd rfl ha
  | idle hfr' hf =>
      rw [← (List.cons.inj (hfr.symm.trans hfr')).1] at hf
      exact absurd hf (by simp [Idle])
  | returns hfr' hf =>
      rw [← (List.cons.inj (hfr.symm.trans hfr')).1] at hf
      cases hf
  | own hfr' hf =>
      rw [← (List.cons.inj (hfr.symm.trans hfr')).1] at hf
      exact absurd hf (by simp)
  | callCreate hfr' hf =>
      rw [← (List.cons.inj (hfr.symm.trans hfr')).1] at hf
      exact absurd hf (by simp)
  | _ => simp_all

section Step

variable {p : Slot} {s₁ s s' : Kernel} {mid : List Slot}

/-- A step of `scheduler` that only moves control. -/
lemma SchedNext.onRound {pc pc' : SchedPc} {next : Bool} (h : SchedNext s pc pc') (hpass : PassOk s pc)
    (hrun : ∀ q, (s.procs q).state ≠ .running)
    (hused : ∀ q, (s₁.procs q).state ≠ .unused → (s.procs q).state ≠ .unused) (hp : (s₁.procs p).state ≠ .unused)
    (hin : InRound p pc next (passed true pc)) (hdone : Done p s₁ s mid (reached p next (passed true pc))) :
    (∃ next', InRound p pc' next' (passed true pc') ∧ Done p s₁ s mid (reached p next' (passed true pc'))) ∨
      (s.procs p).state = .zombie := by
  cases h with
  | start => exact .inl ⟨next, hin.congr (by simp [foundOne]), hdone⟩
  | loop => exact .inl ⟨next, hin.congr id, hdone⟩
  | @loopEnd i found hi =>
      cases next with
      | true =>
          have hle : i ≤ (p : ℕ) := hin
          have := p.isLt
          omega
      | false =>
          obtain rfl : i = nproc := by
            have hle : i ≤ nproc := hin.2.1
            omega
          exact .inl ⟨false, hin.congr id, hdone⟩
  | runnable => exact .inl ⟨next, hin.congr fun _ => trivial, hdone⟩
  | @skip i found hst =>
      have hi : (s.procs i).state = .zombie ∨ (s₁.procs i).state = .unused := by
        cases hs : (s.procs i).state with
        | zombie => exact .inl rfl
        | runnable => exact absurd hs hst
        | running => exact absurd hs (hrun i)
        | unused => exact .inr (not_not.mp fun hu => hused i hu hs)
      rcases eq_or_ne i p with rfl | hne
      · exact .inr (hi.resolve_right hp)
      · refine .inl ⟨next, hin.succ hne id, ?_⟩
        show Kernel.Done p s₁ s mid (reached p next (i + 1))
        rw [hin.reached_succ]
        exact hdone.skip hin.rank_eq hi
  | returned => exact .inl ⟨next, hin.congr id, hdone⟩
  | found => exact .inl ⟨next, hin.congr fun _ => rfl, hdone⟩
  | again =>
      obtain ⟨rfl, _⟩ := hin.atEnd
      refine .inl ⟨true, Nat.zero_le _, ?_⟩
      have hsame : reached p true 0 = reached p false nproc := by
        simp only [reached, nproc, if_true, Bool.false_eq_true, if_false]
        omega
      show Kernel.Done p s₁ s mid (reached p true 0)
      rw [hsame]
      exact hdone
  | search => exact absurd hin.atEnd.2 (by simp [foundOne])
  | scan => exact absurd hin.atEnd.2 (by simp [foundOne])
  | scanEnd => exact absurd hin.atEnd.2 (by simp [foundOne])
  | active => exact absurd hin.atEnd.2 (by simp [foundOne])
  | inactive => exact absurd hin.atEnd.2 (by simp [foundOne])
  | wait => exact absurd hpass (by simp [PassOk])
  | wake => exact absurd hpass (by simp [PassOk])

/-- A step dispatches nothing, or what `scheduler` switches to. -/
lemma Does.dispatches {a : Act} (h : Does s a s') : s'.dispatches = s.dispatches ∨
    ∃ i, s.frames = [.sched (.restore i), .main false] ∧ s.cur = .boot ∧ s'.cur ≠ .boot ∧
      s'.stack .boot = s.stack .boot ∧ s'.dispatches = s.dispatches ++ [i] ∧ s'.procs = s.procs := by
  cases h with
  | @dispatch i a fs v w hfr hcur =>
      have hboot : Function.update s.stack (.page a) fs .boot = s.stack .boot :=
        Function.update_of_ne (by simp) ..
      exact .inr ⟨i, hfr, hcur, by simp, hboot, rfl, rfl⟩
  | _ => exact .inl rfl

/-- A step of the round on the boot stack. -/
lemma OnRound.bootStep {a : Act} (h : OnRound p s₁ s mid) (hwf : Wf s) (halive : Alive s)
    (hs : Step Resumable s a s') (hp : (s₁.procs p).state ≠ .unused)
    (hused : ∀ q, (s₁.procs q).state ≠ .unused → (s.procs q).state ≠ .unused) (hcur : s.cur = .boot) :
    ∃ l, s'.dispatches = s.dispatches ++ l ∧
      (OnRound p s₁ s' (mid ++ l) ∨ p ∈ mid ++ l ∨ (s'.procs p).state = .zombie) := by
  rcases h with ⟨next, pc, hboot, hin, hdone⟩
  simp only [hcur, decide_true] at hin hdone
  have hfr : s.frames = [.sched pc, .main false] := by rw [frames, hcur, hboot]
  have ha : a ≠ .interrupt := fun ha => (hs.2 ha).1 hcur
  have hdoes := does_of_step hwf hs.1
  have hz : ∀ q, (s.procs q).state = .zombie → (s'.procs q).state = .zombie := by
    intro q hq
    rcases hdoes.state hwf halive q with hst | ⟨hst, _⟩
    · exact hst.trans hq
    · exact absurd hq hst
  cases hdoes.onBoot ha hfr hcur with
  | @next pc' hpc hboot' hcur' hdisp =>
      refine ⟨[], by rw [hdisp, List.append_nil], ?_⟩
      rw [List.append_nil]
      have hnone : s.current = none := by
        rcases hwf.schedTop hfr with ⟨_, _, ⟨hnone, _⟩ | ⟨i, _, _, rfl | rfl⟩⟩
        · exact hnone
        · cases hpc
        · cases hpc
      have hrun := halive.notRunning_sched hnone hfr hpc.not_dispatching
      rcases hpc.onRound (halive.pass _ _ hfr) hrun hused hp hin hdone with ⟨next', hin', hdone'⟩ | hend
      · refine .inl ⟨next', pc', hboot', ?_⟩
        simp only [hcur', decide_true]
        exact ⟨hin', hdone'.congr hz⟩
      · exact .inr (.inr (hz p hend))
  | stay i hpc hboot' hcur' hdisp =>
      refine ⟨[], by rw [hdisp, List.append_nil], ?_⟩
      rw [List.append_nil]
      refine .inl ⟨next, _, hboot', ?_⟩
      simp only [hcur', decide_true]
      rcases hpc with ⟨rfl, rfl⟩ | ⟨rfl, rfl⟩ | ⟨rfl, rfl⟩ <;>
      exact ⟨hin.congr fun _ => trivial, hdone.congr hz⟩
  | dispatch i hpc hboot' hcur' hdisp =>
      subst hpc
      refine ⟨[i], hdisp, ?_⟩
      rcases eq_or_ne i p with rfl | hne
      · exact .inr (.inl (by simp))
      · refine .inl ⟨next, _, hboot'.trans hboot, ?_⟩
        simp only [hcur', decide_false]
        refine ⟨hin.succ hne id, ?_⟩
        show Kernel.Done p s₁ s' (mid ++ [i]) (reached p next (i + 1))
        rw [hin.reached_succ]
        exact (hdone.dispatch hin.rank_eq hne).congr hz
  | exit hpc =>
      subst hpc
      exact absurd hin.atEnd.2 (by simp [foundOne])

/-- A step of the round on the stack of a process. -/
lemma OnRound.pageStep {a : Act} {b : ℕ} (h : OnRound p s₁ s mid) (hwf : Wf s) (halive : Alive s)
    (hs : Step Resumable s a s') (hcur : s.cur = .page b) :
    s'.dispatches = s.dispatches ∧ OnRound p s₁ s' mid := by
  rcases h with ⟨next, pc, hboot, hin, hdone⟩
  have hdoes := does_of_step hwf hs.1
  have hz : ∀ q, (s.procs q).state = .zombie → (s'.procs q).state = .zombie := by
    intro q hq
    rcases hdoes.state hwf halive q with hst | ⟨hst, _⟩
    · exact hst.trans hq
    · exact absurd hq hst
  rcases hdoes.onPage hcur with ⟨hcur', hboot', hdisp⟩ | ⟨i, hboot₀, hcur', hboot', hdisp⟩
  · refine ⟨hdisp, next, pc, hboot'.trans hboot, ?_⟩
    rw [hcur']
    exact ⟨hin, hdone.congr hz⟩
  · obtain rfl : pc = .restore i := by simpa using hboot.symm.trans hboot₀
    refine ⟨hdisp, next, .clearCurrent i, hboot', ?_⟩
    simp only [hcur, reduceCtorEq, decide_false] at hin hdone
    simp only [hcur', decide_true]
    exact ⟨hin.congr id, hdone.congr hz⟩

/-- What holds since the dispatch of `p` at `s₁`. -/
structure Since (p : Slot) (s₁ s : Kernel) : Prop where
  used : ∀ q, (s₁.procs q).state ≠ .unused → (s.procs q).state ≠ .unused
  round : Round p s₁ s

/-- **One step of the round.** -/
lemma Since.step {a : Act} (h : Since p s₁ s) (hwf : Wf s) (halive : Alive s) (hs : Step Resumable s a s')
    (hp : (s₁.procs p).state ≠ .unused) : Since p s₁ s' where
  used := by
    intro q hq
    rcases (does_of_step hwf hs.1).state hwf halive q with hst | ⟨_, hst⟩
    · rw [hst]
      exact h.used q hq
    · exact hst
  round := by
    have hdoes := does_of_step hwf hs.1
    rcases h.round with ⟨mid, hmid, hround | hmem | hz⟩
    · rcases hcur : s.cur with _ | b
      · rcases hround.bootStep hwf halive hs hp h.used hcur with ⟨l, hl, hnext⟩
        exact ⟨mid ++ l, by rw [hl, hmid, List.append_assoc], hnext⟩
      · rcases hround.pageStep hwf halive hs hcur with ⟨hdisp, hnext⟩
        exact ⟨mid, hdisp.trans hmid, .inl hnext⟩
    · rcases hdoes.dispatches with hdisp | ⟨i, _, _, _, _, hdisp, _⟩
      · exact ⟨mid, hdisp.trans hmid, .inr (.inl hmem)⟩
      · exact ⟨mid ++ [i], by rw [hdisp, hmid, List.append_assoc], .inr (.inl (List.mem_append_left _ hmem))⟩
    · have hz' : (s'.procs p).state = .zombie := by
        rcases hdoes.state hwf halive p with hst | ⟨hst, _⟩
        · exact hst.trans hz
        · exact absurd hz hst
      rcases hdoes.dispatches with hdisp | ⟨i, _, _, _, _, hdisp, _⟩
      · exact ⟨mid, hdisp.trans hmid, .inr (.inr hz')⟩
      · exact ⟨mid ++ [i], by rw [hdisp, hmid, List.append_assoc], .inr (.inr hz')⟩

/-- **The whole round.** -/
lemma Since.run {ls : List Act} (hrun : Run (Step Resumable) s₁ ls s) (hwf : Wf s₁) (halive : Alive s₁)
    (hp : (s₁.procs p).state ≠ .unused) (hstart : Round p s₁ s₁) : Since p s₁ s := by
  have hinv : (Wf s ∧ Alive s) ∧ Since p s₁ s := by
    refine hrun.invariant (P := fun s => (Wf s ∧ Alive s) ∧ Since p s₁ s) ?_ ⟨⟨hwf, halive⟩, fun _ => id, hstart⟩
    rintro t a t' hs ⟨⟨hwf, halive⟩, hsince⟩
    exact ⟨⟨Step.wf ⟨hs.1, fun ha => (hs.2 ha).atRest⟩ hwf, halive.step hwf hs⟩, hsince.step hwf halive hs hp⟩
  exact hinv.2

end Step

end Kernel

open Kernel

/-- **Round-robin service.**  Between a dispatch of `p` and the next one, the dispatches are in cyclic slot order
after `p`, and every other process that existed at the first and has not ended at the second is among them once. -/
theorem round_robin {sie : Bool} {ls l : List Act} {a b : Act} {s₀ s₁ s₂ s₃ : Kernel} {p : Slot} {mid : List Slot}
    (hrun : Run (Step Resumable) (boot sie) ls s₀)
    (hfirst : Step Resumable s₀ a s₁) (hp₁ : s₁.dispatches = s₀.dispatches ++ [p])
    (hbetween : Run (Step Resumable) s₁ l s₂) (hmid : s₂.dispatches = s₁.dispatches ++ mid) (hno : p ∉ mid)
    (hsecond : Step Resumable s₂ b s₃) (hp₂ : s₃.dispatches = s₂.dispatches ++ [p]) :
    mid.Pairwise (fun q q' => rank p q < rank p q') ∧
      ∀ q ≠ p, (s₁.procs q).state ≠ .unused → (s₂.procs q).state ≠ .zombie → mid.count q = 1 := by
  rcases alive_of_run hrun with ⟨hwf, halive⟩
  rcases alive_of_run (hrun.snoc hfirst) with ⟨hwf₁, halive₁⟩
  rcases alive_of_run ((hrun.snoc hfirst).append hbetween) with ⟨hwf₂, halive₂⟩
  have hsame : ∀ {s s' : Kernel}, s'.dispatches = s.dispatches ++ [p] → ¬ s'.dispatches = s.dispatches := by
    intro s s' hp heq
    exact absurd (hp.symm.trans heq) (by simp)
  obtain ⟨i, hfr, hcur, hcur₁, hboot, hdisp, hprocs⟩ :=
    (does_of_step hwf hfirst.1).dispatches.resolve_left (hsame hp₁)
  obtain rfl : p = i := by simpa using hp₁.symm.trans hdisp
  have hused : (s₁.procs p).state ≠ .unused := by
    have hstate : (s₀.procs p).state = .running := halive.pass _ _ hfr
    rw [hprocs, hstate]
    simp
  have hstart : Round p s₁ s₁ := by
    refine ⟨[], by simp, .inl ⟨false, .restore p, ?_, ?_⟩⟩
    · rw [hboot, ← hfr, frames, hcur]
    · simp only [hcur₁, decide_false]
      have hzero : reached p false (p + 1) = 0 := by
        simp only [reached, Bool.false_eq_true, if_false]
        omega
      refine ⟨⟨Nat.lt_succ_self _, p.isLt, trivial⟩, ?_⟩
      show Kernel.Done p s₁ s₁ [] (reached p false (p + 1))
      rw [hzero]
      exact ⟨by simp, by simp, .nil, by simp⟩
  obtain ⟨j, hfr₂, hcur₂, _, _, hdisp₂, _⟩ :=
    (does_of_step hwf₂ hsecond.1).dispatches.resolve_left (hsame hp₂)
  obtain rfl : p = j := by simpa using hp₂.symm.trans hdisp₂
  rcases (Since.run hbetween hwf₁ halive₁ hused hstart).round with ⟨mid', hmid', hround | hmem | hz⟩
  · obtain rfl : mid = mid' := List.append_cancel_left (hmid.symm.trans hmid')
    rcases hround with ⟨next, pc, hboot₂, hin, hdone⟩
    obtain rfl : pc = .restore p := by
      rw [frames, hcur₂, hboot₂] at hfr₂
      simpa using hfr₂
    simp only [hcur₂, decide_true] at hin hdone
    -- the scheduler is back at `p`, so it has been at every other slot
    cases next with
    | false => exact absurd hin.1 (lt_irrefl _)
    | true =>
        refine ⟨hdone.sorted, ?_⟩
        intro q hq hq₁ hq₂
        have hrank : rank p q < reached p true p := by
          have hp : (p : ℕ) < 16 := p.isLt
          have hq' : (q : ℕ) < 16 := q.isLt
          have hne : (q : ℕ) ≠ p := fun heq => hq (Fin.ext heq)
          simp only [rank, reached, nproc, Fin.lt_def, if_true]
          split_ifs <;> omega
        have hmem : q ∈ mid := (hdone.served q hrank).resolve_right fun h => h.elim hq₂ hq₁
        have hnodup : mid.Nodup := by
          refine List.Pairwise.imp ?_ hdone.sorted
          rintro i j hlt rfl
          exact lt_irrefl _ hlt
        exact List.count_eq_one_of_mem hnodup hmem
  · obtain rfl : mid = mid' := List.append_cancel_left (hmid.symm.trans hmid')
    exact absurd hmem hno
  · have hstate : (s₂.procs p).state = .running := halive₂.pass _ _ hfr₂
    exact absurd (hstate.symm.trans hz) (by simp)

/-- Two processes: the first is dispatched and preempted, the second dispatched, and then the first again. -/
theorem round_robin_pair : ∃ ls l a b s₀ s₁ s₂ s₃,
    Run (Step Resumable) (boot true) ls s₀ ∧ Step Resumable s₀ a s₁ ∧ s₁.dispatches = s₀.dispatches ++ [0] ∧
      Run (Step Resumable) s₁ l s₂ ∧ s₂.dispatches = s₁.dispatches ++ [1] ∧
      Step Resumable s₂ b s₃ ∧ s₃.dispatches = s₂.dispatches ++ [0] ∧
      (s₁.procs 1).state ≠ .unused ∧ (s₂.procs 1).state ≠ .zombie ∧ List.count (1 : Slot) [1] = 1 := by
  let s₀ : Kernel := pairPass.switching 0 [.main false]
  let s₁ : Kernel := s₀.dispatched 0 4096 [.forkret .test] 0
  let o : Kernel := pairSecond.offHart 1 1 [.entry, .forkret .inEntry] [.main false] 0
  let n : Kernel := o.setFrames [.sched (.loop 0 false), .main false]
  let s₂ : Kernel := n.switching 0 [.main false]
  have hentry : InEntry pairFirst := ⟨by simp [pairFirst, called, dispatched, setFrames], _, rfl⟩
  rcases (reaches_pairSwitch (P := Resumable)).run with ⟨ls, hrun⟩
  have hfirst : Step Resumable s₀ (.step s₀.sregs) s₁ := ⟨step_started (frames_setFrames ..) rfl rfl, by simp⟩
  have hyield : Reaches Resumable pairSecond o := by
    have hcall : Reaches Resumable pairSecond (pairSecond.setFrames [.yield .load none, .entry, .forkret .inEntry]) :=
      .act (a := .callYield) (by simp) rfl
    exact hcall.trans (reaches_offHart (a := 8192) rfl rfl rfl rfl rfl)
  have hpass : Reaches Resumable o n := by
    have hfree : ∀ j : Slot, 2 ≤ (j : ℕ) → (o.procs j).state ≠ .runnable := by
      intro j hj
      have h₀ : j ≠ 0 := by
        rintro rfl
        exact absurd hj (by decide)
      have h₁ : j ≠ 1 := by
        rintro rfl
        exact absurd hj (by decide)
      have hsame : o.procs j = (boot true).procs j := by
        simp [o, offHart, pairSecond, pairPreempted, pairFirst, pairPass, called, dispatched, leaving, switching,
          created, setFrames, remember, setProc, setCurrent, setState, h₀, h₁]
      rw [hsame]
      simp [boot]
    have hnext := reaches_nextPass (P := Resumable) (s := o) (l := [.main false]) (i := 2) (by decide) hfree
    have hself : o.setFrames [.sched (.loop 2 true), .main false] = o := setFrames_of_frames rfl
    rwa [hself] at hnext
  have hpick : Reaches Resumable n s₂ := reaches_pick (i := 0) (frames_setFrames ..) (le_refl 0) rfl (by simp)
  rcases ((reaches_pairSecond hentry.resumable).trans (hyield.trans (hpass.trans hpick))).run with ⟨l, hbetween⟩
  have hsecond : Step Resumable s₂ (.step s₂.sregs) (s₂.dispatched 0 4096 (.yield .ret (some 0) ::
      [.trap true, .entry, .forkret .inEntry]) 0) := ⟨step_resumed (frames_setFrames ..) rfl rfl, by simp⟩
  have hmid : s₂.dispatches = s₁.dispatches ++ [1] := rfl
  refine ⟨ls, l, _, _, s₀, s₁, s₂, _, hrun, hfirst, rfl, hbetween, hmid, hsecond, rfl, by decide, by decide, ?_⟩
  exact (round_robin hrun hfirst rfl hbetween hmid (by decide) hsecond rfl).2 1 (by decide) (by decide) (by decide)

end NetStack
