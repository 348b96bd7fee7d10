import NetStack.Memory.KernelTables
import NetStack.Process.Create

/-!
# What an operation does to everybody else

The allocator has many clients: the page tables, the stacks of processes, the network driver, and whoever
else calls `mem_alloc`.  `Heap.Moves` says of one operation what the clients that take no part in it need to
know: whoever acts ends up with the pages `mine`, the others have the pages `others` before and after, and
neither their bytes nor those outside the heap have changed.

Here are the moves of `mem_alloc`, of its clients and of `proc_create`; those of the driver are in `DriverMoves`.
-/

namespace NetStack

open ByteMem Transition

/-- **One party acts** and ends up with the pages `mine`, next to others who own `others`. -/
structure Heap.Moves (h h' : Heap) (mine others : List ℕ) : Prop where
  split : ∃ l, h'.Split l (mine ++ others)
  pages : h'.pages = h.pages
  mem : ∀ x, pageFloor x ∈ others ∨ pageFloor x ∉ h.pages → h'.mem x = h.mem x

section

variable {h h' h'' : Heap} {l mine mine' keep others : List ℕ} {size p : ℕ}

lemma Heap.Moves.refl (hs : h.Split l (mine ++ others)) : h.Moves h mine others :=
  ⟨⟨l, hs⟩, rfl, fun _ _ => rfl⟩

/-- Moves of one party compose. -/
lemma Heap.Moves.trans (hm : h.Moves h' mine others) (hm' : h'.Moves h'' mine' others) : h.Moves h'' mine' others := by
  refine ⟨hm'.split, hm'.pages.trans hm.pages, fun x hx => ?_⟩
  have hx' : pageFloor x ∈ others ∨ pageFloor x ∉ h'.pages := by
    rw [hm.pages]
    exact hx
  exact (hm'.mem x hx').trans (hm.mem x hx)

lemma Heap.Moves.of_perm (hm : h.Moves h' mine others) (hp : mine'.Perm mine) : h.Moves h' mine' others := by
  obtain ⟨l, hs⟩ := hm.split
  exact ⟨⟨l, hs.of_perm (hp.append_right others)⟩, hm.pages, hm.mem⟩

/-- **Writing into one's own pages.** -/
lemma Heap.Split.moves_write (hs : h.Split l (mine ++ others)) {m : Mem}
    (hw : ∀ x, m x ≠ h.mem x → pageFloor x ∈ mine) : h.Moves { h with mem := m } mine others := by
  refine ⟨⟨l, hs.write fun x hx => List.mem_append_left _ (hw x hx)⟩, rfl, fun x hx => ?_⟩
  by_contra hne
  have hmine := hw x hne
  rcases hx with hother | hout
  · exact (List.nodup_append.mp (List.nodup_append.mp hs.nodup).2.1).2.2 _ hmine _ hother rfl
  · exact hout (hs.perm.mem_iff.mp (List.mem_append_right _ (List.mem_append_left _ hmine)))

/-- **`mem_alloc`** takes free pages and nothing else. -/
lemma Heap.Split.moves_alloc (hs : h.Split l (mine ++ others)) (hret : MemAllocReturns h size (h', p)) :
    (p = 0 ∧ h' = h) ∨ (p ≠ 0 ∧ h.Moves h' (blockPages p (pageCount size) ++ mine) others) := by
  rcases hs.alloc size with hfail | ⟨h₁, p₁, l', hret', hne, halloc, hsplit⟩
  · obtain ⟨rfl, rfl⟩ := Prod.mk.inj (hret.unique hfail)
    exact .inl ⟨rfl, rfl⟩
  · obtain ⟨rfl, rfl⟩ := Prod.mk.inj (hret.unique hret')
    rw [← List.append_assoc] at hsplit
    refine .inr ⟨hne, ⟨l', hsplit⟩, halloc.pages, fun x hx => halloc.mem x ?_⟩
    rw [← halloc.pages] at hx
    exact hsplit.off_link_words (hsplit.notMem_free_of (hx.imp_left (List.mem_append_right _)))

/-- **A client of the allocator.** -/
lemma AllocStep.moves {live : List (List ℕ)} {op : AllocOp} {s : AllocSys} (hstep : AllocStep ⟨h, live⟩ op s)
    (hs : h.Split l (live.flatten ++ others)) : h.Moves s.heap s.live.flatten others := by
  obtain ⟨hsplit, hstart, hend, hkeep⟩ := hstep.split others hs
  refine ⟨hsplit, ?_, hkeep⟩
  rw [Heap.pages_eq, hstart, hend, ← Heap.pages_eq]

end

/-! ## The process table -/

namespace Table

variable {forkret : ℕ} {procs procs' : Slot → Process} {h h' : Heap} {l others : List ℕ} {k : Slot}

lemma mem_stackPages_of_used (hk : Used procs k) : (procs k).stack ∈ stackPages procs := mem_stackPages.mpr ⟨k, hk, rfl⟩

/-- Processes that exist stay, with the stacks they have. -/
def Kept (procs procs' : Slot → Process) : Prop :=
  ∀ k, Used procs k → Used procs' k ∧ (procs' k).stack = (procs k).stack

lemma kept_update {p : Process} (hst : p.state ≠ .unused) (hstack : Used procs k → p.stack = (procs k).stack) :
    Kept procs (Function.update procs k p) := by
  intro j hj
  by_cases hjk : j = k
  · subst hjk
    rw [Used, Function.update_self]
    exact ⟨hst, hstack hj⟩
  · rw [Used, Function.update_of_ne hjk]
    exact ⟨hj, rfl⟩

/-- **`proc_create`** takes at most one page; every page that was somebody's stays as it is. -/
lemma procCreate_moves {limit : ℕ} {r : Request} {ret : Option Slot} (hs : h.Split l (stackPages procs ++ others))
    (hcall : procCreate limit forkret procs h r = some (procs', h', ret)) : Kept procs procs' ∧
      ∃ new, h.Moves h' new (stackPages procs ++ others) ∧ (stackPages procs').Perm (new ++ stackPages procs) := by
  have hfail : procs' = procs → h' = h → Kept procs procs' ∧
      ∃ new, h.Moves h' new (stackPages procs ++ others) ∧ (stackPages procs').Perm (new ++ stackPages procs) := by
    rintro rfl rfl
    exact ⟨fun _ hj => ⟨hj, rfl⟩, [], .refl hs, .refl _⟩
  rw [procCreate] at hcall
  cases hfind : findUnused procs with
  | none =>
      simp only [hfind, Option.some.injEq, Prod.mk.injEq] at hcall
      exact hfail hcall.1.symm hcall.2.1.symm
  | some k =>
      simp only [hfind, Option.bind_eq_bind, Option.bind_eq_some_iff, Prod.exists] at hcall
      obtain ⟨h₁, stack, halloc, hcall⟩ := hcall
      have hs' : h.Split l ([] ++ (stackPages procs ++ others)) := hs
      rcases hs'.moves_alloc ⟨limit, halloc⟩ with ⟨rfl, rfl⟩ | ⟨hne, hmoves⟩
      · rw [if_pos rfl, Option.some.injEq, Prod.mk.injEq, Prod.mk.injEq] at hcall
        exact hfail hcall.1.symm hcall.2.1.symm
      · rw [if_neg hne, Option.some.injEq, Prod.mk.injEq, Prod.mk.injEq] at hcall
        obtain ⟨rfl, rfl, -⟩ := hcall
        have hfree := findUnused_some hfind
        have hsetup := setup_isSetup forkret k stack r (procs k)
        have hst : (setup forkret k stack r (procs k)).state ≠ .unused := by
          rw [hsetup.state]
          simp
        rw [stackSize_eq, pageCount_pageSize, List.append_nil] at hmoves
        refine ⟨kept_update hst fun hused => absurd hused hfree, _, hmoves, ?_⟩
        have hperm := stackPages_create (p := setup forkret k stack r (procs k)) hfree hst
        rw [hsetup.stack] at hperm
        simpa [blockPages] using hperm

end Table

end NetStack
