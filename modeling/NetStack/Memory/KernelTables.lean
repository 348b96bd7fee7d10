import NetStack.Memory.SatpSwitch

/-!
# The kernel's page tables in use

`page_table_refines_map` follows the root of `mem_init` alone and leaves its gigapages out.  Here are both
roots, `boot_page_table` outside the heap and the one `mem_init` allocates, under any calls of `map_page`
outside the gigapages, among other clients of the allocator.  `PtSys.Sound` is what every reachable state
has: the tree, the two gigapage entries, and no table at the page where the kernel's image begins.
-/

namespace NetStack

open ByteMem Transition

/-- The root entry for `va` is a gigapage. -/
def InGigapage (va : ℕ) : Prop := px 2 va = 2 ∨ px 2 va = 258

instance (va : ℕ) : Decidable (InGigapage va) := inferInstanceAs (Decidable (_ ∨ _))

/-- The two roots before their first `map_page`: that of `relocate_kernel`, and that of `mem_init` after
some run of the allocator. -/
inductive TableStart : PtSys → Prop
  | boot (L : BssLayout) (m : Mem) (sie : Bool) :
      TableStart ⟨{ L.startHeap m sie with mem := setupBootPageTable (L.startHeap m sie).mem L.bootPageTable },
        [], L.bootPageTable, [], []⟩
  | init {L : BssLayout} {m : Mem} {sie : Bool} {ops : List AllocOp} {s : AllocSys} {h' : Heap} {root : ℕ}
      (hrun : Run AllocStep (L.start m sie) ops s) (hret : MemAllocReturns s.heap pageSize (h', root))
      (hroot : root ≠ 0) : TableStart ⟨{ h' with mem := initRoot h'.mem root }, s.live, root, [], []⟩

/-- A `map_page` with `P` whose allocations succeed, outside the gigapages, or an operation of another
client. -/
inductive TableStep (P : MapCall → Prop) : PtSys → PtOp → PtSys → Prop
  | map {s : PtSys} {c : MapCall} {h' : Heap} {got : List ℕ} (hva : c.va < 2 ^ 64) (hout : ¬ InGigapage c.va)
      (hpa : c.pa < 2 ^ 64) (hflags : c.flags < 2 ^ 64) (hP : P c) (hret : MapPageReturns s.heap s.root c h' got)
      (hgot : ∀ p ∈ got, p ≠ 0) :
      TableStep P s (.map c) { s with heap := h', tables := s.tables ++ got, log := c :: s.log }
  | client {s : PtSys} {op : AllocOp} {s' : AllocSys} (hop : AllocStep ⟨s.heap, s.live⟩ op s') :
      TableStep P s (.client op) { s with heap := s'.heap, live := s'.live }

/-- What reachable states have.  `own` is the root, if it is a page of the heap. -/
structure PtSys.Sound (s : PtSys) (l own : List ℕ) (T : List ℕ → Option ℕ) : Prop where
  split : s.heap.TableSplit l (s.live.flatten ++ own) s.root s.tables
  place : s.root ∈ own ∨ s.root ∉ s.heap.pages
  tree : PageTree s.heap.mem s.root s.tables s.log T
  giga : Gigapages s.heap.mem s.root
  image : baseAddr < s.root ∧ ∀ p ∈ s.heap.pages, baseAddr < p

lemma not_inGigapage {va : ℕ} : ¬ InGigapage va ↔ IsIndex (px 2 va) [] :=
  ⟨fun h => ⟨px_lt .., fun _ => not_or.mp h⟩, fun h => not_or.mpr (h.2 rfl)⟩

lemma PtSys.Sound.giga_entry {s : PtSys} {l own : List ℕ} {T : List ℕ → Option ℕ} {va : ℕ} (h : s.Sound l own T)
    (hin : InGigapage va) :
    readPte s.heap.mem s.root (px 2 va) = gigapagePte := by
  rcases hin with hpx | hpx <;> rw [hpx]
  · exact h.giga.1
  · exact h.giga.2

lemma gigapagePte_next : ¬ gigapagePte &&& pteV = 0 ∧ pte2pa gigapagePte = baseAddr := by decide

lemma BssLayout.base_lt_table (L : BssLayout) : baseAddr < L.bootPageTable := L.bss_gt.trans_le L.bss_le

lemma BssLayout.base_lt_page (L : BssLayout) (m : Mem) (sie : Bool) :
    ∀ p ∈ (L.boot m sie).pages, baseAddr < p := by
  intro p hp
  rw [(L.boot_allocated m sie).pages] at hp
  have h₁ := L.bss_gt
  have h₂ := L.bss_le
  have h₃ := L.table_le
  have h₄ := L.bare_heapStart m sie
  have hlo := ((Heap.mem_pages (L.bare_bounded m sie).1).mp hp).2.1
  omega

/-- A root that has been given its gigapages. -/
lemma Heap.TableSplit.sound {h : Heap} {l own : List ℕ} {live : List (List ℕ)} {root : ℕ}
    (hs : h.TableSplit l (live.flatten ++ own) root []) (hzero : ∀ k < 512, readPte h.mem root k = 0)
    (hplace : root ∈ own ∨ root ∉ h.pages) (himage : baseAddr < root ∧ ∀ p ∈ h.pages, baseAddr < p) :
    ∃ T, PtSys.Sound ⟨{ h with mem := setupBootPageTable h.mem root }, live, root, [], []⟩ l own T := by
  obtain ⟨hs', ⟨T, ht⟩, hg⟩ := hs.setupBoot hzero
  exact ⟨T, hs', hplace, ht, hg, himage⟩

/-- The root, if it is a page of the heap. -/
def PtSys.rootPages (s : PtSys) : List ℕ := if s.root ∈ s.heap.pages then [s.root] else []

lemma PtSys.Sound.own_rootPages {s : PtSys} {l own : List ℕ} {T : List ℕ → Option ℕ} (h : s.Sound l own T)
    (hown : own = [s.root] ∨ own = []) : s.Sound l s.rootPages T := by
  have heq : s.rootPages = own := by
    rcases hown with rfl | rfl
    · have hmem : s.root ∈ s.live.flatten ++ [s.root] ++ s.tables := by simp
      exact if_pos (h.split.split.perm.mem_iff.mp (List.mem_append_right l hmem))
    · exact if_neg (h.place.resolve_left List.not_mem_nil)
  rwa [heq]

lemma TableStart.sound_rootPages {s : PtSys} (hstart : TableStart s) : ∃ l T, s.Sound l s.rootPages T := by
  cases hstart with
  | boot L m sie =>
      have hs := L.startHeap_tableSplit m sie
      have hzero : ∀ k < 512, readPte (L.startHeap m sie).mem L.bootPageTable k = 0 :=
        fun _ hk => L.startHeap_zero m sie hk
      have himage : ∀ p ∈ (L.startHeap m sie).pages, baseAddr < p := L.base_lt_page (L.clearBss m) sie
      generalize L.startHeap m sie = h at *
      have hs' : h.TableSplit h.pages (([] : List (List ℕ)).flatten ++ []) L.bootPageTable [] := hs
      obtain ⟨T, hsound⟩ :=
        hs'.sound hzero (.inr (hs.place.resolve_left List.not_mem_nil)) ⟨L.base_lt_table, himage⟩
      exact ⟨_, T, hsound.own_rootPages (.inr rfl)⟩
  | @init L m sie ops s h' root hrun hret hroot =>
      obtain ⟨⟨l, hs⟩, hstart, hend⟩ := LinkLayout.run_inv hrun
      obtain ⟨-, hpages, hfree, l', -, hclear⟩ := hs.clearRoot hret hroot
      have himage : ∀ p ∈ h'.pages, baseAddr < p := by
        rw [hpages, Heap.pages_eq, hstart, hend, ← Heap.pages_eq]
        exact L.base_lt_page m sie
      have hpage : root ∈ h'.pages := hpages ▸ hs.perm.mem_iff.mp (List.mem_append_left _ hfree)
      rw [initRoot_eq]
      obtain ⟨T, hsound⟩ := hclear.sound (fun k hk => readPte_memset _ hk)
        (.inl (List.mem_singleton_self root)) ⟨himage root hpage, himage⟩
      exact ⟨l', T, hsound.own_rootPages (.inl rfl)⟩

lemma TableStart.sound {s : PtSys} (hstart : TableStart s) : ∃ l own T, s.Sound l own T := by
  obtain ⟨l, T, hsound⟩ := hstart.sound_rootPages
  exact ⟨l, s.rootPages, T, hsound⟩

/-- **One step.** -/
lemma TableStep.sound {P : MapCall → Prop} {s s' : PtSys} {op : PtOp} (hstep : TableStep P s op s')
    (h : ∃ l own T, s.Sound l own T) : ∃ l own T, s'.Sound l own T := by
  obtain ⟨l, own, T, h⟩ := h
  cases hstep with
  | map hva hout hpa hflags hP hret hgot =>
      obtain ⟨limit, hrun⟩ := hret
      obtain ⟨l', T', hs', ht', hg⟩ :=
        mapPage_spec h.split h.tree (not_inGigapage.mp hout) hpa hflags hrun hgot
      exact ⟨l', own, T', hs', hg.pages ▸ h.place, ht', Gigapages.grown h.giga hg, hg.pages ▸ h.image⟩
  | @client op s' hop =>
      have hs := h.split.split
      rw [List.append_assoc] at hs
      obtain ⟨⟨l', hs'⟩, hstart, hend, hkeep⟩ := hop.split _ hs
      have hpages : s'.heap.pages = s.heap.pages := by
        rw [Heap.pages_eq, hstart, hend, ← Heap.pages_eq]
      have hag : ∀ x, pageFloor x ∈ tablePages s.root s.tables → s'.heap.mem x = s.heap.mem x := by
        intro x hx
        refine hkeep x ?_
        rcases List.mem_cons.mp hx with hroot | htable
        · rw [hroot]
          exact h.place.imp_left (List.mem_append_left _)
        · exact .inl (List.mem_append_right _ htable)
      have hroot : ∀ k < 512, readPte s'.heap.mem s.root k = readPte s.heap.mem s.root k := fun k hk =>
        readPte_congr h.split.aligned hk fun x hx => hag x (hx ▸ List.mem_cons_self)
      refine ⟨l', own, T, ⟨?_, h.split.aligned, h.split.lt, ?_⟩, ?_, ?_, ?_, ?_⟩
      · rw [List.append_assoc]
        exact hs'
      · rw [hpages]
        exact h.place.imp_left (List.mem_append_right _)
      · rw [hpages]
        exact h.place
      · exact h.tree.congr (fun t ht => (h.split.table_low t ht).1) hag
      · exact ⟨(hroot 2 (by decide)).trans h.giga.1, (hroot 258 (by decide)).trans h.giga.2⟩
      · rw [hpages]
        exact h.image

lemma sound_of_run {P : MapCall → Prop} {s₀ s : PtSys} {ops : List PtOp} (hstart : TableStart s₀)
    (hrun : Run (TableStep P) s₀ ops s) : ∃ l own T, s.Sound l own T :=
  hrun.invariant (P := fun s => ∃ l own T, s.Sound l own T) (fun _ _ _ hstep h => hstep.sound h) hstart.sound

lemma log_of_run {P : MapCall → Prop} {s s' : PtSys} {ops : List PtOp} (hrun : Run (TableStep P) s ops s') :
    s'.log = (mapCalls ops).reverse ++ s.log := by
  induction hrun with
  | nil s => rfl
  | cons hstep _ ih =>
      cases hstep with
      | map => simpa [mapCalls] using ih
      | client => simpa [mapCalls] using ih

lemma TableStart.log_eq {s : PtSys} (hstart : TableStart s) : s.log = [] := by
  cases hstart <;> rfl

lemma TableStep.log_all {P : MapCall → Prop} {s s' : PtSys} {op : PtOp} (hstep : TableStep P s op s')
    (h : ∀ c ∈ s.log, P c) : ∀ c ∈ s'.log, P c := by
  cases hstep with
  | map _ _ _ _ hP _ _ =>
      intro c' hc'
      rcases List.mem_cons.mp hc' with rfl | hc'
      · exact hP
      · exact h c' hc'
  | client _ => exact h

lemma log_all_of_run {P : MapCall → Prop} {s₀ s : PtSys} {ops : List PtOp} (hstart : TableStart s₀)
    (hrun : Run (TableStep P) s₀ ops s) : ∀ c ∈ s.log, P c :=
  hrun.invariant (P := fun s => ∀ c ∈ s.log, P c) (fun _ _ _ hstep h => hstep.log_all h)
    (by simp [hstart.log_eq])

/-- The first page of the image, if it is all `.text`, is as it was loaded. -/
lemma BssLayout.startHeap_image (L : BssLayout) (m : Mem) (sie : Bool) (hbss : baseAddr + 4096 ≤ virtToPhys L.bssSym)
    {x : ℕ} (hx : pageFloor x = baseAddr) :
    setupBootPageTable (L.startHeap m sie).mem L.bootPageTable x = m x := by
  have hle := L.bss_le
  have hlt : x < baseAddr + 4096 := by
    simp only [pageFloor, pageSize_eq] at hx
    omega
  have hstart := (L.boot_allocated (L.clearBss m) sie).mem x fun p hp => by
    have hlo := L.bootPageTable_lt_page m sie hp
    rw [BssLayout.bootPageTable] at hlo
    omega
  rw [setupBootPageTable_outside L.bootPageTable_aligned fun h => ?_, BssLayout.startHeap, hstart]
  · exact fill_outside _ _ _ _ _ (.inl (by omega))
  · have htable := L.base_lt_table
    omega

/-! ## What `relocate_kernel` and `mem_init` leave is reachable -/

section Reachable

variable {P : MapCall → Prop}

lemma setupVirtioSlots_run {limit : ℕ} :
    ∀ {slots : List ℕ} {s : PtSys} {h' : Heap} {got : List ℕ}, (∀ slot ∈ slots, slot ≤ 8 ∧ P (virtioCall slot)) →
      setupVirtioSlots limit s.root slots s.heap = some (h', got) → (∀ p ∈ got, p ≠ 0) →
      Run (TableStep P) s (slots.map fun slot => .map (virtioCall slot))
        { s with heap := h', tables := s.tables ++ got, log := (slots.map virtioCall).reverse ++ s.log }
  | [], s, h', got, _, hrun, _ => by
      simp only [setupVirtioSlots, Option.some.injEq, Prod.mk.injEq] at hrun
      obtain ⟨rfl, rfl⟩ := hrun
      rw [List.append_nil]
      exact .nil s
  | slot :: slots, s, h', got, hslots, hrun, hgot => by
      obtain ⟨hslot, hP⟩ := hslots slot List.mem_cons_self
      simp only [setupVirtioSlots, Option.bind_eq_bind, Option.bind_eq_some_iff, Option.some.injEq, Prod.exists,
        Prod.mk.injEq] at hrun
      obtain ⟨h₁, got₁, hmap, h₂, got₂, hrest, rfl, rfl⟩ := hrun
      have hout : ¬ InGigapage (virtioCall slot).va := by
        simp only [InGigapage, px_eq, virtioCall, virtMmio, gpioBaseAddr, virtioSize]
        omega
      have hlt : (virtioCall slot).va < 2 ^ 64 ∧ (virtioCall slot).pa < 2 ^ 64 := by
        simp only [virtioCall, virtMmio, gpioBaseAddr, virtioSize]
        omega
      have hflags : (virtioCall slot).flags < 2 ^ 64 := by
        show pteR ||| pteW < 2 ^ 64
        decide
      have hstep : TableStep P s (.map (virtioCall slot)) _ := .map hlt.1 hout hlt.2 hflags hP
        ⟨limit, hmap⟩ fun p hp => hgot p (List.mem_append_left _ hp)
      have ih := setupVirtioSlots_run
        (s := { s with heap := h₁, tables := s.tables ++ got₁, log := virtioCall slot :: s.log })
        (fun s hs => hslots s (List.mem_cons_of_mem _ hs)) hrest fun p hp => hgot p (List.mem_append_right _ hp)
      rw [List.append_assoc] at ih
      rw [List.map_cons, List.map_cons, List.reverse_cons, List.append_assoc, List.singleton_append]
      exact .cons hstep ih

/-- The `map_page` calls of both constructions, in order. -/
def mmioOps : List PtOp := .map uartCall :: (List.range' 1 virtioSlots).map fun slot => .map (virtioCall slot)

lemma setupMappings_run (hP : ∀ c ∈ mmioLog, P c) {limit : ℕ} {s : PtSys} {h₁ h₂ : Heap} {got got' : List ℕ}
    (hrun₁ : setupUartMapping limit s.heap s.root = some (h₁, got))
    (hrun₂ : setupVirtioMappings limit h₁ s.root = some (h₂, got')) (hgot : ∀ p ∈ got ++ got', p ≠ 0) :
    Run (TableStep P) s mmioOps
      { s with heap := h₂, tables := s.tables ++ (got ++ got'), log := mmioLog ++ s.log } := by
  have hstep : TableStep P s (.map uartCall) _ := .map (by decide) (by decide) (by decide) (by decide)
    (hP _ uartCall_mem) ⟨limit, hrun₁⟩ fun p hp => hgot p (List.mem_append_left _ hp)
  have hlow : ∀ slot ∈ List.range' 1 virtioSlots, slot ≤ 8 ∧ P (virtioCall slot) := by
    intro slot hslot
    have hrange : 1 ≤ slot ∧ slot ≤ 8 := by
      have h := List.mem_range'_1.mp hslot
      simp only [virtioSlots] at h
      omega
    exact ⟨hrange.2, hP _ (virtioCall_mem hrange.1 hrange.2)⟩
  have hslots := setupVirtioSlots_run (s := { s with heap := h₁, tables := s.tables ++ got, log := uartCall :: s.log })
    hlow hrun₂ fun p hp => hgot p (List.mem_append_right _ hp)
  rw [List.append_assoc] at hslots
  rw [mmioLog, List.append_assoc, List.singleton_append]
  exact .cons hstep hslots

/-- The pages `map_page` takes are pages. -/
lemma Heap.TableSplit.ne_zero {h : Heap} {l others tables : List ℕ} {root : ℕ} (hs : h.TableSplit l others root tables) :
    ∀ p ∈ tables, p ≠ 0 := by
  intro p hp
  have hpage := hs.split.isPage_owned (List.mem_append_right others hp)
  have hpos := hs.split.bounded.startPos
  have hlo := hpage.2.1
  omega

/-- **`relocate_kernel`** runs from the first start to a reachable state. -/
theorem relocateKernel_reachable (hP : ∀ c ∈ mmioLog, P c) (L : BssLayout) (m : Mem) (sie : Bool)
    (hfree : 2 ≤ (L.startHeap m sie).freePageCount) (limit : ℕ) :
    ∃ b tables s₀, relocateKernel limit L m sie = some (b, tables) ∧ TableStart s₀ ∧
      Run (TableStep P) s₀ mmioOps ⟨b.heap, [], L.bootPageTable, tables, mmioLog⟩ := by
  have hs := L.startHeap_tableSplit m sie
  have hzero : ∀ k < 512, readPte (L.startHeap m sie).mem L.bootPageTable k = 0 := fun k hk => L.startHeap_zero m sie hk
  have hstart := TableStart.boot L m sie
  obtain ⟨h₁, h₂, got, l', hrun₁, hrun₂, hs', -⟩ := setupRoot_spec hs hzero hfree limit
  have hgot : ∀ p ∈ got ++ [], p ≠ 0 := by
    rw [List.append_nil]
    exact hs'.ne_zero
  have hrel := relocateKernel_eq hrun₁ hrun₂
  generalize L.startHeap m sie = h at hrun₁ hstart
  exact ⟨⟨h₂, satpValue L.bootPageTable⟩, got ++ [], _, hrel, hstart, setupMappings_run hP hrun₁ hrun₂ hgot⟩

/-- **`mem_init`** runs from the second. -/
theorem memInit_reachable (hP : ∀ c ∈ mmioLog, P c) {L : BssLayout} {m : Mem} {sie : Bool} {ops : List AllocOp}
    {s : AllocSys} (hrun : Run AllocStep (L.start m sie) ops s) (hfree : 3 ≤ s.heap.freePageCount) (satp limit : ℕ) :
    ∃ s' root tables s₀, memInit limit ⟨s.heap, satp⟩ = some (s', 0) ∧ s'.satp = satpValue root ∧ TableStart s₀ ∧
      Run (TableStep P) s₀ mmioOps ⟨s'.heap, s.live, root, tables, mmioLog⟩ := by
  obtain ⟨⟨l, hs⟩, -, -⟩ := LinkLayout.run_inv hrun
  obtain ⟨h', root, halloc, hroot, hcount⟩ := hs.allocPage hfree limit
  obtain ⟨-, -, -, l', -, hclear⟩ := hs.clearRoot ⟨limit, halloc⟩ hroot
  have hstart := TableStart.init hrun ⟨limit, halloc⟩ hroot
  obtain ⟨h₁, h₂, got, l₂, hrun₁, hrun₂, hs', -⟩ :=
    setupRoot_spec hclear (fun k hk => readPte_memset _ hk) hcount limit
  rw [← initRoot_eq] at hrun₁
  have hgot : ∀ p ∈ got ++ [], p ≠ 0 := by
    rw [List.append_nil]
    exact hs'.ne_zero
  have hinit := memInit_eq satp halloc hroot hrun₁ hrun₂
  refine ⟨⟨h₂, satpValue root⟩, root, got ++ [], _, hinit, rfl, hstart, ?_⟩
  exact setupMappings_run hP hrun₁ hrun₂ hgot

end Reachable

end NetStack
