import NetStack.Memory.KernelTables

/-!
# What `map_page` writes

Two things can go wrong in the loop of `map_page`.  It takes every valid entry for a pointer, so an address
in a gigapage makes it write into the kernel's image; outside the gigapages it writes tables and nothing
else (`map_page_effects`).  And it uses what `mem_alloc` returned without looking, so when memory runs out
it links the page at address `0` into the tree; it is atomic as far as it needs no more pages than are free
(`map_page_atomic`).
-/

namespace NetStack

open ByteMem Transition LinkedChain

/-! ## Leaves taken for pointers -/

/-- The entries the loop of `map_page` follows as pointers, with `level` levels to go. -/
def mapFollowed (limit va : ℕ) : (level : ℕ) → Heap → (pt : ℕ) → List ℕ
  | 0, _, _ => []
  | level + 1, h, pt =>
      let pte := readPte h.mem pt (px (level + 1) va)
      (if pte &&& pteV ≠ 0 then [pte] else []) ++
        match mapLevel limit va (level + 1) h pt with
        | none => []
        | some (h, pt, _) => mapFollowed limit va level h pt

/-- The property of one call: it writes the root, the tables and the pages it takes, and follows no
leaf. -/
structure OnlyTables (limit : ℕ) (s : PtSys) (c : MapCall) (h' : Heap) (got : List ℕ) : Prop where
  mem : ∀ x, h'.mem x ≠ s.heap.mem x → pageFloor x ∈ tablePages s.root (s.tables ++ got)
  followed : ∀ e ∈ mapFollowed limit c.va 2 s.heap s.root, ¬ Sv39.Leaf e

/-- A pointer is no leaf. -/
lemma not_leaf_tableEntry {p : ℕ} (hp : p < 2 ^ 64) : ¬ Sv39.Leaf (tableEntry (some p)) := by
  rw [tableEntry, pa2pte_or_eq_entry hp (by decide), Sv39.leaf_entry (by decide)]
  decide

section Followed

variable {h : Heap} {l others : List ℕ} {root : ℕ} {tables : List ℕ} {log : List MapCall} {T : List ℕ → Option ℕ}

/-- What an iteration follows is no leaf. -/
lemma PageTree.entry_not_leaf (hs : h.TableSplit l others root tables) (ht : PageTree h.mem root tables log T)
    {π : List ℕ} {k pt : ℕ} (hπ : T π = some pt) (hlen : π.length < 2) (hk : IsIndex k π) {e : ℕ}
    (he : e ∈ if readPte h.mem pt k &&& pteV ≠ 0 then [readPte h.mem pt k] else []) : ¬ Sv39.Leaf e := by
  rw [ht.entry hπ hlen hk] at he
  cases hT : T (k :: π) with
  | none => simp [hT, tableEntry] at he
  | some p =>
      rw [hT, if_pos ((tableEntry_valid _).mpr rfl), List.mem_singleton] at he
      rw [he]
      exact not_leaf_tableEntry (hs.table_bounds p (ht.mem_pages hT)).2

/-- Outside the gigapages the walk follows pointers only. -/
lemma mapFollowed_pointers (hs : h.TableSplit l others root tables) (ht : PageTree h.mem root tables log T)
    {limit va pa flags : ℕ} {h' : Heap} {got : List ℕ} (hva : IsIndex (px 2 va) [])
    (hrun : mapPage limit h root va pa flags = some (h', got)) (hgot : ∀ p ∈ got, p ≠ 0) :
    ∀ e ∈ mapFollowed limit va 2 h root, ¬ Sv39.Leaf e := by
  obtain ⟨h₁, pt₁, got₁, h₂, pt₂, got₂, hrun₁, hrun₂, rfl, -⟩ := mapPage_cases hrun
  obtain ⟨l₁, T₁, hs₁, ht₁, hT₁, -⟩ := mapLevel_spec hs ht ht.root_eq (by simp) hva hrun₁
    fun p hp => hgot p (List.mem_append_left _ hp)
  intro e he
  simp only [mapFollowed, hrun₁, hrun₂, List.append_nil, List.mem_append] at he
  rcases he with he | he
  · exact ht.entry_not_leaf hs ht.root_eq (by simp) hva he
  · exact ht₁.entry_not_leaf hs₁ hT₁ (by simp) IsIndex.of_cons he

end Followed

/-- **When `map_page` touches only page tables.**  For either root, after any calls outside the gigapages,
among other clients of the allocator: a call whose allocations succeed writes only tables and follows no
leaf if and only if its address is in neither gigapage. -/
theorem map_page_effects (s₀ s : PtSys) (ops : List PtOp) (hstart : TableStart s₀)
    (hrun : Run (TableStep fun _ => True) s₀ ops s) (c : MapCall) (hpa : c.pa < 2 ^ 64) (hflags : c.flags < 2 ^ 64)
    (limit : ℕ) (h' : Heap) (got : List ℕ) (hcall : mapPage limit s.heap s.root c.va c.pa c.flags = some (h', got))
    (hgot : ∀ p ∈ got, p ≠ 0) : OnlyTables limit s c h' got ↔ ¬ InGigapage c.va := by
  obtain ⟨l, own, T, h⟩ := sound_of_run hstart hrun
  constructor
  · intro honly hin
    refine honly.followed gigapagePte ?_ (by decide)
    simp only [mapFollowed, h.giga_entry hin]
    rw [if_pos gigapagePte_next.1]
    exact List.mem_append_left _ (List.mem_singleton_self _)
  · intro hout
    obtain ⟨l', T', hs', ht', hg⟩ := mapPage_spec h.split h.tree (not_inGigapage.mp hout) hpa hflags hcall hgot
    refine ⟨fun x hx => ?_, mapFollowed_pointers h.split h.tree (not_inGigapage.mp hout) hcall hgot⟩
    by_contra hne
    exact hx (hg.mem x hne)

/-- After `relocate_kernel` a third device could be mapped. -/
theorem map_page_effects_device : ∃ s₀ s ops h' got, TableStart s₀ ∧ Run (TableStep fun _ => True) s₀ ops s ∧
    mapPage 0 s.heap s.root 0x10009000 0x10009000 6 = some (h', got) ∧
      OnlyTables 0 s ⟨0x10009000, 0x10009000, 6⟩ h' got := by
  obtain ⟨b, tables, s₀, -, hstart, hrun⟩ := relocateKernel_reachable (fun _ _ => trivial) fivePageLayout (fun _ => 0)
    false (by rw [fivePageLayout_count]; decide) 0
  obtain ⟨l, own, T, h⟩ := sound_of_run hstart hrun
  obtain ⟨h', hcall⟩ := mapPage_follow (c := ⟨0x10009000, 0x10009000, 6⟩) h.split h.tree ⟨by decide, fun _ => by decide⟩
    uartCall_mem (by decide) (by decide) 0
  exact ⟨s₀, _, mmioOps, h', [], hstart, hrun, hcall, (map_page_effects s₀ _ mmioOps hstart hrun
    ⟨0x10009000, 0x10009000, 6⟩ (by decide) (by decide) 0 h' [] hcall (by simp)).mpr (by decide)⟩

/-- In a gigapage whose image begins with zeros a table is linked into the image. -/
lemma PtSys.Sound.mapPage_image {s : PtSys} {l own : List ℕ} {T : List ℕ → Option ℕ} {va : ℕ} (h : s.Sound l own T)
    (hin : InGigapage va) (hzero : ∀ x, pageFloor x = baseAddr → s.heap.mem x = 0) (hfree : 1 ≤ s.heap.freePageCount)
    (limit pa flags : ℕ) :
    ∃ h' p, mapPage limit s.heap s.root va pa flags = some (h', [p]) ∧ p ≠ 0 ∧
      readPte h'.mem baseAddr (px 1 va) ≠ readPte s.heap.mem baseAddr (px 1 va) := by
  have hroot : mapLevel limit va 2 s.heap s.root = some (s.heap, baseAddr, []) := by
    rw [mapLevel]
    simp only [h.giga_entry hin]
    rw [if_pos gigapagePte_next.1, gigapagePte_next.2]
  have hread : readPte s.heap.mem baseAddr (px 1 va) = 0 := by
    refine loadLE_eq_zero 8 _ fun j hj => hzero _ ?_
    have hlt := px_lt 1 va
    simp only [pageFloor, pageSize_eq, baseAddr_eq]
    omega
  obtain ⟨h₁, p, halloc, hp, -⟩ := h.split.split.allocPage hfree limit
  obtain ⟨hal, hlt, hmem, -⟩ := h.split.allocTable ⟨limit, halloc⟩ hp
  have hne : baseAddr < p := h.image.2 p (h.split.split.perm.mem_iff.mp (List.mem_append_left _ hmem))
  have hinvalid : ¬ readPte s.heap.mem baseAddr (px 1 va) &&& pteV ≠ 0 := by
    rw [hread]
    decide
  have hnext := mapLevel_alloc hinvalid halloc
  refine ⟨_, p, mapPage_eq hroot hnext, hp, ?_⟩
  have hphys : virtToPhys p = p := virtToPhys_of_lt (hlt.trans (by decide))
  rw [hread, readPte_writePte_of_ne hal (by decide) (px_lt ..) (px_lt ..) (.inl (by omega)), hphys,
    readPte_writePte _ _ _ (pte_lt (hlt.trans (by decide)) (by decide)),
    pa2pte_or_eq_entry (hlt.trans (by decide)) (by decide), Sv39.entry]
  omega

/-- **The kernel's image written as a table.**  A page mapped at the kernel's own address, with all
allocations succeeding: the first bytes of the image become an entry. -/
theorem map_page_gigapage : ∃ s₀ h' got, TableStart s₀ ∧
    mapPage 0 s₀.heap s₀.root 0x80000000 0x80000000 7 = some (h', got) ∧ (∀ p ∈ got, p ≠ 0) ∧
      readPte h'.mem baseAddr 0 ≠ readPte s₀.heap.mem baseAddr 0 ∧
      ¬ OnlyTables 0 s₀ ⟨0x80000000, 0x80000000, 7⟩ h' got := by
  have hin : InGigapage 0x80000000 := by decide
  have himage : ∀ x, pageFloor x = baseAddr → setupBootPageTable (fivePageLayout.startHeap (fun _ => 0) false).mem
      fivePageLayout.bootPageTable x = 0 :=
    fun x hx => fivePageLayout.startHeap_image (fun _ => 0) false (by decide) hx
  have hcount : 1 ≤ (fivePageLayout.startHeap (fun _ => 0) false).freePageCount := by
    rw [fivePageLayout_count]
    decide
  have hstart := TableStart.boot fivePageLayout (fun _ => 0) false
  generalize fivePageLayout.startHeap (fun _ => 0) false = h₀ at *
  obtain ⟨l, own, T, h⟩ := hstart.sound
  obtain ⟨h', p, hcall, hp, hchange⟩ := h.mapPage_image hin himage hcount 0 0x80000000 7
  refine ⟨_, h', [p], hstart, hcall, by simpa using hp, hchange, fun honly => ?_⟩
  refine honly.followed gigapagePte ?_ (by decide)
  simp only [mapFollowed, h.giga_entry hin]
  rw [if_pos gigapagePte_next.1]
  exact List.mem_append_left _ (List.mem_singleton_self _)

/-! ## When memory runs out -/

/-- A valid bit. -/
def Valid (pte : ℕ) : Prop := pte &&& pteV ≠ 0

instance (pte : ℕ) : Decidable (Valid pte) := inferInstanceAs (Decidable (_ ≠ _))

/-- The walk for `va` from a table, with `level` levels above the last, meets no leaf. -/
def NoLeafAbove (m : Mem) (va : ℕ) : (level pt : ℕ) → Prop
  | 0, _ => True
  | level + 1, pt =>
      let pte := readPte m pt (px (level + 1) va)
      Valid pte → ¬ Sv39.Leaf pte ∧ NoLeafAbove m va level (pte2pa pte)

/-- How many tables `va` still needs. -/
def missingTables (m : Mem) (va : ℕ) : (level pt : ℕ) → ℕ
  | 0, _ => 0
  | level + 1, pt =>
      let pte := readPte m pt (px (level + 1) va)
      if Valid pte then missingTables m va level (pte2pa pte) else level + 1

/-- The page tables under `root`, by level: what a valid pointer of a table leads to is a table one level
down.  They are pages, and none of them is free. -/
structure TableForest (m : Mem) (l : List ℕ) (root : ℕ) (table : ℕ → ℕ → Prop) : Prop where
  root : table 2 root
  next : ∀ {level t k}, table (level + 1) t → k < 512 → Valid (readPte m t k) → ¬ Sv39.Leaf (readPte m t k) →
    table level (pte2pa (readPte m t k))
  page : ∀ {level t}, table level t → t % 4096 = 0 ∧ t ≠ 0 ∧ t ∉ l

/-- What a failed `map_page` should leave: only tables, old or handed out by the allocator, are written;
an entry that has become valid points to a page the allocator handed out; every address is translated as
before. -/
structure MapAtomic (h h' : Heap) (root : ℕ) (table : ℕ → ℕ → Prop) (got : List ℕ) : Prop where
  mem : ∀ x, h'.mem x ≠ h.mem x → (∃ level, table level (pageFloor x)) ∨ pageFloor x ∈ got ∧ pageFloor x ≠ 0
  entries : ∀ t k, k < 512 → ((∃ level, table level t) ∧ ¬ Valid (readPte h.mem t k) ∨ t ∈ got ∧ t ≠ 0) →
    Valid (readPte h'.mem t k) → pte2pa (readPte h'.mem t k) ∈ got ∧ pte2pa (readPte h'.mem t k) ≠ 0
  sv39 : ∀ va, sv39 h'.mem (satpValue root) va = sv39 h.mem (satpValue root) va

/-- An entry that a failed allocation made valid. -/
lemma MapAtomic.no_null {h h' : Heap} {root : ℕ} {table : ℕ → ℕ → Prop} {got : List ℕ}
    (ha : MapAtomic h h' root table got) {t k : ℕ} (hk : k < 512)
    (hnew : (∃ level, table level t) ∧ ¬ Valid (readPte h.mem t k) ∨ t ∈ got ∧ t ≠ 0) :
    readPte h'.mem t k ≠ 1 := by
  intro hone
  refine (ha.entries t k hk hnew ?_).2 ?_ <;> rw [hone] <;> decide

section Failure

variable {h : Heap} {l owned : List ℕ} {va level pt : ℕ}

/-- **An iteration without a free page** clears page `0` and links it. -/
lemma mapLevel_fail (hval : ¬ Valid (readPte h.mem pt (px level va))) (hfree : h.freePageCount = 0) (limit : ℕ) :
    mapLevel limit va level h pt = some
      ({ h with
          mem := writePte (memset h.mem 0 0 pageSize) pt (px level va) 1 }, 0, [0]) := by
  refine mapLevel_alloc hval (memAlloc_tooMany (by decide) ?_)
  rw [hfree, pageCount_pageSize]
  decide

/-- The entry that was linked is not touched any more: the walk goes on in page `0`. -/
lemma readPte_null_walk {m : Mem} {t k j v : ℕ} (hal : t % 4096 = 0) (hne : t ≠ 0) (hk : k < 512) (hj : j < 512) :
    readPte (writePte m 0 j v) t k = readPte m t k :=
  readPte_writePte_of_ne (Nat.zero_mod _) hal hj hk (.inl hne)

/-- The last iteration fails. -/
lemma mapPage_fail_last {h₁ : Heap} {root limit : ℕ} {got : List ℕ}
    (hrun : mapLevel limit va 2 h root = some (h₁, pt, got)) (hal : pt % 4096 = 0) (hne : pt ≠ 0)
    (hval : ¬ Valid (readPte h₁.mem pt (px 1 va))) (hfree : h₁.freePageCount = 0) (pa flags : ℕ) :
    ∃ h', mapPage limit h root va pa flags = some (h', got ++ [0]) ∧ readPte h'.mem pt (px 1 va) = 1 := by
  refine ⟨_, mapPage_eq hrun (mapLevel_fail hval hfree limit), ?_⟩
  rw [readPte_null_walk hal hne (px_lt ..) (px_lt ..), readPte_writePte _ _ _ (by decide)]

/-- Both iterations fail. -/
lemma mapPage_fail_both {root : ℕ} (hal : root % 4096 = 0) (hne : root ≠ 0)
    (hval : ¬ Valid (readPte h.mem root (px 2 va))) (hfree : h.freePageCount = 0) (limit pa flags : ℕ) :
    ∃ h', mapPage limit h root va pa flags = some (h', [0, 0]) ∧ readPte h'.mem root (px 2 va) = 1 := by
  have hempty : ¬ Valid (readPte (writePte (memset h.mem 0 0 pageSize) root (px 2 va) 1) 0 (px 1 va)) := by
    rw [readPte_writePte_of_ne hal (Nat.zero_mod _) (px_lt ..) (px_lt ..) (.inl hne.symm), readPte_memset _ (px_lt ..)]
    decide
  have hrun₂ := mapLevel_fail (h := { h with mem := writePte (memset h.mem 0 0 pageSize) root (px 2 va) 1 }) hempty
    hfree limit
  refine ⟨_, mapPage_eq (mapLevel_fail hval hfree limit) hrun₂, ?_⟩
  rw [readPte_null_walk hal hne (px_lt ..) (px_lt ..), readPte_null_walk hal hne (px_lt ..) (px_lt ..),
    readPte_memset_of_ne (Nat.zero_mod _) hal (px_lt ..) hne, readPte_writePte _ _ _ (by decide)]

/-- An iteration that takes a free page for the next table, which is empty. -/
lemma mapLevel_take (hs : h.Split l owned) (hal : pt % 4096 = 0) (hpt : pt ∉ l)
    (hval : ¬ Valid (readPte h.mem pt (px level va))) {n : ℕ} (hfree : h.freePageCount = n + 1) (limit : ℕ) :
    ∃ h₁ p l', mapLevel limit va level h pt = some (h₁, p, [p]) ∧ p % 4096 = 0 ∧ p ≠ 0 ∧
      h₁.freePageCount = n ∧ h₁.Split l' (p :: owned) ∧ ∀ k < 512, readPte h₁.mem p k = 0 := by
  obtain ⟨h₁, p, halloc, hp, -⟩ := hs.allocPage hfree.ge limit
  have hmem := memAlloc_pageSize_mem ⟨limit, halloc⟩
  obtain ⟨hpal, -, hpl, hpages, l', hsub, hs'⟩ := hs.takePage ⟨limit, halloc⟩ hp
  have hne : p ≠ pt := fun heq => hpt (heq ▸ hpl)
  have hcount : h₁.freePageCount = n := by
    have hall := (hs'.perm.trans (hpages ▸ hs.perm.symm)).length_eq
    simp only [List.length_append, List.length_cons] at hall
    have h₁count := hs'.free.count
    have hcount := hs.free.count
    omega
  refine ⟨_, p, l', mapLevel_alloc hval halloc, hpal, hp, hcount, hs'.write_outside fun x hx => ?_, fun k hk => ?_⟩
  · intro hxl
    refine hx ?_
    rw [writePte_outside hal (px_lt ..) fun heq => hpt (hsub (heq ▸ hxl)),
      memset_page_outside hpal fun heq => hs'.notMem_free List.mem_cons_self (heq ▸ hxl)]
  · rw [readPte_writePte_of_ne hal hpal (px_lt ..) hk (.inl hne), readPte_memset _ hk]

/-- An iteration that finds a table. -/
lemma mapLevel_valid (hval : Valid (readPte h.mem pt (px level va))) (limit : ℕ) :
    mapLevel limit va level h pt = some (h, pte2pa (readPte h.mem pt (px level va)), []) := by
  rw [mapLevel]
  exact if_pos hval

end Failure

section Atomic

variable {h : Heap} {l owned : List ℕ} {root va : ℕ} {table : ℕ → ℕ → Prop}

lemma missingTables_valid {m : Mem} {level pt : ℕ} (hval : Valid (readPte m pt (px (level + 1) va))) :
    missingTables m va (level + 1) pt = missingTables m va level (pte2pa (readPte m pt (px (level + 1) va))) :=
  if_pos hval

lemma missingTables_invalid {m : Mem} {level pt : ℕ} (hval : ¬ Valid (readPte m pt (px (level + 1) va))) :
    missingTables m va (level + 1) pt = level + 1 := if_neg hval

/-- The table behind a valid entry of the root. -/
lemma TableForest.second (hf : TableForest h.mem l root table) (hwalk : NoLeafAbove h.mem va 2 root)
    (hval : Valid (readPte h.mem root (px 2 va))) : table 1 (pte2pa (readPte h.mem root (px 2 va))) :=
  hf.next hf.root (px_lt ..) hval (hwalk hval).1

/-- With enough pages no allocation fails. -/
lemma mapPage_enough (hs : h.Split l owned) (hf : TableForest h.mem l root table)
    (hwalk : NoLeafAbove h.mem va 2 root) (hfree : missingTables h.mem va 2 root ≤ h.freePageCount)
    (limit pa flags : ℕ) : ∃ h' got, mapPage limit h root va pa flags = some (h', got) ∧ 0 ∉ got := by
  by_cases hval : Valid (readPte h.mem root (px 2 va))
  · rw [missingTables_valid hval] at hfree
    obtain ⟨hal, -, hpt⟩ := hf.page (hf.second hwalk hval)
    have hrun₁ := mapLevel_valid hval limit
    generalize pte2pa (readPte h.mem root (px 2 va)) = pt at *
    by_cases hval₁ : Valid (readPte h.mem pt (px 1 va))
    · exact ⟨_, _, mapPage_eq hrun₁ (mapLevel_valid hval₁ limit), List.not_mem_nil⟩
    · rw [missingTables_invalid hval₁] at hfree
      obtain ⟨h₂, p, l', hrun₂, -, hp, -⟩ :=
        mapLevel_take (n := h.freePageCount - 1) hs hal hpt hval₁ (by omega) limit
      exact ⟨_, _, mapPage_eq hrun₁ hrun₂, by simpa using hp.symm⟩
  · rw [missingTables_invalid hval] at hfree
    obtain ⟨hal, -, hroot⟩ := hf.page hf.root
    obtain ⟨h₁, p, l₁, hrun₁, hpal, hp, hfree₁, hs₁, hempty⟩ :=
      mapLevel_take (n := h.freePageCount - 2 + 1) hs hal hroot hval (by omega) limit
    have hval₁ : ¬ Valid (readPte h₁.mem p (px 1 va)) := by
      rw [hempty _ (px_lt ..)]
      decide
    obtain ⟨h₂, q, l₂, hrun₂, -, hq, -⟩ :=
      mapLevel_take hs₁ hpal (hs₁.notMem_free List.mem_cons_self) hval₁ hfree₁ limit
    exact ⟨_, _, mapPage_eq hrun₁ hrun₂, by simpa using ⟨hp.symm, hq.symm⟩⟩

/-- With too few, one fails and its result is linked. -/
lemma mapPage_short (hs : h.Split l owned) (hf : TableForest h.mem l root table)
    (hwalk : NoLeafAbove h.mem va 2 root) (hfree : h.freePageCount < missingTables h.mem va 2 root)
    (limit pa flags : ℕ) :
    ∃ h' got, mapPage limit h root va pa flags = some (h', got) ∧ 0 ∈ got ∧ ¬ MapAtomic h h' root table got := by
  by_cases hval : Valid (readPte h.mem root (px 2 va))
  · rw [missingTables_valid hval] at hfree
    have htable := hf.second hwalk hval
    have hrun₁ := mapLevel_valid hval limit
    generalize pte2pa (readPte h.mem root (px 2 va)) = pt at *
    obtain ⟨hal, hne, -⟩ := hf.page htable
    by_cases hval₁ : Valid (readPte h.mem pt (px 1 va))
    · rw [missingTables_valid hval₁] at hfree
      exact absurd hfree (Nat.not_lt_zero _)
    · rw [missingTables_invalid hval₁] at hfree
      obtain ⟨h', hrun, hone⟩ := mapPage_fail_last hrun₁ hal hne hval₁ (by omega) pa flags
      exact ⟨h', _, hrun, by simp, fun ha => ha.no_null (px_lt 1 va) (.inl ⟨⟨1, htable⟩, hval₁⟩) hone⟩
  · rw [missingTables_invalid hval] at hfree
    obtain ⟨hal, hne, hroot⟩ := hf.page hf.root
    rcases (by omega : h.freePageCount = 0 ∨ h.freePageCount = 0 + 1) with hzero | hone
    · obtain ⟨h', hrun, hread⟩ := mapPage_fail_both hal hne hval hzero limit pa flags
      exact ⟨h', _, hrun, by simp, fun ha => ha.no_null (px_lt 2 va) (.inl ⟨⟨2, hf.root⟩, hval⟩) hread⟩
    · -- the page that was free is linked, and its own entry points to page 0
      obtain ⟨h₁, p, l₁, hrun₁, hpal, hp, hfree₁, -, hempty⟩ := mapLevel_take hs hal hroot hval hone limit
      have hval₁ : ¬ Valid (readPte h₁.mem p (px 1 va)) := by
        rw [hempty _ (px_lt ..)]
        decide
      obtain ⟨h', hrun, hread⟩ := mapPage_fail_last hrun₁ hpal hp hval₁ hfree₁ pa flags
      exact ⟨h', _, hrun, by simp, fun ha => ha.no_null (px_lt 1 va) (.inr ⟨by simp, hp⟩) hread⟩

end Atomic

/-- **When a failed `map_page` is atomic.**  Whatever the tree, if its tables are pages that are not free and
the walk meets no leaf: exactly if no allocation fails, because as many pages are free as tables missing. -/
theorem map_page_atomic (h : Heap) (l owned : List ℕ) (hs : h.Split l owned) (root : ℕ) (table : ℕ → ℕ → Prop)
    (hf : TableForest h.mem l root table) (va pa flags : ℕ) (hwalk : NoLeafAbove h.mem va 2 root) :
    (∀ limit h' got, mapPage limit h root va pa flags = some (h', got) → 0 ∈ got → MapAtomic h h' root table got) ↔
      missingTables h.mem va 2 root ≤ h.freePageCount := by
  constructor
  · intro hall
    by_contra hshort
    obtain ⟨h', got, hrun, hgot, hne⟩ := mapPage_short hs hf hwalk (Nat.lt_of_not_le hshort) 0 pa flags
    exact hne (hall 0 h' got hrun hgot)
  · intro hfree limit h' got hrun hgot
    obtain ⟨h'', got', hrun', hgot'⟩ := mapPage_enough hs hf hwalk hfree limit pa flags
    rw [hrun, Option.some.injEq, Prod.mk.injEq] at hrun'
    exact absurd (hrun'.2 ▸ hgot) hgot'

/-- A root without tables. -/
lemma TableForest.of_empty {m : Mem} {l : List ℕ} {root : ℕ} (hzero : ∀ k < 512, readPte m root k = 0)
    (hal : root % 4096 = 0) (hne : root ≠ 0) (hl : root ∉ l) :
    TableForest m l root fun level t => level = 2 ∧ t = root where
  root := ⟨rfl, rfl⟩
  next := by
    rintro level t k ⟨-, rfl⟩ hk hval
    rw [hzero k hk] at hval
    exact absurd hval (by decide)
  page := by
    rintro level t ⟨-, rfl⟩
    exact ⟨hal, hne, hl⟩

/-- The first page of `relocate_kernel`, in a heap of five. -/
theorem map_page_atomic_boot : ∃ h l root table, Heap.Split h l [] ∧ TableForest h.mem l root table ∧
    missingTables h.mem 0x10000000 2 root = 2 ∧
    ∀ limit h' got, mapPage limit h root 0x10000000 0x10000000 6 = some (h', got) → 0 ∈ got →
      MapAtomic h h' root table got := by
  have hs := fivePageLayout.startHeap_tableSplit (fun _ => 0) false
  have hcount := fivePageLayout_count (fun _ => 0) false
  have hzero : ∀ k < 512, readPte (fivePageLayout.startHeap (fun _ => 0) false).mem fivePageLayout.bootPageTable k = 0 :=
    fun k hk => fivePageLayout.startHeap_zero (fun _ => 0) false hk
  generalize fivePageLayout.startHeap (fun _ => 0) false = h at *
  have hne : fivePageLayout.bootPageTable ≠ 0 := (Nat.zero_lt_of_lt fivePageLayout.base_lt_table).ne'
  have hf := TableForest.of_empty hzero hs.aligned hne hs.root_notMem_free
  have hval : ¬ Valid (readPte h.mem fivePageLayout.bootPageTable (px 2 0x10000000)) := by
    rw [hzero _ (px_lt ..)]
    decide
  have hmissing := missingTables_invalid hval
  refine ⟨h, _, fivePageLayout.bootPageTable, _, hs.split, hf, hmissing, ?_⟩
  refine (map_page_atomic h _ _ hs.split _ _ hf _ _ _ fun hvalid => absurd hvalid hval).mpr ?_
  rw [hmissing, hcount]
  decide

/-- **Page `0` becomes a table.**  The heap is the root's page alone: the root's first entry is made valid
and points to page `0`. -/
theorem map_page_null : ∃ h l owned root table h' got, Heap.Split h l owned ∧ TableForest h.mem l root table ∧
    NoLeafAbove h.mem 0x10000000 2 root ∧ mapPage 0 h root 0x10000000 0x10000000 6 = some (h', got) ∧ 0 ∈ got ∧
      readPte h.mem root 0 = 0 ∧ readPte h'.mem root 0 = 1 ∧ ¬ MapAtomic h h' root table got := by
  have hzero : ∀ k < 512, readPte (fun _ => 0) 0x80001000 k = 0 := fun k _ => loadLE_eq_zero 8 _ fun _ _ => rfl
  have hf := TableForest.of_empty (l := []) hzero (by decide) (by decide) List.not_mem_nil
  have hval : ¬ Valid (readPte (fun _ => 0) 0x80001000 (px 2 0x10000000)) := by
    rw [hzero _ (px_lt ..)]
    decide
  obtain ⟨h', hrun, hone⟩ := mapPage_fail_both (h := ⟨fun _ => 0, 0, 0x80001000, 0x80002000, 0, false⟩)
    (by decide) (by decide) hval rfl 0 0x10000000 6
  refine ⟨_, [], [0x80001000], 0x80001000, _, h', _, ⟨⟨?_, ?_, ?_, ?_, ?_⟩, ⟨isChain_nil.mpr rfl, rfl, ?_⟩, ?_⟩, hf,
    fun hvalid => absurd hvalid hval, hrun, List.mem_cons_self, hzero 0 (by decide), hone, fun ha => ?_⟩
  · decide
  · decide
  · decide
  · decide
  · decide
  · exact fun p hp => absurd hp List.not_mem_nil
  · decide
  · exact ha.no_null (px_lt 2 0x10000000) (.inl ⟨⟨2, hf.root⟩, hval⟩) hone

end NetStack
