import NetStack.Memory.PageTable

/-!
# The page table is a finite map

`va2pa` after any sequence of `map_page` calls is the lookup in the list of those calls, newest
first, by the bits 38..12 of the address.

The tables are described by a function `T` from paths to pages: `T []` is the root, `T [i]` the
level-1 table behind root entry `i`, `T [j, i]` the level-0 table behind entry `j` of that.
`PageTree` says that memory holds exactly these tables — every entry above the last level is the
pointer `T` prescribes or zero, every last-level entry is what the newest call for its path wrote
or zero — and that no page is reached by two paths.  `mapLevel_spec` is one iteration of the loop
of `map_page` against `T`, `mapPage_spec` a whole call.  Other clients of the allocator run between
the calls; they own none of the tables, so `PageTree` does not notice them.
-/

namespace NetStack

open ByteMem LinkedChain Transition

/-! ## The map -/

/-- A call `map_page(root, va, pa, flags)`. -/
structure MapCall where
  va : ℕ
  pa : ℕ
  flags : ℕ
  deriving DecidableEq, Repr

/-- The table indices of an address, last level first. -/
def pathOf (va : ℕ) : List ℕ := [px 0 va, px 1 va, px 2 va]

/-- The newest call for a path. -/
def lookupPath (log : List MapCall) (path : List ℕ) : Option MapCall :=
  log.find? fun c => decide (pathOf c.va = path)

/-- Bits 38..12 of the two addresses agree. -/
def samePage (va va' : ℕ) : Bool := decide (va / 2 ^ 12 % 2 ^ 27 = va' / 2 ^ 12 % 2 ^ 27)

/-- **The abstract map**: what `va2pa` is meant to return after the calls `log`, newest first. -/
def translate (log : List MapCall) (va : ℕ) : ℕ :=
  match log.find? fun c => samePage c.va va with
  | none => 0
  | some c => (c.pa / 4096 * 4096) ||| (va &&& 0xFFF)

lemma pathOf_eq_iff {va va' : ℕ} : pathOf va = pathOf va' ↔
    va / 2 ^ 12 % 2 ^ 27 = va' / 2 ^ 12 % 2 ^ 27 := by
  rw [← px_eq_iff]
  simp [pathOf]

lemma lookupPath_pathOf (log : List MapCall) (va : ℕ) :
    lookupPath log (pathOf va) = log.find? fun c => samePage c.va va := by
  unfold lookupPath samePage
  simp only [pathOf_eq_iff]

/-! ## The tables in memory -/

/-- `k` may index a table at path `π`: the two gigapage entries of the root are not table
pointers. -/
def IsIndex (k : ℕ) (π : List ℕ) : Prop := k < 512 ∧ (π = [] → k ≠ 2 ∧ k ≠ 258)

/-- The entry that points to a table, or none. -/
def tableEntry : Option ℕ → ℕ
  | none => 0
  | some p => pa2pte p ||| pteV

/-- The last-level entry a call writes. -/
def leafEntry : Option MapCall → ℕ
  | none => 0
  | some c => pa2pte c.pa ||| c.flags ||| pteV

/-- Memory holds the tables `T`, rooted at `root`, with the mappings of `log`. -/
structure PageTree (m : Mem) (root : ℕ) (tables : List ℕ) (log : List MapCall)
    (T : List ℕ → Option ℕ) : Prop where
  root_eq : T [] = some root
  mem_tables : ∀ {k π t}, T (k :: π) = some t → t ∈ tables
  onto : ∀ t ∈ tables, ∃ k π, T (k :: π) = some t
  inj : ∀ {π π' t}, T π = some t → T π' = some t → π = π'
  parent : ∀ {k π t}, T (k :: π) = some t → (∃ t', T π = some t') ∧ π.length < 2 ∧ IsIndex k π
  entry : ∀ {π t k}, T π = some t → π.length < 2 → IsIndex k π →
    readPte m t k = tableEntry (T (k :: π))
  leaf : ∀ {π t k}, T π = some t → π.length = 2 → k < 512 →
    readPte m t k = leafEntry (lookupPath log (k :: π))
  logged : ∀ c ∈ log, (∃ t, T [px 1 c.va, px 2 c.va] = some t) ∧ c.pa < 2 ^ 64

/-- The page-table client's share of the heap. -/
def tablePages (root : ℕ) (tables : List ℕ) : List ℕ := root :: tables

section Tree

variable {m m' : Mem} {root : ℕ} {tables : List ℕ} {log : List MapCall} {T : List ℕ → Option ℕ}

lemma PageTree.mem_pages (ht : PageTree m root tables log T) {π : List ℕ} {t : ℕ}
    (hπ : T π = some t) : t ∈ tablePages root tables := by
  cases π with
  | nil =>
      rw [ht.root_eq, Option.some.injEq] at hπ
      exact hπ ▸ List.mem_cons_self
  | cons k π => exact List.mem_cons_of_mem _ (ht.mem_tables hπ)

/-- The tree is a statement about its own pages. -/
lemma PageTree.congr (ht : PageTree m root tables log T)
    (hal : ∀ t ∈ tablePages root tables, t % 4096 = 0)
    (hag : ∀ x, pageFloor x ∈ tablePages root tables → m' x = m x) :
    PageTree m' root tables log T := by
  have hread : ∀ {π t k}, T π = some t → k < 512 → readPte m' t k = readPte m t k := by
    intro π t k hπ hk
    have hmem := ht.mem_pages hπ
    exact readPte_congr (hal t hmem) hk fun x hx => hag x (hx ▸ hmem)
  refine ⟨ht.root_eq, ht.mem_tables, ht.onto, ht.inj, ht.parent, ?_, ?_, ht.logged⟩
  · intro π t k hπ hlen hk
    rw [hread hπ hk.1, ht.entry hπ hlen hk]
  · intro π t k hπ hlen hk
    rw [hread hπ hk, ht.leaf hπ hlen hk]

/-- An entry above the last level is valid exactly when the tree has a table there. -/
lemma tableEntry_valid (o : Option ℕ) : tableEntry o &&& pteV ≠ 0 ↔ o.isSome := by
  cases o with
  | none => simp [tableEntry]
  | some p => simp [tableEntry, valid_or_pteV]

lemma pte2pa_tableEntry {p : ℕ} (hp : p < 2 ^ 64) (hal : p % 4096 = 0) :
    pte2pa (tableEntry (some p)) = p := by
  rw [tableEntry, pte2pa_pa2pte hp (by decide)]
  omega

lemma pte2pa_leafEntry {c : MapCall} (hpa : c.pa < 2 ^ 64) (hflags : c.flags < 2 ^ 10) :
    pte2pa (leafEntry (some c)) = c.pa / 4096 * 4096 := by
  rw [leafEntry, Nat.or_assoc, pte2pa_pa2pte hpa (Nat.or_lt_two_pow hflags (by decide))]

/-- One iteration of the loop of `va2pa` follows the tree. -/
lemma PageTree.va2paWalk_succ (ht : PageTree m root tables log T)
    (hpage : ∀ t ∈ tablePages root tables, t % 4096 = 0 ∧ t < 2 ^ 64) {va level pt : ℕ}
    {π : List ℕ} (hπ : T π = some pt) (hlen : π.length < 2)
    (hk : IsIndex (px (level + 1) va) π) :
    va2paWalk m va (level + 1) pt =
      (T (px (level + 1) va :: π)).bind (va2paWalk m va level) := by
  rw [va2paWalk]
  simp only [ht.entry hπ hlen hk]
  cases hT : T (px (level + 1) va :: π) with
  | none => simp [tableEntry]
  | some p =>
      obtain ⟨hal, hlt⟩ := hpage p (ht.mem_pages hT)
      rw [if_neg ((tableEntry_valid _).mpr rfl), pte2pa_tableEntry hlt hal, Option.bind_some]

lemma IsIndex.of_cons {level va i : ℕ} {π : List ℕ} : IsIndex (px level va) (i :: π) :=
  ⟨px_lt level va, fun h => absurd h (List.cons_ne_nil _ _)⟩

/-- The walk of `va2pa` ends at the level-0 table of the address. -/
lemma PageTree.va2paWalk_eq (ht : PageTree m root tables log T)
    (hpage : ∀ t ∈ tablePages root tables, t % 4096 = 0 ∧ t < 2 ^ 64) {va : ℕ}
    (hva : IsIndex (px 2 va) []) : va2paWalk m va 2 root = T [px 1 va, px 2 va] := by
  rw [ht.va2paWalk_succ hpage ht.root_eq (by simp) hva]
  cases h₂ : T [px 2 va] with
  | none =>
      cases h₁ : T [px 1 va, px 2 va] with
      | none => rfl
      | some p =>
          obtain ⟨⟨p', hp'⟩, -⟩ := ht.parent h₁
          rw [h₂] at hp'
          exact absurd hp' (by simp)
  | some p₂ =>
      rw [Option.bind_some, ht.va2paWalk_succ hpage h₂ (by simp) IsIndex.of_cons]
      cases T [px 1 va, px 2 va] with
      | none => rfl
      | some p => rfl

/-- **`va2pa` on a tree** is the abstract map. -/
lemma PageTree.va2pa_eq (ht : PageTree m root tables log T)
    (hpage : ∀ t ∈ tablePages root tables, t % 4096 = 0 ∧ t < 2 ^ 64)
    (hflags : ∀ c ∈ log, c.flags < 2 ^ 10) {va : ℕ}
    (hva : IsIndex (px 2 va) []) : va2pa m root va = translate log va := by
  rw [va2pa, ht.va2paWalk_eq hpage hva, translate, ← lookupPath_pathOf]
  cases hT : T [px 1 va, px 2 va] with
  | none =>
      -- a call for this path would have left a table here
      cases hlook : lookupPath log (pathOf va) with
      | none => rfl
      | some c =>
          obtain ⟨⟨t, ht'⟩, -⟩ := ht.logged c (List.mem_of_find?_eq_some hlook)
          have hpath : pathOf c.va = pathOf va := by simpa using List.find?_some hlook
          simp only [pathOf, List.cons.injEq] at hpath
          rw [hpath.2.1, hpath.2.2.1, hT] at ht'
          exact absurd ht' (by simp)
  | some pt =>
      simp only [ht.leaf hT rfl (px_lt 0 va)]
      change (if leafEntry (lookupPath log (pathOf va)) &&& pteV = 0 then 0
        else pte2pa (leafEntry (lookupPath log (pathOf va))) ||| (va &&& (pageSize - 1))) = _
      cases hlook : lookupPath log (pathOf va) with
      | none => simp [leafEntry]
      | some c =>
          have hmem := List.mem_of_find?_eq_some hlook
          have hval : leafEntry (some c) &&& pteV ≠ 0 := valid_or_pteV _
          rw [if_neg hval, pte2pa_leafEntry (ht.logged c hmem).2 (hflags c hmem)]
          rfl

/-! ### Growing the tree -/

/-- A path below a missing table has no mapping yet. -/
lemma PageTree.lookup_none (ht : PageTree m root tables log T) {j : ℕ} {π : List ℕ}
    (hT : T π = none) : lookupPath log (j :: π) = none := by
  rw [lookupPath, List.find?_eq_none]
  intro c hc hpath
  obtain ⟨⟨t, ht'⟩, -⟩ := ht.logged c hc
  simp only [pathOf, decide_eq_true_eq, List.cons.injEq] at hpath
  rw [hpath.2, hT] at ht'
  exact absurd ht' (by simp)

/-- A path below a missing table leads nowhere. -/
lemma PageTree.child_none (ht : PageTree m root tables log T) {j : ℕ} {π : List ℕ}
    (hT : T π = none) : T (j :: π) = none := by
  cases h : T (j :: π) with
  | none => rfl
  | some t =>
      obtain ⟨⟨t', ht'⟩, -⟩ := ht.parent h
      rw [hT] at ht'
      exact absurd ht' (by simp)

/-- **Linking a cleared table** at a path that had none: the tree grows by exactly that table. -/
lemma PageTree.link (ht : PageTree m root tables log T) {π : List ℕ} {k pt p : ℕ}
    (hπ : T π = some pt) (hlen : π.length < 2) (hk : IsIndex k π) (hnone : T (k :: π) = none)
    (hfresh : p ∉ tablePages root tables)
    (hzero : ∀ j < 512, readPte m' p j = 0)
    (hlink : readPte m' pt k = tableEntry (some p))
    (hkeep : ∀ t ∈ tablePages root tables, ∀ j < 512, t ≠ pt ∨ j ≠ k →
      readPte m' t j = readPte m t j) :
    PageTree m' root (tables ++ [p]) log (Function.update T (k :: π) (some p)) := by
  have hnew : Function.update T (k :: π) (some p) (k :: π) = some p := Function.update_self ..
  have hold : ∀ {ρ}, ρ ≠ k :: π → Function.update T (k :: π) (some p) ρ = T ρ :=
    fun hne => Function.update_of_ne hne ..
  -- every table of the new tree is the new page at its path, or an old page at an old path
  have hcases : ∀ {ρ t}, Function.update T (k :: π) (some p) ρ = some t →
      (ρ = k :: π ∧ t = p) ∨ (ρ ≠ k :: π ∧ T ρ = some t ∧ t ≠ p) := by
    intro ρ t hρ
    by_cases hne : ρ = k :: π
    · rw [hne, hnew, Option.some.injEq] at hρ
      exact .inl ⟨hne, hρ.symm⟩
    · rw [hold hne] at hρ
      exact .inr ⟨hne, hρ, fun h => hfresh (h ▸ ht.mem_pages hρ)⟩
  have hext : ∀ {ρ t}, T ρ = some t → Function.update T (k :: π) (some p) ρ = some t := by
    intro ρ t hρ
    rw [hold, hρ]
    rintro rfl
    rw [hnone] at hρ
    exact absurd hρ (by simp)
  refine ⟨hext ht.root_eq, ?_, ?_, ?_, ?_, ?_, ?_, ?_⟩
  · intro j ρ t hρ
    rcases hcases hρ with ⟨-, rfl⟩ | ⟨-, hρ, -⟩
    · exact List.mem_append_right _ (List.mem_singleton_self t)
    · exact List.mem_append_left _ (ht.mem_tables hρ)
  · intro t hmem
    rcases List.mem_append.mp hmem with hmem | hmem
    · obtain ⟨j, ρ, hρ⟩ := ht.onto t hmem
      exact ⟨j, ρ, hext hρ⟩
    · rw [List.mem_singleton.mp hmem]
      exact ⟨k, π, hnew⟩
  · intro ρ ρ' t hρ hρ'
    rcases hcases hρ with ⟨h, rfl⟩ | ⟨-, hρ, hne⟩
    · rcases hcases hρ' with ⟨h', -⟩ | ⟨-, -, hne'⟩
      · rw [h, h']
      · exact absurd rfl hne'
    · rcases hcases hρ' with ⟨-, rfl⟩ | ⟨-, hρ', -⟩
      · exact absurd rfl hne
      · exact ht.inj hρ hρ'
  · intro j ρ t hρ
    rcases hcases hρ with ⟨h, -⟩ | ⟨-, hρ, -⟩
    · obtain ⟨rfl, rfl⟩ := List.cons.inj h
      exact ⟨⟨pt, hext hπ⟩, hlen, hk⟩
    · obtain ⟨⟨t', ht'⟩, hrest⟩ := ht.parent hρ
      exact ⟨⟨t', hext ht'⟩, hrest⟩
  · intro ρ t j hρ hρlen hj
    rcases hcases hρ with ⟨rfl, rfl⟩ | ⟨-, hT, -⟩
    · rw [hzero j hj.1, hold (by simp), ht.child_none hnone, tableEntry]
    · by_cases hhere : t = pt ∧ j = k
      · rw [hhere.1] at hT ⊢
        rw [hhere.2, ht.inj hT hπ, hnew, hlink]
      · have hpath : j :: ρ ≠ k :: π := by
          intro h
          obtain ⟨hjk, hρπ⟩ := List.cons.inj h
          rw [hρπ, hπ] at hT
          exact hhere ⟨(Option.some.inj hT).symm, hjk⟩
        rw [hkeep t (ht.mem_pages hT) j hj.1 (by tauto), hold hpath, ht.entry hT hρlen hj]
  · intro ρ t j hρ hρlen hj
    rcases hcases hρ with ⟨rfl, rfl⟩ | ⟨-, hT, -⟩
    · rw [hzero j hj, ht.lookup_none hnone, leafEntry]
    · have hpt : t ≠ pt := by
        rintro rfl
        rw [ht.inj hT hπ] at hρlen
        omega
      rw [hkeep t (ht.mem_pages hT) j hj (.inl hpt), ht.leaf hT hρlen hj]
  · intro c hc
    obtain ⟨⟨t, ht'⟩, hrest⟩ := ht.logged c hc
    exact ⟨⟨t, hext ht'⟩, hrest⟩

/-- **Writing a last-level entry** adds one call to the map. -/
lemma PageTree.map (ht : PageTree m root tables log T) {c : MapCall} {pt : ℕ}
    (hπ : T [px 1 c.va, px 2 c.va] = some pt) (hpa : c.pa < 2 ^ 64)
    (hset : readPte m' pt (px 0 c.va) = leafEntry (some c))
    (hkeep : ∀ t ∈ tablePages root tables, ∀ j < 512, t ≠ pt ∨ j ≠ px 0 c.va →
      readPte m' t j = readPte m t j) :
    PageTree m' root tables (c :: log) T := by
  refine ⟨ht.root_eq, ht.mem_tables, ht.onto, ht.inj, ht.parent, ?_, ?_, ?_⟩
  · intro ρ t j hρ hlen hj
    have hpt : t ≠ pt := by
      rintro rfl
      rw [ht.inj hρ hπ] at hlen
      simp at hlen
    rw [hkeep t (ht.mem_pages hρ) j hj.1 (.inl hpt), ht.entry hρ hlen hj]
  · intro ρ t j hρ hlen hj
    by_cases hhere : t = pt ∧ j = px 0 c.va
    · obtain ⟨rfl, rfl⟩ := hhere
      have hpath : pathOf c.va = px 0 c.va :: ρ := by rw [ht.inj hρ hπ, pathOf]
      rw [hset, lookupPath, List.find?_cons_of_pos (by simpa using hpath)]
    · have hpath : pathOf c.va ≠ j :: ρ := by
        intro h
        obtain ⟨rfl, rfl⟩ := List.cons.inj h
        exact hhere ⟨Option.some.inj (hρ.symm.trans hπ), rfl⟩
      rw [hkeep t (ht.mem_pages hρ) j hj (by tauto), lookupPath,
        List.find?_cons_of_neg (by simpa using hpath), ht.leaf hρ hlen hj, lookupPath]
  · intro c' hc'
    rcases List.mem_cons.mp hc' with rfl | hc'
    · exact ⟨⟨pt, hπ⟩, hpa⟩
    · exact ht.logged c' hc'

end Tree

/-! ## `map_page` against the tree -/

lemma pageCount_pageSize : pageCount pageSize = 1 := by decide

/-- A one-page request never walks the list, so it returns whatever the bound. -/
lemma memAlloc_pageSize (h : Heap) : ∃ res, ∀ limit, memAlloc limit h pageSize = some res := by
  by_cases hfree : 0 < h.freePageCount
  · exact ⟨_, memAlloc_one (by decide) pageCount_pageSize hfree⟩
  · refine ⟨(h, 0), fun limit => memAlloc_tooMany (by decide) ?_⟩
    rw [pageCount_pageSize]
    omega

/-- A one-page request takes the head of the list and writes nothing. -/
lemma memAlloc_pageSize_mem {h h' : Heap} {p : ℕ} (hret : MemAllocReturns h pageSize (h', p)) :
    h'.mem = h.mem := by
  by_cases hfree : 0 < h.freePageCount
  · have hone : MemAllocReturns h pageSize (_, _) := ⟨0, memAlloc_one (by decide) pageCount_pageSize hfree 0⟩
    rw [(Prod.mk.inj (hret.unique hone)).1]
  · have hfail : MemAllocReturns h pageSize (h, 0) := by
      refine ⟨0, memAlloc_tooMany (by decide) ?_⟩
      rw [pageCount_pageSize]
      omega
    rw [(Prod.mk.inj (hret.unique hfail)).1]

/-- A one-page request succeeds while a page is free. -/
lemma Heap.Split.allocPage {h : Heap} {l owned : List ℕ} {n : ℕ} (hs : h.Split l owned)
    (hn : n + 1 ≤ h.freePageCount) (limit : ℕ) :
    ∃ h' p, memAlloc limit h pageSize = some (h', p) ∧ p ≠ 0 ∧ n ≤ h'.freePageCount := by
  refine ⟨_, _, memAlloc_one (by decide) pageCount_pageSize (by omega) limit, ?_, ?_⟩
  · have hcount := hs.free.count
    have hchain := hs.free.chain
    intro h0
    rw [h0] at hchain
    rw [hchain.unique (isChain_nil.mpr rfl), List.length_nil] at hcount
    omega
  · have hlim := hs.free.length_le hs.bounded
    rw [← hs.free.count] at hlim
    show n ≤ sub32 h.freePageCount 1
    rw [sub32_eq (by omega) (by omega)]
    omega

/-- A page handed out by `mem_alloc` was free. -/
lemma Heap.Split.takePage {h h' : Heap} {l owned : List ℕ} {p : ℕ} (hs : h.Split l owned)
    (hret : MemAllocReturns h pageSize (h', p)) (hp : p ≠ 0) :
    p % 4096 = 0 ∧ p < 2 ^ 41 ∧ p ∈ l ∧ h'.pages = h.pages ∧ ∃ l', l' ⊆ l ∧ h'.Split l' (p :: owned) := by
  rcases hs.alloc_returns hret with ⟨h0, -⟩ | ⟨-, hpages, l', hsplit⟩
  · exact absurd h0 hp
  have hblock : blockPages p (pageCount pageSize) = [p] := by
    rw [pageCount_pageSize]
    simp [blockPages]
  rw [hblock, List.singleton_append] at hsplit
  obtain ⟨hal, hlt⟩ := (hsplit.isPage_owned List.mem_cons_self).bounds hsplit.bounded
  have hperm : (p :: l').Perm l := by
    have hall := hsplit.perm.trans (hpages ▸ hs.perm.symm)
    exact (List.perm_append_right_iff _).mp (List.perm_middle.symm.trans hall)
  exact ⟨hal, hlt, hperm.mem_iff.mp List.mem_cons_self, hpages, l',
    fun q hq => hperm.mem_iff.mp (List.mem_cons_of_mem _ hq), hsplit⟩

/-- The tables are pages of their own; the root is a page of somebody's, or outside the heap, as
`boot_page_table` is. -/
structure Heap.TableSplit (h : Heap) (l others : List ℕ) (root : ℕ) (tables : List ℕ) : Prop where
  split : h.Split l (others ++ tables)
  aligned : root % 4096 = 0
  lt : root < 2 ^ 41
  place : root ∈ others ∨ root ∉ h.pages

/-- What `map_page` leaves alone when it takes the pages `got`: all memory but the tables and these
pages, and the entries of the root that are not table pointers. -/
structure Heap.Grown (h h' : Heap) (l l' : List ℕ) (root : ℕ) (tables got : List ℕ) : Prop where
  pages : h'.pages = h.pages
  free : l' ⊆ l
  taken : got ⊆ l
  mem : ∀ x, pageFloor x ∉ tablePages root (tables ++ got) → h'.mem x = h.mem x
  giga : ∀ k < 512, ¬ IsIndex k [] → readPte h'.mem root k = readPte h.mem root k

section Walk

variable {h h' : Heap} {l l' others : List ℕ} {root : ℕ} {tables : List ℕ} {log : List MapCall}
  {T : List ℕ → Option ℕ}

lemma Heap.Split.tableSplit (hs : h.Split l (others ++ tablePages root tables)) :
    h.TableSplit l (others ++ [root]) root tables := by
  have hroot : root ∈ others ++ tablePages root tables := List.mem_append_right _ List.mem_cons_self
  obtain ⟨hal, hlt⟩ := (hs.isPage_owned hroot).bounds hs.bounded
  refine ⟨?_, hal, hlt, .inl (List.mem_append_right _ (List.mem_singleton_self root))⟩
  rwa [List.append_assoc, List.singleton_append]

lemma Heap.TableSplit.tablePages_split (hs : h.TableSplit l (others ++ [root]) root tables) :
    h.Split l (others ++ tablePages root tables) := by
  have hsplit := hs.split
  rwa [List.append_assoc, List.singleton_append] at hsplit

lemma Heap.TableSplit.root_notMem_free (hs : h.TableSplit l others root tables) : root ∉ l := by
  rcases hs.place with hmem | hout
  · exact hs.split.notMem_free (List.mem_append_left _ hmem)
  · exact fun hl => hout (hs.split.perm.mem_iff.mp (List.mem_append_left _ hl))

lemma Heap.TableSplit.table_low (hs : h.TableSplit l others root tables) :
    ∀ t ∈ tablePages root tables, t % 4096 = 0 ∧ t < 2 ^ 41 := by
  intro t ht
  rcases List.mem_cons.mp ht with rfl | ht
  · exact ⟨hs.aligned, hs.lt⟩
  · exact (hs.split.isPage_owned (List.mem_append_right others ht)).bounds hs.split.bounded

lemma Heap.TableSplit.table_bounds (hs : h.TableSplit l others root tables) :
    ∀ t ∈ tablePages root tables, t % 4096 = 0 ∧ t < 2 ^ 64 := by
  intro t ht
  obtain ⟨hal, hlt⟩ := hs.table_low t ht
  exact ⟨hal, hlt.trans (by norm_num)⟩

lemma Heap.TableSplit.notMem_free (hs : h.TableSplit l others root tables) {t : ℕ}
    (ht : t ∈ tablePages root tables) : t ∉ l := by
  rcases List.mem_cons.mp ht with rfl | ht
  · exact hs.root_notMem_free
  · exact hs.split.notMem_free (List.mem_append_right _ ht)

/-- Writing inside the tables. -/
lemma Heap.TableSplit.write (hs : h.TableSplit l others root tables) {m : Mem}
    (hw : ∀ x, m x ≠ h.mem x → pageFloor x ∈ tablePages root tables) :
    Heap.TableSplit { h with mem := m } l others root tables :=
  ⟨hs.split.write_outside fun x hx => hs.notMem_free (hw x hx), hs.aligned, hs.lt, hs.place⟩

lemma Heap.Grown.refl (h : Heap) (l : List ℕ) (root : ℕ) (tables : List ℕ) : h.Grown h l l root tables [] :=
  ⟨rfl, List.Subset.refl l, List.nil_subset l, fun _ _ => rfl, fun _ _ _ => rfl⟩

lemma Heap.Grown.trans {h₁ h₂ : Heap} {l₁ l₂ got got' : List ℕ} (hg : h.Grown h₁ l l₁ root tables got)
    (hg' : h₁.Grown h₂ l₁ l₂ root (tables ++ got) got') : h.Grown h₂ l l₂ root tables (got ++ got') where
  pages := hg'.pages.trans hg.pages
  free := List.Subset.trans hg'.free hg.free
  taken := List.append_subset.mpr ⟨hg.taken, List.Subset.trans hg'.taken hg.free⟩
  mem := by
    intro x hx
    rw [← List.append_assoc] at hx
    refine (hg'.mem x hx).trans (hg.mem x fun hmem => hx ?_)
    rw [tablePages, ← List.cons_append]
    exact List.mem_append_left _ hmem
  giga k hk hne := (hg'.giga k hk hne).trans (hg.giga k hk hne)

/-- A fresh page, handed out by `mem_alloc`, is none of the tables. -/
lemma Heap.TableSplit.allocTable (hs : h.TableSplit l others root tables) {p : ℕ}
    (hret : MemAllocReturns h pageSize (h', p)) (hp : p ≠ 0) :
    p % 4096 = 0 ∧ p < 2 ^ 41 ∧ p ∈ l ∧ p ∉ tablePages root tables ∧ h'.pages = h.pages ∧
      ∃ l', l' ⊆ l ∧ h'.TableSplit l' others root (tables ++ [p]) := by
  obtain ⟨hal, hlt, hfree, hpages, l', hsub, hsplit⟩ := hs.split.takePage hret hp
  refine ⟨hal, hlt, hfree, fun hmem => hs.notMem_free hmem hfree, hpages, l', hsub,
    hsplit.of_perm ?_, hs.aligned, hs.lt, hpages ▸ hs.place⟩
  rw [← List.append_assoc]
  exact List.perm_append_singleton p (others ++ tables)

/-- An iteration that finds no table. -/
lemma mapLevel_alloc {limit va level pt p : ℕ} (hval : ¬ readPte h.mem pt (px level va) &&& pteV ≠ 0)
    (halloc : memAlloc limit h pageSize = some (h', p)) :
    mapLevel limit va level h pt = some
      ({ h' with
          mem := writePte (memset h'.mem p 0 pageSize) pt (px level va) (pa2pte (virtToPhys p) ||| pteV) },
        p, [p]) := by
  simp only [mapLevel, if_neg hval, halloc, Option.bind_eq_bind, Option.bind_some]

/-- An iteration that finds a table. -/
lemma mapLevel_follow {va level pt pt' : ℕ} {π : List ℕ} (hs : h.TableSplit l others root tables)
    (ht : PageTree h.mem root tables log T) (hπ : T π = some pt) (hlen : π.length < 2)
    (hk : IsIndex (px level va) π) (hT : T (px level va :: π) = some pt') (limit : ℕ) :
    mapLevel limit va level h pt = some (h, pt', []) := by
  obtain ⟨hal, hlt⟩ := hs.table_bounds pt' (ht.mem_pages hT)
  rw [mapLevel]
  simp only [ht.entry hπ hlen hk]
  rw [hT, if_pos ((tableEntry_valid _).mpr rfl), pte2pa_tableEntry hlt hal]

/-- **One iteration of the loop of `map_page`** steps down the tree, growing it by the table that
was missing. -/
lemma mapLevel_spec {limit va level pt pt' : ℕ} {π got : List ℕ}
    (hs : h.TableSplit l others root tables)
    (ht : PageTree h.mem root tables log T) (hπ : T π = some pt) (hlen : π.length < 2)
    (hk : IsIndex (px level va) π) (hrun : mapLevel limit va level h pt = some (h', pt', got))
    (hgot : ∀ p ∈ got, p ≠ 0) :
    ∃ l' T', h'.TableSplit l' others root (tables ++ got) ∧
      PageTree h'.mem root (tables ++ got) log T' ∧ T' (px level va :: π) = some pt' ∧
      h.Grown h' l l' root tables got := by
  have hbounds := hs.table_bounds
  cases hT : T (px level va :: π) with
  | some p =>
      rw [mapLevel_follow hs ht hπ hlen hk hT] at hrun
      simp only [Option.some.injEq, Prod.mk.injEq] at hrun
      obtain ⟨rfl, rfl, rfl⟩ := hrun
      rw [List.append_nil]
      exact ⟨l, T, hs, ht, hT, .refl h l root tables⟩
  | none =>
      obtain ⟨⟨h₁, p⟩, hres⟩ := memAlloc_pageSize h
      have hval : ¬ readPte h.mem pt (px level va) &&& pteV ≠ 0 := by
        rw [ht.entry hπ hlen hk, hT]
        simp [tableEntry]
      rw [mapLevel_alloc hval (hres limit)] at hrun
      simp only [Option.some.injEq, Prod.mk.injEq] at hrun
      obtain ⟨rfl, rfl, rfl⟩ := hrun
      obtain ⟨hal, hlt, hfree, hfresh, hpages, l', hsub, hs'⟩ :=
        hs.allocTable ⟨limit, hres limit⟩ (hgot p (List.mem_singleton_self p))
      have hphys : virtToPhys p = p := virtToPhys_of_lt (hlt.trans (by decide))
      have hptmem := ht.mem_pages hπ
      have hptal := (hbounds pt hptmem).1
      have hptne : pt ≠ p := fun h => hfresh (h ▸ hptmem)
      rw [hphys, memAlloc_pageSize_mem ⟨limit, hres limit⟩]
      -- only the new table and the table it hangs from are written
      have hwrite : ∀ x, pageFloor x ≠ pt → pageFloor x ≠ p →
          writePte (memset h.mem p 0 pageSize) pt (px level va) (pa2pte p ||| pteV) x = h.mem x := by
        intro x hxpt hxp
        rw [writePte_outside hptal hk.1 hxpt, memset_page_outside hal hxp]
      have hread : ∀ t ∈ tablePages root tables, ∀ j < 512, t ≠ pt ∨ j ≠ px level va →
          readPte (writePte (memset h.mem p 0 pageSize) pt (px level va) (pa2pte p ||| pteV)) t j =
            readPte h.mem t j := by
        intro t htm j hj hne
        have htal := (hbounds t htm).1
        rw [readPte_writePte_of_ne hptal htal hk.1 hj hne]
        refine readPte_congr htal hj fun x hx => ?_
        exact memset_page_outside hal fun h => hfresh (h ▸ hx ▸ htm)
      refine ⟨l', _, hs'.write fun x hx => ?_, ht.link hπ hlen hk hT hfresh (fun j hj => ?_) ?_ hread,
        Function.update_self .., hpages, hsub, fun q hq => ?_, fun x hx => ?_, fun k hk' hne => ?_⟩
      · by_cases hxpt : pageFloor x = pt
        · rw [hxpt]
          exact List.mem_append_left [p] hptmem
        · have hxp : pageFloor x = p := by
            by_contra hne
            exact hx ((hwrite x hxpt hne).trans (by rw [memAlloc_pageSize_mem ⟨limit, hres limit⟩]))
          rw [hxp]
          exact List.mem_append_right (root :: tables) (List.mem_singleton_self p)
      · rw [readPte_writePte_of_ne hptal hal hk.1 hj (.inl (Ne.symm hptne)), readPte_memset _ hj]
      · rw [readPte_writePte _ _ _ (pte_lt (hlt.trans (by norm_num)) (by decide)), tableEntry]
      · rwa [List.mem_singleton.mp hq]
      · refine hwrite x (fun h => hx ?_) fun h => hx ?_
        · rw [h]
          exact List.mem_append_left [p] hptmem
        · rw [h]
          exact List.mem_append_right (root :: tables) (List.mem_singleton_self p)
      · -- the entry that was written is a table pointer
        refine hread root List.mem_cons_self k hk' ?_
        by_cases hroot : root = pt
        · rw [← hroot] at hπ
          rw [ht.inj hπ ht.root_eq] at hk
          exact .inr fun h => hne (h ▸ hk)
        · exact .inl hroot

/-- A call is two iterations of its loop and the last-level write. -/
lemma mapPage_eq {limit va pa flags pt₁ pt₂ : ℕ} {h₁ h₂ : Heap} {got₁ got₂ : List ℕ}
    (hrun₁ : mapLevel limit va 2 h root = some (h₁, pt₁, got₁))
    (hrun₂ : mapLevel limit va 1 h₁ pt₁ = some (h₂, pt₂, got₂)) :
    mapPage limit h root va pa flags = some
      ({ h₂ with
          mem := writePte h₂.mem pt₂ (px 0 va) (pa2pte pa ||| flags ||| pteV) }, got₁ ++ got₂) := by
  simp [mapPage, mapWalk, hrun₁, hrun₂]

lemma mapPage_cases {limit va pa flags : ℕ} {got : List ℕ} (hrun : mapPage limit h root va pa flags = some (h', got)) :
    ∃ h₁ pt₁ got₁ h₂ pt₂ got₂, mapLevel limit va 2 h root = some (h₁, pt₁, got₁) ∧
      mapLevel limit va 1 h₁ pt₁ = some (h₂, pt₂, got₂) ∧ got = got₁ ++ got₂ ∧
      h' = { h₂ with
          mem := writePte h₂.mem pt₂ (px 0 va) (pa2pte pa ||| flags ||| pteV) } := by
  cases hrun₁ : mapLevel limit va 2 h root with
  | none => simp [mapPage, mapWalk, hrun₁] at hrun
  | some res₁ =>
      obtain ⟨h₁, pt₁, got₁⟩ := res₁
      cases hrun₂ : mapLevel limit va 1 h₁ pt₁ with
      | none => simp [mapPage, mapWalk, hrun₁, hrun₂] at hrun
      | some res₂ =>
          obtain ⟨h₂, pt₂, got₂⟩ := res₂
          rw [mapPage_eq hrun₁ hrun₂, Option.some.injEq, Prod.mk.injEq] at hrun
          exact ⟨h₁, pt₁, got₁, h₂, pt₂, got₂, rfl, hrun₂, hrun.2.symm, hrun.1.symm⟩

/-- **`map_page`** adds its call to the map. -/
lemma mapPage_spec {limit : ℕ} {c : MapCall} {got : List ℕ}
    (hs : h.TableSplit l others root tables)
    (ht : PageTree h.mem root tables log T) (hva : IsIndex (px 2 c.va) [])
    (hpa : c.pa < 2 ^ 64) (hflags : c.flags < 2 ^ 64)
    (hrun : mapPage limit h root c.va c.pa c.flags = some (h', got)) (hgot : ∀ p ∈ got, p ≠ 0) :
    ∃ l' T', h'.TableSplit l' others root (tables ++ got) ∧
      PageTree h'.mem root (tables ++ got) (c :: log) T' ∧ h.Grown h' l l' root tables got := by
  obtain ⟨h₁, pt₁, got₁, h₄, pt₄, got₄, hrun₁, hrun₂, rfl, rfl⟩ := mapPage_cases hrun
  obtain ⟨l₁, T₁, hs₁, ht₁, hT₁, hg₁⟩ := mapLevel_spec hs ht ht.root_eq (by simp) hva hrun₁
    fun p hp => hgot p (List.mem_append_left _ hp)
  obtain ⟨l₂, T₂, hs₂, ht₂, hT₂, hg₂⟩ := mapLevel_spec hs₁ ht₁ hT₁ (by simp) IsIndex.of_cons hrun₂
    fun p hp => hgot p (List.mem_append_right _ hp)
  have hg := hg₁.trans hg₂
  rw [List.append_assoc] at hs₂ ht₂
  have hptmem := ht₂.mem_pages hT₂
  have hptal := (hs₂.table_bounds _ hptmem).1
  have hread : ∀ t ∈ tablePages root (tables ++ (got₁ ++ got₄)), ∀ j < 512, t ≠ pt₄ ∨ j ≠ px 0 c.va →
      readPte (writePte h₄.mem pt₄ (px 0 c.va) (pa2pte c.pa ||| c.flags ||| pteV)) t j = readPte h₄.mem t j :=
    fun t htm j hj hne => readPte_writePte_of_ne hptal (hs₂.table_bounds t htm).1 (px_lt 0 c.va) hj hne
  refine ⟨l₂, T₂, hs₂.write fun x hx => ?_, ht₂.map hT₂ hpa ?_ hread, hg.pages, hg.free, hg.taken,
    fun x hx => ?_, fun k hk hne => ?_⟩
  · have hxpt : pageFloor x = pt₄ := by
      by_contra hne
      exact hx (writePte_outside hptal (px_lt 0 c.va) hne)
    rw [hxpt]
    exact hptmem
  · have hlt : pa2pte c.pa ||| c.flags ||| pteV < 2 ^ 64 :=
      Nat.or_lt_two_pow (Nat.or_lt_two_pow (Nat.mod_lt _ (by decide)) hflags) (by decide)
    rw [readPte_writePte _ _ _ hlt, leafEntry]
  · have hxpt : pageFloor x ≠ pt₄ := fun h => hx (h ▸ hptmem)
    exact (writePte_outside hptal (px_lt 0 c.va) hxpt).trans (hg.mem x hx)
  · -- the root is no last-level table
    have hroot : root ≠ pt₄ := by
      rintro rfl
      exact absurd (ht₂.inj hT₂ ht₂.root_eq) (by simp)
    exact (hread root List.mem_cons_self k hk (.inl hroot)).trans (hg.giga k hk hne)

/-- A level costs at most one free page. -/
lemma mapLevel_returns {n : ℕ} (hs : h.TableSplit l others root tables)
    (hn : n + 1 ≤ h.freePageCount) (limit va level pt : ℕ) :
    ∃ h' pt' got, mapLevel limit va level h pt = some (h', pt', got) ∧ (∀ p ∈ got, p ≠ 0) ∧
      n ≤ h'.freePageCount := by
  by_cases hval : readPte h.mem pt (px level va) &&& pteV ≠ 0
  · exact ⟨h, _, [], by rw [mapLevel, if_pos hval], by simp, by omega⟩
  · obtain ⟨h₁, p, halloc, hp, hcount⟩ := hs.split.allocPage hn limit
    refine ⟨_, p, [p], mapLevel_alloc hval halloc, ?_, hcount⟩
    intro q hq
    rwa [List.mem_singleton.mp hq]

/-- A call takes two pages at most. -/
lemma mapPage_length {limit va pa flags : ℕ} {got : List ℕ} (hrun : mapPage limit h root va pa flags = some (h', got)) :
    got.length ≤ 2 := by
  have hlevel : ∀ {level pt h h' pt' got}, mapLevel limit va level h pt = some (h', pt', got) → got.length ≤ 1 := by
    intro level pt h h' pt' got hlevel
    rw [mapLevel] at hlevel
    split_ifs at hlevel
    · simp only [Option.some.injEq, Prod.mk.injEq] at hlevel
      simp [← hlevel.2.2]
    · simp only [Option.bind_eq_bind, Option.bind_eq_some_iff, Option.some.injEq, Prod.exists, Prod.mk.injEq] at hlevel
      obtain ⟨_, _, -, -, -, hgot⟩ := hlevel
      simp [← hgot]
  obtain ⟨h₁, pt₁, got₁, h₂, pt₂, got₂, hrun₁, hrun₂, rfl, -⟩ := mapPage_cases hrun
  have h₁ := hlevel hrun₁
  have h₂ := hlevel hrun₂
  rw [List.length_append]
  omega

/-- **With two free pages `map_page` succeeds**, whatever tables it finds. -/
lemma mapPage_returns {c : MapCall} (hs : h.TableSplit l others root tables)
    (ht : PageTree h.mem root tables log T) (hva : IsIndex (px 2 c.va) [])
    (hfree : 2 ≤ h.freePageCount) (limit : ℕ) :
    ∃ h' got, mapPage limit h root c.va c.pa c.flags = some (h', got) ∧ ∀ p ∈ got, p ≠ 0 := by
  obtain ⟨h₁, pt₁, got₁, hrun₁, hgot₁, hfree₁⟩ := mapLevel_returns hs hfree limit c.va 2 root
  obtain ⟨l₁, T₁, hs₁, -⟩ := mapLevel_spec hs ht ht.root_eq (by simp) hva hrun₁ hgot₁
  obtain ⟨h₂, pt₂, got₂, hrun₂, hgot₂, -⟩ := mapLevel_returns hs₁ hfree₁ limit c.va 1 pt₁
  refine ⟨_, got₁ ++ got₂, mapPage_eq hrun₁ hrun₂, fun p hp => ?_⟩
  rw [List.mem_append] at hp
  exact hp.elim (hgot₁ p) (hgot₂ p)

/-- **Where another call has been, `map_page` allocates nothing.** -/
lemma mapPage_follow {c c₀ : MapCall} (hs : h.TableSplit l others root tables)
    (ht : PageTree h.mem root tables log T) (hva : IsIndex (px 2 c.va) []) (hc₀ : c₀ ∈ log)
    (h₁ : px 1 c.va = px 1 c₀.va) (h₂ : px 2 c.va = px 2 c₀.va) (limit : ℕ) :
    ∃ h', mapPage limit h root c.va c.pa c.flags = some (h', []) := by
  obtain ⟨⟨pt, hT⟩, -⟩ := ht.logged c₀ hc₀
  rw [← h₁, ← h₂] at hT
  obtain ⟨⟨pt₁, hT₁⟩, -⟩ := ht.parent hT
  have hrun₁ := mapLevel_follow hs ht ht.root_eq (by simp) hva hT₁ limit
  have hrun₂ := mapLevel_follow hs ht hT₁ (by simp) IsIndex.of_cons hT limit
  exact ⟨_, mapPage_eq hrun₁ hrun₂⟩

end Walk

/-! ## Page tables among other clients -/

/-- The allocator, its other clients, and one page-table tree. -/
structure PtSys where
  heap : Heap
  live : List (List ℕ)
  root : ℕ
  tables : List ℕ
  log : List MapCall

/-- A call of `map_page` on the root, or an operation of another client. -/
inductive PtOp where
  | map (c : MapCall)
  | client (op : AllocOp)

/-- `map_page(root, va, pa, flags)` returns, leaving `h'`; its allocations returned `got`. -/
def MapPageReturns (h : Heap) (root : ℕ) (c : MapCall) (h' : Heap) (got : List ℕ) : Prop :=
  ∃ limit, mapPage limit h root c.va c.pa c.flags = some (h', got)

/-- One step: a `map_page` outside the gigapages whose allocations all succeed, or one operation of
a client that owns neither the root nor a table. -/
inductive PtStep : PtSys → PtOp → PtSys → Prop
  | map {s : PtSys} {c : MapCall} {h' : Heap} {got : List ℕ}
      (hva : c.va < 2 ^ 64) (hidx : px 2 c.va ≠ 2 ∧ px 2 c.va ≠ 258) (hpa : c.pa < 2 ^ 64)
      (hflags : c.flags < 2 ^ 10) (hret : MapPageReturns s.heap s.root c h' got)
      (hgot : ∀ p ∈ got, p ≠ 0) :
      PtStep s (.map c)
        { s with heap := h', tables := s.tables ++ got, log := c :: s.log }
  | client {s : PtSys} {op : AllocOp} {s' : AllocSys} (hop : AllocStep ⟨s.heap, s.live⟩ op s') :
      PtStep s (.client op) { s with heap := s'.heap, live := s'.live }

/-- The state `mem_init` builds its mappings in: some run of the allocator, then the root page,
cleared and given its two gigapage entries. -/
inductive PtStart : PtSys → Prop
  | mk {L : LinkLayout} {m : Mem} {sie : Bool} {ops : List AllocOp} {s : AllocSys} {h' : Heap}
      {root : ℕ} (hrun : Run AllocStep (L.start m sie) ops s)
      (hret : MemAllocReturns s.heap pageSize (h', root)) (hroot : root ≠ 0) :
      PtStart ⟨{ h' with mem := initRoot h'.mem root }, s.live, root, [], []⟩

/-- The pages of the page-table client and the tree in them. -/
def PtSys.Inv (s : PtSys) : Prop :=
  ∃ l T, s.heap.Split l (s.live.flatten ++ tablePages s.root s.tables) ∧
    PageTree s.heap.mem s.root s.tables s.log T

/-- A cleared root with two gigapage entries is the empty tree. -/
lemma emptyRoot_tree {m : Mem} {root : ℕ} (hal : root % 4096 = 0) (hzero : ∀ k < 512, readPte m root k = 0)
    (v : ℕ) : PageTree (writePte (writePte m root (px 2 baseAddr) v) root (px 2 kernelBaseVa) v) root [] []
      fun π => if π = [] then some root else none := by
  have hlow : px 2 baseAddr = 2 := by decide
  have hhigh : px 2 kernelBaseVa = 258 := by decide
  rw [hlow, hhigh]
  refine ⟨rfl, fun h => by simp at h, fun t ht => by simp at ht, ?_, fun h => by simp at h, ?_, ?_,
    fun c hc => by simp at hc⟩
  · intro π π' t hπ hπ'
    split_ifs at hπ hπ' with h h'
    rw [h, h']
  · rintro π t k hπ hlen ⟨hk, hne⟩
    split_ifs at hπ with h
    subst h
    obtain rfl : root = t := Option.some.inj hπ
    obtain ⟨h₂, h₂₅₈⟩ := hne rfl
    rw [readPte_writePte_of_ne hal hal (by norm_num) hk (.inr h₂₅₈),
      readPte_writePte_of_ne hal hal (by norm_num) hk (.inr h₂), hzero k hk]
    rfl
  · intro π t k hπ hlen hk
    split_ifs at hπ with h
    simp [h] at hlen

lemma initRoot_tree (m : Mem) {root : ℕ} (hal : root % 4096 = 0) :
    PageTree (initRoot m root) root [] [] fun π => if π = [] then some root else none :=
  emptyRoot_tree hal (fun _ hk => readPte_memset m hk) gigapagePte

lemma initRoot_outside {m : Mem} {root x : ℕ} (hal : root % 4096 = 0)
    (hx : pageFloor x ≠ root) : initRoot m root x = m x := by
  rw [initRoot, writePte_outside hal (px_lt ..) hx, writePte_outside hal (px_lt ..) hx,
    memset_page_outside hal hx]

lemma PtStart.inv {s : PtSys} (hstart : PtStart s) : s.Inv := by
  cases hstart with
  | @mk L m sie ops s h' root hrun hret hroot =>
      obtain ⟨⟨l, hs⟩, -, -⟩ := LinkLayout.run_inv hrun
      rcases hs.alloc pageSize with hfail | ⟨h'', p', l', hret', -, halloc, hsplit⟩
      · exact absurd (Prod.mk.inj (hret.unique hfail)).2 hroot
      obtain ⟨rfl, rfl⟩ := Prod.mk.inj (hret.unique hret')
      rw [pageCount_pageSize] at hsplit
      have hperm : (s.live.flatten ++ tablePages root []).Perm (blockPages root 1 ++ s.owned) := by
        simp [blockPages, tablePages, AllocSys.owned]
      have hs' := hsplit.of_perm hperm
      have hal := hs'.tableSplit.aligned
      refine ⟨l', _, hs'.write fun x hx => ?_, initRoot_tree h'.mem hal⟩
      have hxr : pageFloor x = root := by
        by_contra hne
        exact hx (initRoot_outside hal hne)
      rw [hxr]
      exact List.mem_append_right _ List.mem_cons_self

/-- **One step keeps the tree.** -/
lemma PtStep.inv {s s' : PtSys} {op : PtOp} (hstep : PtStep s op s') (hinv : s.Inv) : s'.Inv := by
  obtain ⟨l, T, hs, ht⟩ := hinv
  cases hstep with
  | @map c h' got hva hidx hpa hflags hret hgot =>
      obtain ⟨limit, hrun⟩ := hret
      obtain ⟨l', T', hs', ht', -⟩ :=
        mapPage_spec hs.tableSplit ht ⟨px_lt .., fun _ => hidx⟩ hpa (hflags.trans (by decide)) hrun hgot
      exact ⟨l', T', hs'.tablePages_split, ht'⟩
  | @client op s' hop =>
      obtain ⟨⟨l', hs'⟩, -, -, hkeep⟩ := hop.split _ hs
      exact ⟨l', T, hs', ht.congr (fun t htm => (hs.tableSplit.table_bounds t htm).1)
        fun x hx => hkeep x (.inl hx)⟩

/-- Entry `r.2` of the table at `r.1` is a valid pointer to the table `p`.  Tables are the root and
what its entries point to; the two gigapage entries are not pointers. -/
def TableRef (m : Mem) (root : ℕ) (r : ℕ × ℕ) (p : ℕ) : Prop :=
  r.2 < 512 ∧
    ((r.1 = root ∧ r.2 ≠ 2 ∧ r.2 ≠ 258) ∨
      ∃ i, IsIndex i [] ∧ readPte m root i &&& pteV ≠ 0 ∧ r.1 = pte2pa (readPte m root i)) ∧
    readPte m r.1 r.2 &&& pteV ≠ 0 ∧ pte2pa (readPte m r.1 r.2) = p

section Refs

variable {m : Mem} {root : ℕ} {tables : List ℕ} {log : List MapCall} {T : List ℕ → Option ℕ}

/-- A valid entry of a table above the last level points where the tree says. -/
lemma PageTree.entry_valid (ht : PageTree m root tables log T)
    (hpage : ∀ t ∈ tablePages root tables, t % 4096 = 0 ∧ t < 2 ^ 64) {π : List ℕ} {t k p : ℕ}
    (hπ : T π = some t) (hlen : π.length < 2) (hk : IsIndex k π) :
    (readPte m t k &&& pteV ≠ 0 ∧ pte2pa (readPte m t k) = p) ↔ T (k :: π) = some p := by
  rw [ht.entry hπ hlen hk, tableEntry_valid]
  cases hT : T (k :: π) with
  | none => simp
  | some q =>
      obtain ⟨hal, hlt⟩ := hpage q (ht.mem_pages hT)
      rw [pte2pa_tableEntry hlt hal]
      simp

/-- References in memory are the edges of the tree. -/
lemma PageTree.tableRef_iff (ht : PageTree m root tables log T)
    (hpage : ∀ t ∈ tablePages root tables, t % 4096 = 0 ∧ t < 2 ^ 64) {t k p : ℕ} :
    TableRef m root (t, k) p ↔ ∃ π, T π = some t ∧ T (k :: π) = some p := by
  constructor
  · rintro ⟨hk, hsrc, href⟩
    rcases hsrc with ⟨hroot, hne⟩ | ⟨i, hi, hval, heq⟩
    · have hroot' : t = root := hroot
      subst hroot'
      exact ⟨[], ht.root_eq,
        (ht.entry_valid hpage ht.root_eq (by simp) ⟨hk, fun _ => hne⟩).mp href⟩
    · have hT := (ht.entry_valid hpage ht.root_eq (by simp) hi).mp ⟨hval, heq.symm⟩
      exact ⟨[i], hT, (ht.entry_valid hpage hT (by simp) ⟨hk, by simp⟩).mp href⟩
  · rintro ⟨π, hπ, hp⟩
    obtain ⟨-, hlen, hk⟩ := ht.parent hp
    refine ⟨hk.1, ?_, (ht.entry_valid hpage hπ hlen hk).mpr hp⟩
    match π, hπ, hk, hlen with
    | [], hπ, hk, _ =>
        rw [ht.root_eq, Option.some.injEq] at hπ
        exact .inl ⟨hπ.symm, hk.2 rfl⟩
    | [i], hπ, _, _ =>
        obtain ⟨-, -, hi⟩ := ht.parent hπ
        obtain ⟨hval, heq⟩ := (ht.entry_valid hpage ht.root_eq (by simp) hi).mpr hπ
        exact .inr ⟨i, hi, hval, heq.symm⟩
    | _ :: _ :: _, _, _, hlen => simp at hlen

/-- Every table is referenced by exactly one entry. -/
lemma PageTree.existsUnique_ref (ht : PageTree m root tables log T)
    (hpage : ∀ t ∈ tablePages root tables, t % 4096 = 0 ∧ t < 2 ^ 64) {p : ℕ} (hp : p ∈ tables) :
    ∃! r : ℕ × ℕ, TableRef m root r p := by
  obtain ⟨k, π, hT⟩ := ht.onto p hp
  obtain ⟨⟨t, hπ⟩, -⟩ := ht.parent hT
  refine ⟨(t, k), (ht.tableRef_iff hpage).mpr ⟨π, hπ, hT⟩, ?_⟩
  rintro ⟨t', k'⟩ href
  obtain ⟨π', hπ', hT'⟩ := (ht.tableRef_iff hpage).mp href
  obtain ⟨rfl, rfl⟩ := List.cons.inj (ht.inj hT' hT)
  rw [Option.some.inj (hπ'.symm.trans hπ)]

end Refs

/-- The `map_page` calls of a run, in order. -/
def mapCalls (ops : List PtOp) : List MapCall :=
  ops.filterMap fun
    | .map c => some c
    | .client _ => none

lemma Run.log_eq {s s' : PtSys} {ops : List PtOp} (hrun : Run PtStep s ops s') :
    s'.log = (mapCalls ops).reverse ++ s.log ∧ s'.root = s.root := by
  induction hrun with
  | nil s => exact ⟨rfl, rfl⟩
  | cons hstep _ ih =>
      cases hstep with
      | map => simpa [mapCalls] using ih
      | client => simpa [mapCalls] using ih

lemma PtStep.log_flags {s s' : PtSys} {op : PtOp} (hstep : PtStep s op s') (h : ∀ c ∈ s.log, c.flags < 2 ^ 10) :
    ∀ c ∈ s'.log, c.flags < 2 ^ 10 := by
  cases hstep with
  | map _ _ _ hflags _ _ =>
      intro c' hc'
      rcases List.mem_cons.mp hc' with rfl | hc'
      · exact hflags
      · exact h c' hc'
  | client _ => exact h

/-- **The page table refines a finite map.**  After any interleaving of `map_page` calls with other
clients of the allocator, `va2pa` is the newest mapping of the page, or `0`; and the tables form a
tree: each is referenced by exactly one entry, is not the root, and is not on the free list.  A
further call returns, and with two free pages it succeeds. -/
theorem page_table_refines_map (s₀ s : PtSys) (ops : List PtOp) (hstart : PtStart s₀)
    (hrun : Run PtStep s₀ ops s) :
    (∀ va, va < 2 ^ 64 → px 2 va ≠ 2 → px 2 va ≠ 258 →
      va2pa s.heap.mem s.root va = translate (mapCalls ops).reverse va) ∧
    (∀ p ∈ s.tables, (∃! r : ℕ × ℕ, TableRef s.heap.mem s.root r p) ∧ p ≠ s.root ∧
      ∃ l, IsChain (nextPage s.heap.mem) 0 s.heap.freeList l ∧ p ∉ l) ∧
    (∀ r p, TableRef s.heap.mem s.root r p → p ∈ s.tables) ∧ s.tables.Nodup ∧
    ∀ c : MapCall, c.va < 2 ^ 64 → px 2 c.va ≠ 2 → px 2 c.va ≠ 258 → c.pa < 2 ^ 64 →
      c.flags < 2 ^ 10 → 2 ≤ s.heap.freePageCount → ∃ s', PtStep s (.map c) s' := by
  have hinv : s.Inv := hrun.invariant (fun _ _ _ hstep hi => hstep.inv hi) hstart.inv
  obtain ⟨l, T, hs, ht⟩ := hinv
  have hempty : s₀.log = [] := by
    cases hstart
    rfl
  have hlog : s.log = (mapCalls ops).reverse := by
    rw [(Run.log_eq hrun).1, hempty, List.append_nil]
  have hflags : ∀ c ∈ s.log, c.flags < 2 ^ 10 :=
    hrun.invariant (P := fun s => ∀ c ∈ s.log, c.flags < 2 ^ 10) (fun _ _ _ hstep h => hstep.log_flags h)
      (by simp [hempty])
  have hpage := hs.tableSplit.table_bounds
  have hnd := List.nodup_cons.mp (List.nodup_append.mp (List.nodup_append.mp hs.nodup).2.1).2.1
  refine ⟨fun va _ h₂ h₂₅₈ => ?_, fun p hp => ⟨ht.existsUnique_ref hpage hp, ?_, l,
    hs.free.chain, ?_⟩, ?_, hnd.2, ?_⟩
  · rw [← hlog]
    exact ht.va2pa_eq hpage hflags ⟨px_lt .., fun _ => ⟨h₂, h₂₅₈⟩⟩
  · exact fun h => hnd.1 (h ▸ hp)
  · exact hs.notMem_free (List.mem_append_right _ (List.mem_cons_of_mem _ hp))
  · rintro ⟨t, k⟩ p href
    obtain ⟨π, -, hT⟩ := (ht.tableRef_iff hpage).mp href
    exact ht.mem_tables hT
  · intro c hva h₂ h₂₅₈ hpa hflags hfree
    obtain ⟨h', got, hmap, hgot⟩ := mapPage_returns hs.tableSplit ht ⟨px_lt .., fun _ => ⟨h₂, h₂₅₈⟩⟩ hfree 0
    exact ⟨_, .map hva ⟨h₂, h₂₅₈⟩ hpa hflags ⟨0, hmap⟩ hgot⟩

/-- A layout with a heap of three pages: the root and one branch. -/
def threePageLayout : LinkLayout where
  heapSym := kernelBaseVa + ramLength - 0x7000
  stackSym := kernelBaseVa + ramLength - 0x4000
  heap_ge := by decide
  heap_le := by decide
  stack_eq := virtToPhys_stackLimit

lemma threePageLayout_count (m : Mem) (sie : Bool) :
    (threePageLayout.boot m sie).freePageCount = 3 := by
  have ha := threePageLayout.boot_allocated m sie
  have hs : (threePageLayout.boot m sie).heapStart = 0x87FF9000 := by
    rw [ha.heapStart, LinkLayout.bare_heapStart]
    decide
  have he : (threePageLayout.boot m sie).heapEnd = 0x87FFC000 := by
    rw [ha.heapEnd, LinkLayout.bare_heapEnd, ← ha.heapStart, hs]
    decide
  rw [(threePageLayout.boot_split m sie).free.count, Heap.pages_eq, hs, he]
  decide

/-- The UART page, mapped in a heap of three pages, is found again. -/
theorem page_table_refines_map_uart :
    ∃ s₀ s, PtStart s₀ ∧ Run PtStep s₀ [.map ⟨0x10000000, 0x10000000, 7⟩] s ∧
      va2pa s.heap.mem s.root 0x10000005 = 0x10000005 := by
  have hcount := threePageLayout_count (fun _ => 0) true
  have hsplit := threePageLayout.boot_split (fun _ => 0) true
  have hret : MemAllocReturns (threePageLayout.boot (fun _ => 0) true) pageSize (_, _) :=
    ⟨0, memAlloc_one (by decide) pageCount_pageSize (by omega) 0⟩
  have hroot : (threePageLayout.boot (fun _ => 0) true).freeList ≠ 0 := by
    intro h0
    have hchain := hsplit.free.chain
    have hlen := hsplit.free.count
    rw [h0] at hchain
    rw [hchain.unique (isChain_nil.mpr rfl), hcount] at hlen
    simp at hlen
  have hstart : PtStart _ := .mk (.nil (threePageLayout.start (fun _ => 0) true)) hret hroot
  have hfree : 2 ≤ sub32 (threePageLayout.boot (fun _ => 0) true).freePageCount 1 := by
    rw [hcount]
    decide
  obtain ⟨s, hmap⟩ := (page_table_refines_map _ _ [] hstart (.nil _)).2.2.2.2
    ⟨0x10000000, 0x10000000, 7⟩ (by decide) (by decide) (by decide) (by decide) (by decide) hfree
  have hrun : Run PtStep _ [.map ⟨0x10000000, 0x10000000, 7⟩] s := .cons hmap (.nil s)
  refine ⟨_, s, hstart, hrun, ?_⟩
  rw [(page_table_refines_map _ _ _ hstart hrun).1 _ (by decide) (by decide) (by decide)]
  decide

end NetStack
