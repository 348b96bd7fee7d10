import NetStack.Memory.Partition

/-!
# Sv39 page tables: `map_page` and `va2pa`

The two software walks of `mem.c`, over the byte memory.  A page table is a page of 512 entries of
eight bytes; an entry points to a physical page through `PA2PTE` / `PTE2PA`.

`map_page` allocates missing tables with `mem_alloc(PAGE_SIZE)` and, as in the source, uses what
the allocator returned without a check; its second result lists those return values, so that
"every page-table allocation succeeded" can be said of a call.
-/

namespace NetStack

open ByteMem

/-! ## Entries and indices -/

def pteV : ℕ := 1 <<< 0
def pteR : ℕ := 1 <<< 1
def pteW : ℕ := 1 <<< 2
def pteX : ℕ := 1 <<< 3

/-- `PA2PTE`. -/
def pa2pte (pa : ℕ) : ℕ := ((pa >>> pgShift) <<< 10) % 2 ^ 64

/-- `PTE2PA`. -/
def pte2pa (pte : ℕ) : ℕ := ((pte >>> 10) <<< pgShift) % 2 ^ 64

def pxMask : ℕ := 0x1FF

def pxShift (level : ℕ) : ℕ := pgShift + 9 * level

/-- `PX`: the nine index bits of `va` at `level`. -/
def px (level va : ℕ) : ℕ := (va >>> pxShift level) &&& pxMask

/-- `pt[i]`. -/
def readPte (m : Mem) (pt i : ℕ) : ℕ := loadLE m 8 (pt + 8 * i)

/-- `pt[i] = v`. -/
def writePte (m : Mem) (pt i v : ℕ) : Mem := storeLE m 8 (pt + 8 * i) v

/-- `memset`. -/
def memset (m : Mem) (dest : ℕ) (value : UInt8) (size : ℕ) : Mem := fill m dest value size

/-! ## The walks -/

/-- One iteration of the loop of `map_page`: follow a valid entry, or allocate, clear and link the
next table.  The last component holds the value `mem_alloc` returned, if it was called. -/
def mapLevel (limit va level : ℕ) (h : Heap) (pt : ℕ) : Option (Heap × ℕ × List ℕ) :=
  let vpn := px level va
  let pte := readPte h.mem pt vpn
  if pte &&& pteV ≠ 0 then some (h, pte2pa pte, [])
  else do
    let (h, nextPt) ← memAlloc limit h pageSize
    let m := memset h.mem nextPt 0 pageSize
    let m := writePte m pt vpn (pa2pte (virtToPhys nextPt) ||| pteV)
    some ({ h with mem := m }, nextPt, [nextPt])

/-- `for (int level = n; level > 0; level--)`. -/
def mapWalk (limit va : ℕ) : (level : ℕ) → Heap → (pt : ℕ) → Option (Heap × ℕ × List ℕ)
  | 0, h, pt => some (h, pt, [])
  | level + 1, h, pt => do
      let (h, pt, got) ← mapLevel limit va (level + 1) h pt
      let (h, pt, got') ← mapWalk limit va level h pt
      some (h, pt, got ++ got')

/-- `map_page`. -/
def mapPage (limit : ℕ) (h : Heap) (root va pa flags : ℕ) : Option (Heap × List ℕ) := do
  let (h, pt, got) ← mapWalk limit va 2 h root
  some ({ h with mem := writePte h.mem pt (px 0 va) (pa2pte pa ||| flags ||| pteV) }, got)

/-- The loop of `va2pa`; `none` where it stores `0` and returns. -/
def va2paWalk (m : Mem) (va : ℕ) : (level pt : ℕ) → Option ℕ
  | 0, pt => some pt
  | level + 1, pt =>
      let pte := readPte m pt (px (level + 1) va)
      if pte &&& pteV = 0 then none else va2paWalk m va level (pte2pa pte)

/-- `va2pa`: the value stored through the result pointer. -/
def va2pa (m : Mem) (root va : ℕ) : ℕ :=
  match va2paWalk m va 2 root with
  | none => 0
  | some pt =>
      let finalPte := readPte m pt (px 0 va)
      if finalPte &&& pteV = 0 then 0 else pte2pa finalPte ||| (va &&& (pageSize - 1))

/-- The entry `mem_init` writes for both gigapages. -/
def gigapagePte : ℕ := pa2pte baseAddr ||| pteR ||| pteW ||| pteX ||| pteV

/-- The root table of `mem_init`, before any MMIO page is mapped: cleared, then the identity and
the high-half gigapage. -/
def initRoot (m : Mem) (root : ℕ) : Mem :=
  let m := memset m root 0 pageSize
  let m := writePte m root (px 2 baseAddr) gigapagePte
  writePte m root (px 2 kernelBaseVa) gigapagePte

/-! ## Arithmetic of entries and indices -/

lemma px_eq (level va : ℕ) : px level va = va / 2 ^ (12 + 9 * level) % 512 := by
  rw [px, pxMask, pxShift, pgShift_eq, Nat.shiftRight_eq_div_pow,
    show 0x1FF = 2 ^ 9 - 1 from rfl, Nat.and_two_pow_sub_one_eq_mod]

lemma px_lt (level va : ℕ) : px level va < 512 := by
  rw [px_eq]
  exact Nat.mod_lt _ (by norm_num)

/-- Two addresses take the same path through the tables iff their bits 38..12 agree. -/
lemma px_eq_iff {va va' : ℕ} :
    (px 0 va = px 0 va' ∧ px 1 va = px 1 va' ∧ px 2 va = px 2 va') ↔
      va / 2 ^ 12 % 2 ^ 27 = va' / 2 ^ 12 % 2 ^ 27 := by
  simp only [px_eq]
  norm_num
  omega

lemma pa2pte_eq {pa : ℕ} (h : pa < 2 ^ 64) : pa2pte pa = 2 ^ 10 * (pa / 4096) := by
  rw [pa2pte, pgShift_eq, Nat.shiftRight_eq_div_pow, Nat.shiftLeft_eq]
  omega

/-- What `PTE2PA` reads out of an entry made with `PA2PTE` and ten flag bits. -/
lemma pte2pa_pa2pte {pa f : ℕ} (h : pa < 2 ^ 64) (hf : f < 2 ^ 10) :
    pte2pa (pa2pte pa ||| f) = pa / 4096 * 4096 := by
  rw [pa2pte_eq h, ← Nat.two_pow_add_eq_or_of_lt hf, pte2pa, pgShift_eq,
    Nat.shiftRight_eq_div_pow, Nat.shiftLeft_eq]
  omega

lemma valid_or_pteV (x : ℕ) : (x ||| pteV) &&& pteV ≠ 0 := by
  have hb : ((x ||| pteV) &&& pteV).testBit 0 = true := by simp [pteV]
  intro h0
  simp [h0] at hb

lemma pte_lt {pa f : ℕ} (h : pa < 2 ^ 64) (hf : f < 2 ^ 10) : pa2pte pa ||| f < 2 ^ 64 := by
  rw [pa2pte_eq h, ← Nat.two_pow_add_eq_or_of_lt hf]
  omega

/-! ## Entries in memory -/

lemma readPte_writePte (m : Mem) (pt i : ℕ) {v : ℕ} (hv : v < 2 ^ 64) :
    readPte (writePte m pt i v) pt i = v := by
  rw [readPte, writePte, loadLE_storeLE]
  exact Nat.mod_eq_of_lt (hv.trans_eq (by norm_num))

/-- Writing one entry leaves every other entry of every page-aligned table alone. -/
lemma readPte_writePte_of_ne {m : Mem} {pt pt' i i' v : ℕ} (hpt : pt % 4096 = 0)
    (hpt' : pt' % 4096 = 0) (hi : i < 512) (hi' : i' < 512) (hne : pt' ≠ pt ∨ i' ≠ i) :
    readPte (writePte m pt i v) pt' i' = readPte m pt' i' := by
  refine loadLE_storeLE_disjoint m v ?_
  omega

/-- An entry depends on the bytes of its own table only. -/
lemma readPte_congr {m m' : Mem} {pt i : ℕ} (hpt : pt % 4096 = 0) (hi : i < 512)
    (h : ∀ x, pageFloor x = pt → m x = m' x) : readPte m pt i = readPte m' pt i := by
  refine loadLE_congr 8 _ fun j hj => h _ ?_
  simp only [pageFloor, pageSize_eq]
  omega

/-- Writing an entry changes bytes of its own table only. -/
lemma writePte_outside {m : Mem} {pt i v x : ℕ} (hpt : pt % 4096 = 0) (hi : i < 512)
    (hx : pageFloor x ≠ pt) : writePte m pt i v x = m x := by
  refine storeLE_outside 8 m _ v x ?_
  simp only [pageFloor, pageSize_eq] at hx
  omega

/-- Clearing a page changes bytes of that page only. -/
lemma memset_page_outside {m : Mem} {pt x : ℕ} {v : UInt8} (hpt : pt % 4096 = 0)
    (hx : pageFloor x ≠ pt) : memset m pt v pageSize x = m x := by
  refine fill_outside m pt v pageSize x ?_
  simp only [pageFloor, pageSize_eq] at hx ⊢
  omega

lemma readPte_memset (m : Mem) {pt i : ℕ} (hi : i < 512) :
    readPte (memset m pt 0 pageSize) pt i = 0 := by
  refine loadLE_eq_zero 8 _ fun j hj => fill_inside m pt 0 pageSize _ (by omega) ?_
  simp only [pageSize_eq]
  omega

/-- Clearing a page leaves the other tables alone. -/
lemma readPte_memset_of_ne {m : Mem} {pt pt' i : ℕ} (hpt : pt % 4096 = 0) (hpt' : pt' % 4096 = 0) (hi : i < 512)
    (hne : pt' ≠ pt) : readPte (memset m pt 0 pageSize) pt' i = readPte m pt' i :=
  readPte_congr hpt' hi fun _ hx => memset_page_outside hpt (hx ▸ hne)

end NetStack
