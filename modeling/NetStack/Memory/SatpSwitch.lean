import NetStack.Lib.Sv39
import NetStack.Memory.PageTableMap

/-!
# The switch of `satp` in `mem_init`

The kernel builds its address space twice: `relocate_kernel` fills the static `boot_page_table` before
paging is on, and `mem_init` builds a table in pages of the heap and switches to it while running behind
the first.  Both hold two gigapage leaves and the last-level entries of the UART and the VirtIO slots.

`PageTree` describes either table by the `map_page` calls behind it, whatever pages it lies in, and
`PageTree.walk_eq` is the hardware's walk in those terms.  The calls are the same for both tables, hence
so are the translations (`satp_switch`).
-/

namespace NetStack

open ByteMem

/-! ## The two constructions -/

def gpioBaseAddr : ℕ := 0x10000000
def virtioSize : ℕ := 0x1000
def virtioSlots : ℕ := 8

/-- `VIRT_MMIO`. -/
def virtMmio (x : ℕ) : ℕ := gpioBaseAddr + x

/-- The heap and the register that selects the page table. -/
structure Paging where
  heap : Heap
  satp : ℕ

/-- Where the linker puts `.bss`, which is behind `.text` and ends where the heap starts, and
`boot_page_table` in it. -/
structure BssLayout extends LinkLayout where
  bssSym : ℕ
  tableSym : ℕ
  bss_gt : baseAddr < virtToPhys bssSym
  bss_le : virtToPhys bssSym ≤ virtToPhys tableSym
  table_le : virtToPhys tableSym + pageSize ≤ virtToPhys heapSym
  table_aligned : virtToPhys tableSym % pageSize = 0

/-- `boot_page_table`.  `relocate_kernel` runs at physical addresses. -/
def BssLayout.bootPageTable (L : BssLayout) : ℕ := virtToPhys L.tableSym

/-- The loop of `_start` over `.bss`, a double word at a time. -/
def BssLayout.clearBss (L : BssLayout) (m : Mem) : Mem :=
  fill m (virtToPhys L.bssSym) 0 ((virtToPhys L.heapSym - virtToPhys L.bssSym + 7) / 8 * 8)

/-- The heap `relocate_kernel` starts from. -/
def BssLayout.startHeap (L : BssLayout) (m : Mem) (sie : Bool) : Heap := L.boot (L.clearBss m) sie

def setupUartMapping (limit : ℕ) (h : Heap) (root : ℕ) : Option (Heap × List ℕ) :=
  mapPage limit h root 0x10000000 0x10000000 (pteR ||| pteW ||| pteV ||| pteX)

/-- The loop of `setup_virtio_mappings`. -/
def setupVirtioSlots (limit root : ℕ) : List ℕ → Heap → Option (Heap × List ℕ)
  | [], h => some (h, [])
  | slot :: slots, h => do
      let addr := virtMmio (slot * virtioSize)
      let (h, got) ← mapPage limit h root addr addr (pteR ||| pteW)
      let (h, got') ← setupVirtioSlots limit root slots h
      some (h, got ++ got')

def setupVirtioMappings (limit : ℕ) (h : Heap) (root : ℕ) : Option (Heap × List ℕ) :=
  setupVirtioSlots limit root (List.range' 1 virtioSlots) h

/-- The entry of both gigapages in `setup_boot_page_table`. -/
def bootPte : ℕ := pa2pte baseAddr ||| pteV ||| pteR ||| pteW ||| pteX

def setupBootPageTable (m : Mem) (bootPageTable : ℕ) : Mem :=
  let m := writePte m bootPageTable (px 2 baseAddr) bootPte
  writePte m bootPageTable (px 2 kernelBaseVa) bootPte

/-- `(8ULL << 60) | (virt_to_phys(root) >> PGSHIFT)`. -/
def satpValue (root : ℕ) : ℕ := (8 <<< 60) ||| (virtToPhys root >>> pgShift)

/-- `relocate_kernel`, on memory in which `.bss` has been cleared.  The list is what `mem_alloc` returned
on the way. -/
def relocateKernel (limit : ℕ) (L : BssLayout) (m : Mem) (sie : Bool) : Option (Paging × List ℕ) := do
  let h := L.startHeap m sie
  let h := { h with mem := setupBootPageTable h.mem L.bootPageTable }
  let (h, got) ← setupUartMapping limit h L.bootPageTable
  let (h, got') ← setupVirtioMappings limit h L.bootPageTable
  some (⟨h, satpValue L.bootPageTable⟩, got ++ got')

/-- `mem_init`, with its result as a `uint8_t`. -/
def memInit (limit : ℕ) (s : Paging) : Option (Paging × ℕ) := do
  let (h, root) ← memAlloc limit s.heap pageSize
  if root = 0 then some ({ s with heap := h }, 255)
  else do
    let h := { h with mem := initRoot h.mem root }
    let (h, _) ← setupUartMapping limit h root
    let (h, _) ← setupVirtioMappings limit h root
    some (⟨h, satpValue root⟩, 0)

/-! ## What the hardware sees -/

/-- The translation of `va` under `satp`, with the tables in `m`. -/
def sv39 (m : Mem) (satp va : ℕ) : Option Sv39.Mapping := Sv39.translate (loadLE m 8) satp va

/-- The two gigapage entries of a root. -/
def Gigapages (m : Mem) (root : ℕ) : Prop := readPte m root 2 = gigapagePte ∧ readPte m root 258 = gigapagePte

/-- The kernel's address space: the first gigabyte of memory twice, and the devices. -/
structure KernelMap (m : Mem) (satp : ℕ) : Prop where
  identity : ∀ va, 0x80000000 ≤ va → va < 0xC0000000 → sv39 m satp va = some ⟨va, true, true, true⟩
  high : ∀ va, 0xFFFFFFC080000000 ≤ va → va < 0xFFFFFFC0C0000000 →
    sv39 m satp va = some ⟨va - virtOffset, true, true, true⟩
  uart : ∀ va, 0x10000000 ≤ va → va < 0x10001000 → sv39 m satp va = some ⟨va, true, true, true⟩
  virtio : ∀ va, 0x10001000 ≤ va → va < 0x10009000 → sv39 m satp va = some ⟨va, true, true, false⟩
  fault : ∀ va, va < 2 ^ 64 → ¬ (0x80000000 ≤ va ∧ va < 0xC0000000) →
    ¬ (0xFFFFFFC080000000 ≤ va ∧ va < 0xFFFFFFC0C0000000) → ¬ (0x10000000 ≤ va ∧ va < 0x10009000) →
    sv39 m satp va = none

lemma vpn_eq_px (level va : ℕ) : Sv39.vpn level va = px level va := (px_eq level va).symm

lemma pa2pte_or_eq_entry {pa f : ℕ} (hpa : pa < 2 ^ 64) (hf : f < 2 ^ 10) :
    pa2pte pa ||| f = Sv39.entry (pa / 4096) f := by
  rw [pa2pte_eq hpa, ← Nat.two_pow_add_eq_or_of_lt hf, Sv39.entry]

lemma gigapagePte_eq : gigapagePte = Sv39.entry 0x80000 15 := by decide

section Walk

variable {m : Mem} {root : ℕ} {tables : List ℕ} {log : List MapCall} {T : List ℕ → Option ℕ}

/-- One level of the hardware's walk follows the tree. -/
lemma PageTree.walk_succ (ht : PageTree m root tables log T)
    (hpage : ∀ t ∈ tablePages root tables, t % 4096 = 0 ∧ t < 2 ^ 41) {va level pt : ℕ} {π : List ℕ}
    (hπ : T π = some pt) (hlen : π.length < 2) (hk : IsIndex (px level va) π) :
    Sv39.walk (loadLE m 8) va (level + 1) pt =
      (T (px level va :: π)).bind (Sv39.walk (loadLE m 8) va level) := by
  have hentry : loadLE m 8 (pt + 8 * Sv39.vpn level va) = tableEntry (T (px level va :: π)) := by
    rw [vpn_eq_px]
    exact ht.entry hπ hlen hk
  cases hT : T (px level va :: π) with
  | none =>
      rw [hT] at hentry
      rw [Sv39.walk_zero hentry, Option.bind_none]
  | some p =>
      obtain ⟨hal, hlt⟩ := hpage p (ht.mem_pages hT)
      rw [hT, tableEntry, pa2pte_or_eq_entry (by omega) (by decide)] at hentry
      rw [Sv39.walk_pointer (by omega) hentry, Option.bind_some, Nat.div_mul_cancel (Nat.dvd_of_mod_eq_zero hal)]

/-- **The hardware's walk** through a tree, outside the gigapages: the newest call for the page. -/
lemma PageTree.walk_eq (ht : PageTree m root tables log T)
    (hpage : ∀ t ∈ tablePages root tables, t % 4096 = 0 ∧ t < 2 ^ 41) {va : ℕ} (hva : IsIndex (px 2 va) []) :
    Sv39.walk (loadLE m 8) va 3 root = Sv39.lastLevel va (leafEntry (lookupPath log (pathOf va))) := by
  have hnone : T [px 1 va, px 2 va] = none →
      Sv39.lastLevel va (leafEntry (lookupPath log (pathOf va))) = none := by
    intro hT
    rw [pathOf, ht.lookup_none hT]
    exact Sv39.lastLevel_zero
  rw [ht.walk_succ hpage ht.root_eq (by simp) hva]
  cases h₂ : T [px 2 va] with
  | none => rw [Option.bind_none, hnone (ht.child_none h₂)]
  | some p₂ =>
      rw [Option.bind_some, ht.walk_succ hpage h₂ (by simp) IsIndex.of_cons]
      cases h₁ : T [px 1 va, px 2 va] with
      | none => rw [Option.bind_none, hnone h₁]
      | some p₁ =>
          rw [Option.bind_some, Sv39.walk_lastLevel, vpn_eq_px]
          exact congrArg (Sv39.lastLevel va) (ht.leaf h₁ rfl (px_lt 0 va))

/-- Inside the gigapages the walk ends at the root. -/
lemma Gigapages.walk_eq (hg : Gigapages m root) {va : ℕ} (hva : px 2 va = 2 ∨ px 2 va = 258) :
    Sv39.walk (loadLE m 8) va 3 root = some ⟨0x80000000 + va % 2 ^ 30, true, true, true⟩ := by
  have hentry : loadLE m 8 (root + 8 * Sv39.vpn 2 va) = Sv39.entry 0x80000 15 := by
    rw [vpn_eq_px, ← gigapagePte_eq]
    rcases hva with hva | hva <;> rw [hva]
    · exact hg.1
    · exact hg.2
  rw [Sv39.walk_leaf (by decide) (by decide) (by decide) (by decide) (by decide) hentry]
  rfl

end Walk

/-! ## The devices -/

/-- The calls of `setup_uart_mapping` and `setup_virtio_mappings`. -/
def uartCall : MapCall := ⟨0x10000000, 0x10000000, pteR ||| pteW ||| pteV ||| pteX⟩

def virtioCall (slot : ℕ) : MapCall := ⟨virtMmio (slot * virtioSize), virtMmio (slot * virtioSize), pteR ||| pteW⟩

/-- Newest first. -/
def mmioLog : List MapCall := ((List.range' 1 virtioSlots).map virtioCall).reverse ++ [uartCall]

lemma samePage_virtioCall {slot : ℕ} (hslot : slot ≤ 8) (va : ℕ) :
    samePage (virtioCall slot).va va = true ↔ va / 2 ^ 12 % 2 ^ 27 = 0x10000 + slot := by
  have hpage : (virtioCall slot).va / 2 ^ 12 % 2 ^ 27 = 0x10000 + slot := by
    simp only [virtioCall, virtMmio, gpioBaseAddr, virtioSize]
    omega
  rw [samePage, decide_eq_true_iff, hpage]
  exact eq_comm

lemma samePage_uartCall (va : ℕ) : samePage uartCall.va va = true ↔ va / 2 ^ 12 % 2 ^ 27 = 0x10000 := by
  have hpage : uartCall.va / 2 ^ 12 % 2 ^ 27 = 0x10000 := by decide
  rw [samePage, decide_eq_true_iff, hpage]
  exact eq_comm

lemma mmioLog_injective : ∀ c ∈ mmioLog, ∀ c' ∈ mmioLog,
    c'.va / 2 ^ 12 % 2 ^ 27 = c.va / 2 ^ 12 % 2 ^ 27 → c' = c := by decide

/-- Every page belongs to one call at most, so their order does not matter. -/
lemma lookupPath_mmioLog {c : MapCall} {va : ℕ} (hc : c ∈ mmioLog) (hva : samePage c.va va = true) :
    lookupPath mmioLog (pathOf va) = some c := by
  rw [lookupPath_pathOf]
  cases hfind : mmioLog.find? fun c => samePage c.va va with
  | none => exact absurd hva (List.find?_eq_none.mp hfind c hc)
  | some c' =>
      have hva' : samePage c'.va va = true := List.find?_some (p := fun c : MapCall => samePage c.va va) hfind
      rw [samePage, decide_eq_true_iff] at hva hva'
      rw [mmioLog_injective c hc c' (List.mem_of_find?_eq_some hfind) (hva'.trans hva.symm)]

lemma virtioCall_mem {slot : ℕ} (hlo : 1 ≤ slot) (hhi : slot ≤ 8) : virtioCall slot ∈ mmioLog := by
  rw [mmioLog, List.mem_append, List.mem_reverse]
  exact .inl (List.mem_map_of_mem (List.mem_range'_1.mpr ⟨hlo, by simp only [virtioSlots]; omega⟩))

lemma uartCall_mem : uartCall ∈ mmioLog := List.mem_append_right _ (List.mem_singleton_self _)

/-- No call for the pages outside the devices. -/
lemma lookupPath_mmioLog_none {va : ℕ} (hva : ¬ (0x10000 ≤ va / 2 ^ 12 % 2 ^ 27 ∧ va / 2 ^ 12 % 2 ^ 27 ≤ 0x10008)) :
    lookupPath mmioLog (pathOf va) = none := by
  have hpages : ∀ c ∈ mmioLog, 0x10000 ≤ c.va / 2 ^ 12 % 2 ^ 27 ∧ c.va / 2 ^ 12 % 2 ^ 27 ≤ 0x10008 := by decide
  rw [lookupPath_pathOf, List.find?_eq_none]
  intro c hc hsame
  rw [samePage, decide_eq_true_iff] at hsame
  exact hva (hsame ▸ hpages c hc)

/-! ## The translation through a finished table -/

lemma root_satpValue {root : ℕ} (hal : root % 4096 = 0) (hlt : root < 2 ^ 41) :
    Sv39.root (satpValue root) = root ∧ Sv39.mode (satpValue root) = 8 := by
  have hphys : virtToPhys root = root := virtToPhys_of_lt (hlt.trans (by decide))
  have hval : satpValue root = 2 ^ 60 * 8 + root / 4096 := by
    rw [satpValue, hphys, pgShift_eq, Nat.shiftRight_eq_div_pow, Nat.two_pow_add_eq_or_of_lt (by omega)]
    rfl
  rw [Sv39.root, Sv39.mode, hval]
  omega

/-- A root table as both constructions leave it. -/
structure KernelTable (m : Mem) (root : ℕ) (tables : List ℕ) : Prop where
  tree : ∃ T, PageTree m root tables mmioLog T
  giga : Gigapages m root
  low : ∀ t ∈ tablePages root tables, t % 4096 = 0 ∧ t < 2 ^ 41

section

variable {m : Mem} {root : ℕ} {tables : List ℕ}

lemma KernelTable.sv39_walk (hk : KernelTable m root tables) {va : ℕ} (hva : Sv39.Canonical va) :
    sv39 m (satpValue root) va = Sv39.walk (loadLE m 8) va 3 root := by
  obtain ⟨hal, hlt⟩ := hk.low root List.mem_cons_self
  rw [sv39, Sv39.translate, if_pos hva, (root_satpValue hal hlt).1]

lemma KernelTable.sv39_giga (hk : KernelTable m root tables) {va : ℕ} (hva : Sv39.Canonical va)
    (hpx : px 2 va = 2 ∨ px 2 va = 258) :
    sv39 m (satpValue root) va = some ⟨0x80000000 + va % 2 ^ 30, true, true, true⟩ := by
  rw [hk.sv39_walk hva, hk.giga.walk_eq hpx]

lemma KernelTable.sv39_last (hk : KernelTable m root tables) {va : ℕ} (hva : Sv39.Canonical va)
    (hpx : ¬ (px 2 va = 2 ∨ px 2 va = 258)) :
    sv39 m (satpValue root) va = Sv39.lastLevel va (leafEntry (lookupPath mmioLog (pathOf va))) := by
  obtain ⟨T, ht⟩ := hk.tree
  rw [hk.sv39_walk hva, ht.walk_eq hk.low ⟨px_lt .., fun _ => not_or.mp hpx⟩]

/-- **The address space of a finished table.** -/
lemma KernelTable.kernelMap (hk : KernelTable m root tables) : KernelMap m (satpValue root) where
  identity := by
    intro va hlo hhi
    have hpx : px 2 va = 2 := by
      rw [px_eq]
      omega
    rw [hk.sv39_giga (.inl (by omega)) (.inl hpx)]
    simp only [Option.some.injEq, Sv39.Mapping.mk.injEq, and_true]
    omega
  high := by
    intro va hlo hhi
    have hpx : px 2 va = 258 := by
      rw [px_eq]
      omega
    rw [hk.sv39_giga (.inr (by omega)) (.inr hpx)]
    simp only [Option.some.injEq, Sv39.Mapping.mk.injEq, and_true, virtOffset_eq]
    omega
  uart := by
    intro va hlo hhi
    have hpx : px 2 va = 0 := by
      rw [px_eq]
      omega
    have hpage := (samePage_uartCall va).mpr (by omega)
    have hentry : leafEntry (some uartCall) = Sv39.entry 0x10000 15 := by decide
    rw [hk.sv39_last (.inl (by omega)) (by omega), lookupPath_mmioLog uartCall_mem hpage, hentry,
      Sv39.lastLevel_leaf (by decide) (by decide) (by decide) (by decide)]
    rw [show 0x10000 * 4096 + va % 4096 = va by omega]
    rfl
  virtio := by
    intro va hlo hhi
    have hpx : px 2 va = 0 := by
      rw [px_eq]
      omega
    obtain ⟨slot, hslot⟩ : ∃ slot, va / 4096 = 0x10000 + slot := ⟨va / 4096 - 0x10000, by omega⟩
    have hpage : samePage (virtioCall slot).va va = true := (samePage_virtioCall (by omega) va).mpr (by omega)
    have hentry : leafEntry (some (virtioCall slot)) = Sv39.entry (0x10000 + slot) 7 := by
      have hpa : (virtioCall slot).pa = 4096 * (0x10000 + slot) := by
        simp only [virtioCall, virtMmio, gpioBaseAddr, virtioSize]
        omega
      have hflags : (virtioCall slot).flags ||| pteV = 7 := by
        show pteR ||| pteW ||| pteV = 7
        decide
      rw [leafEntry, Nat.or_assoc, hflags, pa2pte_or_eq_entry (by omega) (by decide), hpa,
        Nat.mul_div_cancel_left _ (by decide)]
    rw [hk.sv39_last (.inl (by omega)) (by omega), lookupPath_mmioLog (virtioCall_mem (by omega) (by omega)) hpage,
      hentry, Sv39.lastLevel_leaf (by omega) (by decide) (by decide) (by decide)]
    rw [← hslot, show va / 4096 * 4096 + va % 4096 = va by omega]
    rfl
  fault := by
    intro va hlt hid hhigh hdev
    by_cases hva : Sv39.Canonical va
    · have hcan : va < 2 ^ 38 ∨ 2 ^ 64 - 2 ^ 38 ≤ va := hva
      have hpx : ¬ (px 2 va = 2 ∨ px 2 va = 258) := by
        rw [px_eq]
        omega
      rw [hk.sv39_last hva hpx, lookupPath_mmioLog_none (by omega)]
      exact Sv39.lastLevel_zero
    · rw [sv39, Sv39.translate, if_neg hva]

end

/-- One address space, whatever the table. -/
lemma KernelMap.unique {m m' : Mem} {satp satp' : ℕ} (h : KernelMap m satp) (h' : KernelMap m' satp') {va : ℕ}
    (hva : va < 2 ^ 64) : sv39 m satp va = sv39 m' satp' va := by
  by_cases hid : 0x80000000 ≤ va ∧ va < 0xC0000000
  · rw [h.identity va hid.1 hid.2, h'.identity va hid.1 hid.2]
  by_cases hhigh : 0xFFFFFFC080000000 ≤ va ∧ va < 0xFFFFFFC0C0000000
  · rw [h.high va hhigh.1 hhigh.2, h'.high va hhigh.1 hhigh.2]
  by_cases huart : 0x10000000 ≤ va ∧ va < 0x10001000
  · rw [h.uart va huart.1 huart.2, h'.uart va huart.1 huart.2]
  by_cases hvirtio : 0x10001000 ≤ va ∧ va < 0x10009000
  · rw [h.virtio va hvirtio.1 hvirtio.2, h'.virtio va hvirtio.1 hvirtio.2]
  · rw [h.fault va hva hid hhigh (by omega), h'.fault va hva hid hhigh (by omega)]

/-! ## Building a table -/

section Build

variable {h : Heap} {l others : List ℕ} {root : ℕ} {tables : List ℕ} {T : List ℕ → Option ℕ}

/-- **The VirtIO slots** need no table that the UART does not have. -/
lemma setupVirtioSlots_spec (limit : ℕ) :
    ∀ {slots : List ℕ} {h : Heap} {l : List ℕ} {log : List MapCall} {T : List ℕ → Option ℕ},
    (∀ slot ∈ slots, slot ≤ 8) → h.TableSplit l others root tables → PageTree h.mem root tables log T →
    uartCall ∈ log → ∃ h' l' T', setupVirtioSlots limit root slots h = some (h', []) ∧
      h'.TableSplit l' others root tables ∧
      PageTree h'.mem root tables ((slots.map virtioCall).reverse ++ log) T' ∧ h.Grown h' l l' root tables []
  | [], h, l, _, T, _, hs, ht, _ => ⟨h, l, T, rfl, hs, ht, .refl h l root tables⟩
  | slot :: slots, h, l, log, T, hslots, hs, ht, hlog => by
      have hslot := hslots slot List.mem_cons_self
      have hpx : px 1 (virtioCall slot).va = 128 ∧ px 2 (virtioCall slot).va = 0 := by
        simp only [px_eq, virtioCall, virtMmio, gpioBaseAddr, virtioSize]
        omega
      have hidx : IsIndex (px 2 (virtioCall slot).va) [] := ⟨px_lt .., fun _ => by omega⟩
      have hpa : (virtioCall slot).pa < 2 ^ 64 := by
        simp only [virtioCall, virtMmio, gpioBaseAddr, virtioSize]
        omega
      have hflags : (virtioCall slot).flags < 2 ^ 64 := by
        show pteR ||| pteW < 2 ^ 64
        decide
      obtain ⟨h₁, hrun₁⟩ := mapPage_follow hs ht hidx hlog (hpx.1.trans (by decide)) (hpx.2.trans (by decide)) limit
      obtain ⟨l₁, T₁, hs₁, ht₁, hg₁⟩ := mapPage_spec hs ht hidx hpa hflags hrun₁ (by simp)
      rw [List.append_nil] at hs₁ ht₁
      obtain ⟨h₂, l₂, T₂, hrun₂, hs₂, ht₂, hg₂⟩ := setupVirtioSlots_spec limit
        (fun s hs => hslots s (List.mem_cons_of_mem _ hs)) hs₁ ht₁ (List.mem_cons_of_mem _ hlog)
      refine ⟨h₂, l₂, T₂, ?_, hs₂, ?_, hg₁.trans (by rwa [List.append_nil])⟩
      · have hmap : mapPage limit h root (virtMmio (slot * virtioSize)) (virtMmio (slot * virtioSize))
            (pteR ||| pteW) = some (h₁, []) := hrun₁
        simp [setupVirtioSlots, hmap, hrun₂]
      · rwa [List.map_cons, List.reverse_cons, List.append_assoc, List.singleton_append]

/-- **The devices**, in a table that has only its gigapages: two pages are enough. -/
lemma setupMappings_spec (hs : h.TableSplit l others root []) (ht : PageTree h.mem root [] [] T)
    (hfree : 2 ≤ h.freePageCount) (limit : ℕ) : ∃ h₁ h₂ got l' T', setupUartMapping limit h root = some (h₁, got) ∧
      setupVirtioMappings limit h₁ root = some (h₂, []) ∧ h₂.TableSplit l' others root got ∧
      PageTree h₂.mem root got mmioLog T' ∧ got.length ≤ 2 ∧ h.Grown h₂ l l' root [] got := by
  have hidx : IsIndex (px 2 uartCall.va) [] := ⟨px_lt .., fun _ => by decide⟩
  obtain ⟨h₁, got, hrun₁, hgot⟩ := mapPage_returns (c := uartCall) hs ht hidx hfree limit
  obtain ⟨l₁, T₁, hs₁, ht₁, hg₁⟩ := mapPage_spec hs ht hidx (by decide) (by decide) hrun₁ hgot
  rw [List.nil_append] at hs₁ ht₁
  have hslots : ∀ slot ∈ List.range' 1 virtioSlots, slot ≤ 8 := by decide
  obtain ⟨h₂, l₂, T₂, hrun₂, hs₂, ht₂, hg₂⟩ :=
    setupVirtioSlots_spec limit hslots hs₁ ht₁ (List.mem_singleton_self uartCall)
  refine ⟨h₁, h₂, got, l₂, T₂, hrun₁, hrun₂, hs₂, ht₂, mapPage_length hrun₁, ?_⟩
  have hg := hg₁.trans hg₂
  rwa [List.append_nil] at hg

end Build

lemma notIsIndex_giga {k : ℕ} (hk : k = 2 ∨ k = 258) : ¬ IsIndex k [] := fun h => by
  have hne := h.2 rfl
  omega

/-- The two entries both constructions write. -/
lemma gigapages_of_write (m : Mem) {root : ℕ} (hal : root % 4096 = 0) :
    Gigapages (writePte (writePte m root (px 2 baseAddr) gigapagePte) root (px 2 kernelBaseVa) gigapagePte) root := by
  have hlow : px 2 baseAddr = 2 := by decide
  have hhigh : px 2 kernelBaseVa = 258 := by decide
  have hlt : gigapagePte < 2 ^ 64 := by decide
  rw [hlow, hhigh]
  refine ⟨?_, readPte_writePte _ _ _ hlt⟩
  rw [readPte_writePte_of_ne hal hal (by decide) (by decide) (.inr (by decide)), readPte_writePte _ _ _ hlt]

lemma Gigapages.grown {h h' : Heap} {l l' tables got : List ℕ} {root : ℕ} (hg : Gigapages h.mem root)
    (hgrown : h.Grown h' l l' root tables got) : Gigapages h'.mem root :=
  ⟨(hgrown.giga 2 (by decide) (notIsIndex_giga (.inl rfl))).trans hg.1,
    (hgrown.giga 258 (by decide) (notIsIndex_giga (.inr rfl))).trans hg.2⟩

/-- The table is a statement about its own pages. -/
lemma KernelTable.congr {m m' : Mem} {root : ℕ} {tables : List ℕ} (hk : KernelTable m root tables)
    (hag : ∀ x, pageFloor x ∈ tablePages root tables → m' x = m x) : KernelTable m' root tables := by
  obtain ⟨T, ht⟩ := hk.tree
  have hroot : ∀ k < 512, readPte m' root k = readPte m root k := fun k hlt =>
    readPte_congr (hk.low root List.mem_cons_self).1 hlt fun x hx => hag x (hx ▸ List.mem_cons_self)
  exact ⟨⟨T, ht.congr (fun t htm => (hk.low t htm).1) hag⟩,
    ⟨(hroot 2 (by decide)).trans hk.giga.1, (hroot 258 (by decide)).trans hk.giga.2⟩, hk.low⟩

lemma bootPte_eq : bootPte = gigapagePte := by decide

lemma setupBootPageTable_outside {m : Mem} {root x : ℕ} (hal : root % 4096 = 0) (hx : pageFloor x ≠ root) :
    setupBootPageTable m root x = m x := by
  rw [setupBootPageTable, writePte_outside hal (px_lt ..) hx, writePte_outside hal (px_lt ..) hx]

/-- **A cleared root with its gigapages** is the empty tree. -/
lemma Heap.TableSplit.setupBoot {h : Heap} {l others : List ℕ} {root : ℕ} (hs : h.TableSplit l others root [])
    (hzero : ∀ k < 512, readPte h.mem root k = 0) :
    Heap.TableSplit { h with mem := setupBootPageTable h.mem root } l others root [] ∧
      (∃ T, PageTree (setupBootPageTable h.mem root) root [] [] T) ∧
      Gigapages (setupBootPageTable h.mem root) root := by
  refine ⟨hs.write fun x hx => ?_, ⟨_, emptyRoot_tree hs.aligned hzero bootPte⟩, ?_⟩
  · by_contra hne
    exact hx (setupBootPageTable_outside hs.aligned fun h => hne (h ▸ List.mem_cons_self))
  · rw [setupBootPageTable, bootPte_eq]
    exact gigapages_of_write h.mem hs.aligned

/-- **A cleared root becomes a finished table**, given two free pages. -/
lemma setupRoot_spec {h : Heap} {l others : List ℕ} {root : ℕ} (hs : h.TableSplit l others root [])
    (hzero : ∀ k < 512, readPte h.mem root k = 0) (hfree : 2 ≤ h.freePageCount) (limit : ℕ) :
    ∃ h₁ h₂ got l', setupUartMapping limit { h with mem := setupBootPageTable h.mem root } root = some (h₁, got) ∧
      setupVirtioMappings limit h₁ root = some (h₂, []) ∧ h₂.TableSplit l' others root got ∧
      KernelTable h₂.mem root got ∧ got.length ≤ 2 ∧ h₂.pages = h.pages ∧ got ⊆ l ∧
      ∀ x, pageFloor x ∉ l → pageFloor x ≠ root → h₂.mem x = h.mem x := by
  obtain ⟨hs', ⟨T, ht⟩, hg⟩ := hs.setupBoot hzero
  obtain ⟨h₁, h₂, got, l', T', hrun₁, hrun₂, hs₂, ht₂, hlen, hgrown⟩ := setupMappings_spec hs' ht hfree limit
  refine ⟨h₁, h₂, got, l', hrun₁, hrun₂, hs₂, ⟨⟨T', ht₂⟩, Gigapages.grown hg hgrown, hs₂.table_low⟩, hlen,
    hgrown.pages, hgrown.taken, ?_⟩
  intro x hl hroot
  refine (hgrown.mem x fun hmem => ?_).trans (setupBootPageTable_outside hs.aligned hroot)
  rcases List.mem_cons.mp hmem with hmem | hmem
  · exact hroot hmem
  · exact hl (hgrown.taken hmem)

/-! ## `relocate_kernel` -/

section Relocate

variable (L : BssLayout) (m : Mem) (sie : Bool)

lemma BssLayout.bootPageTable_aligned : L.bootPageTable % 4096 = 0 := L.table_aligned

lemma BssLayout.bootPageTable_lt : L.bootPageTable < 2 ^ 41 := by
  have h₁ := L.heap_le
  have h₂ := L.table_le
  simp only [baseAddr_eq, ramLength_eq, pageSize_eq] at h₁ h₂
  rw [BssLayout.bootPageTable]
  omega

/-- The heap starts behind `boot_page_table`. -/
lemma BssLayout.bootPageTable_lt_page {p : ℕ} (hp : p ∈ (L.bare (L.clearBss m) sie).pages) :
    L.bootPageTable + 4096 ≤ p := by
  have hstart := L.bare_heapStart (L.clearBss m) sie
  have hlo := ((Heap.mem_pages (L.bare_bounded (L.clearBss m) sie).1).mp hp).2.1
  have hle := L.table_le
  rw [pageSize_eq] at hle
  rw [BssLayout.bootPageTable]
  omega

lemma BssLayout.startHeap_pages : (L.startHeap m sie).pages = (L.bare (L.clearBss m) sie).pages := by
  have ha := L.boot_allocated (L.clearBss m) sie
  rw [BssLayout.startHeap, Heap.pages_eq, Heap.pages_eq, ha.heapStart, ha.heapEnd]

/-- `boot_page_table` is in `.bss`. -/
lemma BssLayout.startHeap_zero {k : ℕ} (hk : k < 512) : readPte (L.startHeap m sie).mem L.bootPageTable k = 0 := by
  refine loadLE_eq_zero 8 _ fun j hj => ?_
  have hmem := (L.boot_allocated (L.clearBss m) sie).mem (L.bootPageTable + 8 * k + j) fun p hp => by
    have hlt := L.bootPageTable_lt_page m sie hp
    omega
  rw [BssLayout.startHeap, hmem]
  have h₁ := L.bss_le
  have h₂ := L.table_le
  rw [pageSize_eq] at h₂
  refine fill_inside _ _ _ _ _ ?_ ?_
  · rw [BssLayout.bootPageTable]
    omega
  · rw [BssLayout.bootPageTable]
    omega

lemma BssLayout.startHeap_tableSplit :
    (L.startHeap m sie).TableSplit (L.startHeap m sie).pages [] L.bootPageTable [] := by
  refine ⟨L.boot_split (L.clearBss m) sie, L.bootPageTable_aligned, L.bootPageTable_lt, .inr fun hp => ?_⟩
  rw [BssLayout.startHeap_pages] at hp
  have hlt := L.bootPageTable_lt_page m sie hp
  omega

variable {L m sie} in
lemma relocateKernel_eq {limit : ℕ} {h₁ h₂ : Heap} {got got' : List ℕ}
    (hrun₁ : setupUartMapping limit { L.startHeap m sie with
      mem := setupBootPageTable (L.startHeap m sie).mem L.bootPageTable } L.bootPageTable = some (h₁, got))
    (hrun₂ : setupVirtioMappings limit h₁ L.bootPageTable = some (h₂, got')) :
    relocateKernel limit L m sie = some (⟨h₂, satpValue L.bootPageTable⟩, got ++ got') := by
  rw [relocateKernel]
  simp only [hrun₁, hrun₂, Option.bind_eq_bind, Option.bind_some]

/-- **`relocate_kernel`** returns with a finished table, given two free pages. -/
lemma relocateKernel_spec (hfree : 2 ≤ (L.startHeap m sie).freePageCount) (limit : ℕ) :
    ∃ b tables l, relocateKernel limit L m sie = some (b, tables) ∧ b.satp = satpValue L.bootPageTable ∧
      b.heap.TableSplit l [] L.bootPageTable tables ∧ KernelTable b.heap.mem L.bootPageTable tables ∧
      (L.startHeap m sie).freePageCount ≤ b.heap.freePageCount + 2 := by
  have hs := L.startHeap_tableSplit m sie
  have hzero : ∀ k < 512, readPte (L.startHeap m sie).mem L.bootPageTable k = 0 := fun k hk => L.startHeap_zero m sie hk
  obtain ⟨h₁, h₂, got, l', hrun₁, hrun₂, hs', hk, hlen, hpages, -⟩ := setupRoot_spec hs hzero hfree limit
  refine ⟨⟨h₂, satpValue L.bootPageTable⟩, got, l', ?_, rfl, hs', hk, ?_⟩
  · rw [relocateKernel_eq hrun₁ hrun₂, List.append_nil]
  · have hall := hs'.split.perm.length_eq
    rw [hpages, List.nil_append, List.length_append, ← hs'.split.free.count, ← hs.split.free.count] at hall
    show _ ≤ h₂.freePageCount + 2
    omega

end Relocate

/-! ## `mem_init` -/

/-- **A state of the allocator in which the boot tables are in place**: they are not free, and hold what
`relocate_kernel` left there.  Nothing is said of the other pages. -/
structure KeepsBoot (L : BssLayout) (b : Paging) (tables : List ℕ) (h : Heap) (l owned : List ℕ) : Prop where
  split : h.Split l (owned ++ tables)
  pages : h.pages = b.heap.pages
  mem : ∀ x, pageFloor x ∈ tablePages L.bootPageTable tables → h.mem x = b.heap.mem x

lemma initRoot_eq (m : Mem) (root : ℕ) : initRoot m root = setupBootPageTable (memset m root 0 pageSize) root := by
  rw [setupBootPageTable, bootPte_eq]
  rfl

/-- The root `mem_init` gets, cleared. -/
lemma Heap.Split.clearRoot {h h' : Heap} {l owned : List ℕ} {root : ℕ} (hs : h.Split l owned)
    (hret : MemAllocReturns h pageSize (h', root)) (hroot : root ≠ 0) :
    h'.mem = h.mem ∧ h'.pages = h.pages ∧ root ∈ l ∧ ∃ l', l' ⊆ l ∧
      Heap.TableSplit { h' with mem := memset h'.mem root 0 pageSize } l' (owned ++ [root]) root [] := by
  rcases hs.alloc_returns hret with ⟨h0, -⟩ | ⟨-, hpages, l', hsplit⟩
  · exact absurd h0 hroot
  have hblock : blockPages root (pageCount pageSize) = [root] := by
    rw [pageCount_pageSize]
    simp [blockPages]
  rw [hblock] at hsplit
  obtain ⟨hal, hlt⟩ := (hsplit.isPage_owned (List.mem_append_left owned List.mem_cons_self)).bounds hsplit.bounded
  -- the pages that are free now, and the root, were free before
  have hperm : (root :: l').Perm l := by
    have hall := hsplit.perm.trans (hpages ▸ hs.perm.symm)
    exact (List.perm_append_right_iff _).mp (List.perm_middle.symm.trans hall)
  have hts : h'.TableSplit l' (owned ++ [root]) root [] := by
    refine ⟨?_, hal, hlt, .inl (List.mem_append_right _ (List.mem_singleton_self root))⟩
    rw [List.append_nil]
    exact hsplit.of_perm List.perm_append_comm
  refine ⟨memAlloc_pageSize_mem hret, hpages, hperm.mem_iff.mp List.mem_cons_self, l',
    fun q hq => hperm.mem_iff.mp (List.mem_cons_of_mem _ hq), hts.write fun x hx => ?_⟩
  by_contra hne
  exact hx (memset_page_outside hal fun h => hne (h ▸ List.mem_cons_self))

lemma memInit_eq {limit : ℕ} {h h' h₁ h₂ : Heap} {root : ℕ} {got got' : List ℕ} (satp : ℕ)
    (halloc : memAlloc limit h pageSize = some (h', root)) (hroot : root ≠ 0)
    (hrun₁ : setupUartMapping limit { h' with mem := initRoot h'.mem root } root = some (h₁, got))
    (hrun₂ : setupVirtioMappings limit h₁ root = some (h₂, got')) :
    memInit limit ⟨h, satp⟩ = some (⟨h₂, satpValue root⟩, 0) := by
  simp only [memInit, halloc, Option.bind_eq_bind, Option.bind_some, if_neg hroot]
  simp only [hrun₁, hrun₂, Option.bind_some]

/-- **A table in pages of the heap**: they were free, and are not any more. -/
structure BuiltTable (h : Heap) (l owned : List ℕ) (s : Paging) (root : ℕ) (tables : List ℕ) : Prop where
  satp : s.satp = satpValue root
  table : KernelTable s.heap.mem root tables
  wasFree : tablePages root tables ⊆ l
  taken : ∃ l', s.heap.Split l' (owned ++ tablePages root tables)
  pages : s.heap.pages = h.pages

/-- **`mem_init`** returns `0` with a finished table, given three free pages. -/
lemma memInit_spec {h : Heap} {l owned : List ℕ} (hs : h.Split l owned) (hfree : 3 ≤ h.freePageCount) (satp limit : ℕ) :
    ∃ s root tables, memInit limit ⟨h, satp⟩ = some (s, 0) ∧ BuiltTable h l owned s root tables ∧
      ∀ x, pageFloor x ∉ l → s.heap.mem x = h.mem x := by
  obtain ⟨h', root, halloc, hroot, hcount⟩ := hs.allocPage hfree limit
  obtain ⟨hmem, hpages, hmem_l, l', hsub, hclear⟩ := hs.clearRoot ⟨limit, halloc⟩ hroot
  obtain ⟨h₁, h₂, got, l₂, hrun₁, hrun₂, hs₂, hk, -, hpages₂, hgot, hkeep⟩ :=
    setupRoot_spec hclear (fun k hk => readPte_memset _ hk) hcount limit
  have hbuilt : BuiltTable h l owned ⟨h₂, satpValue root⟩ root got := by
    refine ⟨rfl, hk, List.cons_subset.mpr ⟨hmem_l, fun p hp => hsub (hgot hp)⟩, ⟨l₂, ?_⟩, hpages₂.trans hpages⟩
    have hsplit := hs₂.split
    rwa [List.append_assoc, List.singleton_append] at hsplit
  refine ⟨⟨h₂, satpValue root⟩, root, got, ?_, hbuilt, fun x hx => ?_⟩
  · rw [← initRoot_eq] at hrun₁
    exact memInit_eq satp halloc hroot hrun₁ hrun₂
  · have hne : pageFloor x ≠ root := fun h => hx (h ▸ hmem_l)
    have hset : memset h'.mem root 0 pageSize x = h'.mem x := memset_page_outside hclear.aligned hne
    exact (hkeep x (fun h => hx (hsub h)) hne).trans (hset.trans (congrFun hmem x))

/-- **The switch of `satp` changes no translation.**  Wherever the linker puts the boot table and whatever
memory holds, `relocate_kernel` returns if it finds two free pages; and in every state of the allocator in
which the boot tables are in place and three pages are free, `mem_init` returns `0`, and with the memory it
leaves every address translates under its `satp`, which selects a table it has built in free pages of the heap, as
under the one before.  Five free pages are enough for both. -/
theorem satp_switch (L : BssLayout) (m : Mem) (sie : Bool) (limit : ℕ)
    (hboot : 2 ≤ (L.startHeap m sie).freePageCount) :
    ∃ b tables, relocateKernel limit L m sie = some (b, tables) ∧ KernelMap b.heap.mem b.satp ∧ Sv39.mode b.satp = 8 ∧
      (∃ l, KeepsBoot L b tables b.heap l []) ∧ (L.startHeap m sie).freePageCount ≤ b.heap.freePageCount + 2 ∧
      ∀ (h : Heap) (l owned : List ℕ) (limit' : ℕ), KeepsBoot L b tables h l owned → 3 ≤ h.freePageCount →
        ∃ s root tables', memInit limit' ⟨h, b.satp⟩ = some (s, 0) ∧
          BuiltTable h l (owned ++ tables) s root tables' ∧ root ≠ L.bootPageTable ∧
          Sv39.mode s.satp = 8 ∧ KernelMap s.heap.mem s.satp ∧ KernelMap s.heap.mem b.satp ∧
          ∀ va < 2 ^ 64, sv39 b.heap.mem b.satp va = sv39 s.heap.mem s.satp va ∧
            sv39 s.heap.mem b.satp va = sv39 s.heap.mem s.satp va := by
  obtain ⟨b, tables, l₀, hrun, hsatp, hs, hk, hcount⟩ := relocateKernel_spec L m sie hboot limit
  have hout : L.bootPageTable ∉ b.heap.pages := hs.place.resolve_left List.not_mem_nil
  have hmode := (root_satpValue L.bootPageTable_aligned L.bootPageTable_lt).2
  refine ⟨b, tables, hrun, hsatp ▸ hk.kernelMap, hsatp ▸ hmode, ⟨l₀, hs.split, rfl, fun _ _ => rfl⟩, hcount, ?_⟩
  intro h l owned limit' hkeep hfree
  obtain ⟨s, root, tables', hinit, hbuilt, hmem⟩ := memInit_spec hkeep.split hfree b.satp limit'
  obtain ⟨hal, hlt⟩ := hbuilt.table.low root List.mem_cons_self
  have hin : ∀ p ∈ l, p ∈ b.heap.pages := fun p hp =>
    hkeep.pages ▸ hkeep.split.perm.mem_iff.mp (List.mem_append_left _ hp)
  have hne : root ≠ L.bootPageTable := fun h => hout (h ▸ hin root (hbuilt.wasFree List.mem_cons_self))
  have hboot' : KernelTable s.heap.mem L.bootPageTable tables := by
    refine hk.congr fun x hx => (hmem x fun hl => ?_).trans (hkeep.mem x hx)
    rcases List.mem_cons.mp hx with hroot | htable
    · rw [hroot] at hl
      exact hout (hin _ hl)
    · exact hkeep.split.notMem_free (List.mem_append_right _ htable) hl
  have hold := hk.kernelMap
  have hnew := hbuilt.table.kernelMap
  have hstill := hboot'.kernelMap
  rw [← hsatp] at hold hstill
  rw [← hbuilt.satp] at hnew
  refine ⟨s, root, tables', hinit, hbuilt, hne, hbuilt.satp ▸ (root_satpValue hal hlt).2, hnew, hstill, fun va hva => ?_⟩
  exact ⟨hold.unique hnew hva, hstill.unique hnew hva⟩

/-- A layout with a heap of five pages: two for the boot tables and three for the kernel's. -/
def fivePageLayout : BssLayout where
  heapSym := kernelBaseVa + ramLength - 0x9000
  stackSym := kernelBaseVa + ramLength - 0x4000
  bssSym := kernelBaseVa + ramLength - 0xB000
  tableSym := kernelBaseVa + ramLength - 0xA000
  heap_ge := by decide
  heap_le := by decide
  stack_eq := virtToPhys_stackLimit
  bss_gt := by decide
  bss_le := by decide
  table_le := by decide
  table_aligned := by decide

lemma fivePageLayout_count (m : Mem) (sie : Bool) : (fivePageLayout.startHeap m sie).freePageCount = 5 := by
  have ha := fivePageLayout.boot_allocated (fivePageLayout.clearBss m) sie
  have hs : (fivePageLayout.startHeap m sie).heapStart = 0x87FF7000 := by
    rw [BssLayout.startHeap, ha.heapStart, LinkLayout.bare_heapStart]
    decide
  have he : (fivePageLayout.startHeap m sie).heapEnd = 0x87FFC000 := by
    rw [BssLayout.startHeap] at hs ⊢
    rw [ha.heapEnd, LinkLayout.bare_heapEnd, ← ha.heapStart, hs]
    decide
  rw [(fivePageLayout.startHeap_tableSplit m sie).split.free.count, Heap.pages_eq, hs, he]
  decide

/-- The two constructions one after the other, on five pages. -/
theorem satp_switch_five_pages : ∃ b tables s root,
    relocateKernel 0 fivePageLayout (fun _ => 0) false = some (b, tables) ∧ memInit 0 b = some (s, 0) ∧
      s.satp = satpValue root ∧ root ∈ b.heap.pages ∧ root ≠ fivePageLayout.bootPageTable ∧
      ∀ va < 2 ^ 64, sv39 b.heap.mem b.satp va = sv39 s.heap.mem s.satp va := by
  have hcount := fivePageLayout_count (fun _ => 0) false
  obtain ⟨b, tables, hrun, -, -, ⟨l, hkeep⟩, hfree, hswitch⟩ :=
    satp_switch fivePageLayout (fun _ => 0) false 0 (by omega)
  obtain ⟨s, root, tables', hinit, hbuilt, hne, -, -, -, hsame⟩ := hswitch b.heap l [] 0 hkeep (by omega)
  have hroot : root ∈ b.heap.pages :=
    hkeep.split.perm.mem_iff.mp (List.mem_append_left _ (hbuilt.wasFree List.mem_cons_self))
  exact ⟨b, tables, s, root, hrun, hinit, hbuilt.satp, hroot, hne, fun va hva => (hsame va hva).1⟩

end NetStack
