import NetStack.Memory.KernelTables

/-!
# `va2pa` against the hardware

`va2pa` takes every valid entry above the last level for a pointer, so in the two gigapages it goes on
into the kernel's image as if that were a page table.  Everywhere else it agrees with the walk of the
hardware, as long as the page was mapped to a physical address that Sv39 has (`va2pa_agrees`).
-/

namespace NetStack

open ByteMem Transition

/-! ## What is read -/

/-- The addresses of the entries `va2pa` reads, from a table with `level` levels above the last. -/
def va2paWalkReads (m : Mem) (va : ℕ) : (level pt : ℕ) → List ℕ
  | 0, pt => [pt + 8 * px 0 va]
  | level + 1, pt =>
      let pte := readPte m pt (px (level + 1) va)
      (pt + 8 * px (level + 1) va) :: if pte &&& pteV = 0 then [] else va2paWalkReads m va level (pte2pa pte)

def va2paReads (m : Mem) (root va : ℕ) : List ℕ := va2paWalkReads m va 2 root

/-- The value stored through the result pointer, from a table with `level` levels above the last. -/
def va2paFrom (m : Mem) (va level pt : ℕ) : ℕ :=
  match va2paWalk m va level pt with
  | none => 0
  | some pt =>
      let finalPte := readPte m pt (px 0 va)
      if finalPte &&& pteV = 0 then 0 else pte2pa finalPte ||| (va &&& (pageSize - 1))

/-- These entries are all that the result depends on. -/
lemma va2paFrom_congr {m m' : Mem} {va : ℕ} : ∀ {level pt : ℕ},
    (∀ a ∈ va2paWalkReads m va level pt, ∀ i < 8, m (a + i) = m' (a + i)) →
      va2paFrom m' va level pt = va2paFrom m va level pt
  | 0, pt, h => by
      have hread : readPte m' pt (px 0 va) = readPte m pt (px 0 va) :=
        (loadLE_congr 8 _ (h _ (List.mem_singleton_self _))).symm
      simp only [va2paFrom, va2paWalk, hread]
  | level + 1, pt, h => by
      have hread : readPte m' pt (px (level + 1) va) = readPte m pt (px (level + 1) va) :=
        (loadLE_congr 8 _ (h _ List.mem_cons_self)).symm
      by_cases hval : readPte m pt (px (level + 1) va) &&& pteV = 0
      · simp only [va2paFrom, va2paWalk, hread, if_pos hval]
      · have hrest : va2paFrom m' va level (pte2pa (readPte m pt (px (level + 1) va))) =
            va2paFrom m va level (pte2pa (readPte m pt (px (level + 1) va))) := by
          refine va2paFrom_congr fun a ha => h a ?_
          simp only [va2paWalkReads, if_neg hval]
          exact List.mem_cons_of_mem _ ha
        simp only [va2paFrom, va2paWalk, hread, if_neg hval] at hrest ⊢
        exact hrest

theorem va2pa_reads {m m' : Mem} {root va : ℕ}
    (h : ∀ a ∈ va2paReads m root va, ∀ i < 8, m (a + i) = m' (a + i)) : va2pa m' root va = va2pa m root va :=
  va2paFrom_congr h

/-! ## Agreement -/

/-- The property of one address: `va2pa` stores the physical address of the hardware's translation, `0`
exactly when there is none, and reads nothing but tables. -/
structure Va2paAgrees (s : PtSys) (va : ℕ) : Prop where
  value : ∀ μ, sv39 s.heap.mem (satpValue s.root) va = some μ → va2pa s.heap.mem s.root va = μ.pa
  zero : va2pa s.heap.mem s.root va = 0 ↔ sv39 s.heap.mem (satpValue s.root) va = none
  reads : ∀ a ∈ va2paReads s.heap.mem s.root va, pageFloor a ∈ tablePages s.root s.tables

/-- A page mapped so that it can be read: not the page at `0`, and the entry's flags have `R`. -/
def Readable (c : MapCall) : Prop := 4096 ≤ c.pa ∧ c.flags < 2 ^ 10 ∧ c.flags.testBit 1 = true

/-- The newest call for the page of `va`, if there is one, maps it to an address of 56 bits. -/
def Physical (log : List MapCall) (va : ℕ) : Prop :=
  ∀ c, log.find? (fun c => samePage c.va va) = some c → c.pa < 2 ^ 56

section Tree

variable {m : Mem} {root : ℕ} {tables : List ℕ} {log : List MapCall} {T : List ℕ → Option ℕ}

lemma pageFloor_entry {t k : ℕ} (hal : t % 4096 = 0) (hk : k < 512) : pageFloor (t + 8 * k) = t := by
  simp only [pageFloor, pageSize_eq]
  omega

lemma isIndex_of_length {va level : ℕ} (hva : IsIndex (px 2 va) []) :
    ∀ {π : List ℕ}, π.length + level = 2 → IsIndex (px level va) π
  | [], hlen => by
      obtain rfl : level = 2 := by simpa using hlen
      exact hva
  | _ :: _, _ => IsIndex.of_cons

/-- The reads from a table stay in the tables. -/
lemma PageTree.reads (ht : PageTree m root tables log T)
    (hpage : ∀ t ∈ tablePages root tables, t % 4096 = 0 ∧ t < 2 ^ 64) {va : ℕ} (hva : IsIndex (px 2 va) []) :
    ∀ {level pt : ℕ} {π : List ℕ}, T π = some pt → π.length + level = 2 →
      ∀ a ∈ va2paWalkReads m va level pt, pageFloor a ∈ tablePages root tables
  | 0, pt, π, hπ, _, a, ha => by
      have hmem := ht.mem_pages hπ
      rw [List.mem_singleton.mp ha, pageFloor_entry (hpage pt hmem).1 (px_lt 0 va)]
      exact hmem
  | level + 1, pt, π, hπ, hlen, a, ha => by
      have hmem := ht.mem_pages hπ
      have hentry := ht.entry hπ (by omega) (isIndex_of_length hva hlen)
      simp only [va2paWalkReads, hentry] at ha
      rcases List.mem_cons.mp ha with rfl | ha
      · rw [pageFloor_entry (hpage pt hmem).1 (px_lt _ va)]
        exact hmem
      · cases hT : T (px (level + 1) va :: π) with
        | none => simp [hT, tableEntry] at ha
        | some p =>
            obtain ⟨hal, hlt⟩ := hpage p (ht.mem_pages hT)
            rw [hT, if_neg ((tableEntry_valid _).mpr rfl), pte2pa_tableEntry hlt hal] at ha
            exact ht.reads hpage hva hT (by rw [List.length_cons]; omega) a ha

end Tree

/-! ## The two cases -/

section Cases

variable {s : PtSys} {l own : List ℕ} {T : List ℕ → Option ℕ} {va : ℕ}

lemma PtSys.Sound.sv39_last (h : s.Sound l own T) (hcan : Sv39.Canonical va) (hout : ¬ InGigapage va) :
    sv39 s.heap.mem (satpValue s.root) va = Sv39.lastLevel va (leafEntry (lookupPath s.log (pathOf va))) := by
  rw [sv39, Sv39.translate, if_pos hcan, (root_satpValue h.split.aligned h.split.lt).1,
    h.tree.walk_eq h.split.table_low (not_inGigapage.mp hout)]

/-- What the hardware makes of a readable page. -/
lemma lastLevel_readable {c : MapCall} (hc : Readable c) (hpa : c.pa < 2 ^ 56) :
    Sv39.lastLevel va (leafEntry (some c)) = some ⟨c.pa / 4096 * 4096 + va % 4096, true,
      (c.flags ||| pteV).testBit 2, (c.flags ||| pteV).testBit 3⟩ := by
  obtain ⟨-, hflags, hread⟩ := hc
  have hf : c.flags ||| pteV < 2 ^ 10 := Nat.or_lt_two_pow hflags (by decide)
  rw [leafEntry, Nat.or_assoc, pa2pte_or_eq_entry (by omega) hf,
    Sv39.lastLevel_leaf (by omega) hf (by simp [pteV]) (by simp [hread])]

/-- An entry whose address has more bits than Sv39 has is not valid. -/
lemma lastLevel_unphysical {c : MapCall} (hc : Readable c) (hpa : c.pa < 2 ^ 64) (hhigh : 2 ^ 56 ≤ c.pa) :
    Sv39.lastLevel va (leafEntry (some c)) = none := by
  obtain ⟨-, hflags, -⟩ := hc
  have hf : c.flags ||| pteV < 2 ^ 10 := Nat.or_lt_two_pow hflags (by decide)
  have hbits : Sv39.entry (c.pa / 4096) (c.flags ||| pteV) / 2 ^ 54 ≠ 0 := by
    rw [Sv39.entry]
    omega
  rw [leafEntry, Nat.or_assoc, pa2pte_or_eq_entry hpa hf, Sv39.lastLevel, if_pos (.inr (.inr hbits))]

/-- Outside the gigapages everything hangs on the width of the address. -/
lemma PtSys.Sound.agrees_iff (h : s.Sound l own T) (hlog : ∀ c ∈ s.log, Readable c) (hcan : Sv39.Canonical va)
    (hout : ¬ InGigapage va) : Va2paAgrees s va ↔ Physical s.log va := by
  have hsoft : va2pa s.heap.mem s.root va = translate s.log va :=
    h.tree.va2pa_eq h.split.table_bounds (fun c hc => (hlog c hc).2.1) (not_inGigapage.mp hout)
  have hhard := h.sv39_last hcan hout
  have hreads : ∀ a ∈ va2paReads s.heap.mem s.root va, pageFloor a ∈ tablePages s.root s.tables :=
    h.tree.reads h.split.table_bounds (not_inGigapage.mp hout) h.tree.root_eq rfl
  rw [lookupPath_pathOf] at hhard
  rw [translate] at hsoft
  cases hfind : s.log.find? fun c => samePage c.va va with
  | none =>
      rw [hfind] at hsoft hhard
      have hnone : sv39 s.heap.mem (satpValue s.root) va = none := hhard.trans Sv39.lastLevel_zero
      refine ⟨fun _ c hc => absurd (hfind.symm.trans hc) (by simp), fun _ => ⟨?_, ?_, hreads⟩⟩
      · intro μ hμ
        exact absurd (hnone.symm.trans hμ) (by simp)
      · exact ⟨fun _ => hnone, fun _ => hsoft⟩
  | some c =>
      rw [hfind] at hsoft hhard
      have hmem := List.mem_of_find?_eq_some hfind
      obtain ⟨-, hpa⟩ := h.tree.logged c hmem
      have hc := hlog c hmem
      have hphys : Physical s.log va ↔ c.pa < 2 ^ 56 := by
        refine ⟨fun hp => hp c hfind, fun hlt c' hc' => ?_⟩
        obtain rfl := Option.some.inj (hfind.symm.trans hc')
        exact hlt
      have hsum : va2pa s.heap.mem s.root va = c.pa / 4096 * 4096 + va % 4096 := by
        rw [hsoft]
        show c.pa / 4096 * 4096 ||| (va &&& (2 ^ 12 - 1)) = _
        rw [Nat.and_two_pow_sub_one_eq_mod, show c.pa / 4096 * 4096 = 2 ^ 12 * (c.pa / 4096) by omega,
          ← Nat.two_pow_add_eq_or_of_lt (by omega)]
      have hpos : va2pa s.heap.mem s.root va ≠ 0 := by
        have hlo := hc.1
        omega
      rw [hphys]
      constructor
      · intro hag
        by_contra hhigh
        rw [lastLevel_unphysical hc hpa (by omega)] at hhard
        exact hpos (hag.zero.mpr hhard)
      · intro hlt
        rw [lastLevel_readable hc hlt] at hhard
        refine ⟨fun μ hμ => ?_, ?_, hreads⟩
        · rw [hhard, Option.some.injEq] at hμ
          rw [hsum, ← hμ]
        · rw [hhard]
          simp [hpos]

lemma PtSys.Sound.sv39_giga (h : s.Sound l own T) (hcan : Sv39.Canonical va) (hin : InGigapage va) :
    sv39 s.heap.mem (satpValue s.root) va = some ⟨0x80000000 + va % 2 ^ 30, true, true, true⟩ := by
  rw [sv39, Sv39.translate, if_pos hcan, (root_satpValue h.split.aligned h.split.lt).1, h.giga.walk_eq hin]

/-- In a gigapage the walk goes on at the page where the image begins. -/
lemma PtSys.Sound.reads_image (h : s.Sound l own T) (hin : InGigapage va) :
    baseAddr + 8 * px 1 va ∈ va2paReads s.heap.mem s.root va ∧
      pageFloor (baseAddr + 8 * px 1 va) ∉ tablePages s.root s.tables := by
  refine ⟨?_, ?_⟩
  · simp only [va2paReads, va2paWalkReads, h.giga_entry hin, if_neg gigapagePte_next.1, gigapagePte_next.2]
    exact List.mem_cons_of_mem _ List.mem_cons_self
  · rw [pageFloor_entry (by decide) (px_lt 1 va)]
    intro hmem
    rcases List.mem_cons.mp hmem with hroot | htable
    · have hlt := h.image.1
      omega
    · have hlt := h.image.2 _ (h.split.split.perm.mem_iff.mp (List.mem_append_right _ (List.mem_append_right _ htable)))
      omega

/-- An entry of zeros there ends it. -/
lemma PtSys.Sound.va2pa_image (h : s.Sound l own T) (hin : InGigapage va)
    (hzero : ∀ x, pageFloor x = baseAddr → s.heap.mem x = 0) : va2pa s.heap.mem s.root va = 0 := by
  have hread : readPte s.heap.mem baseAddr (px 1 va) = 0 := by
    refine loadLE_eq_zero 8 _ fun j hj => hzero _ ?_
    have hlt := px_lt 1 va
    simp only [pageFloor, pageSize_eq, baseAddr_eq]
    omega
  simp only [va2pa, va2paWalk, h.giga_entry hin, if_neg gigapagePte_next.1, gigapagePte_next.2, hread, Nat.zero_and,
    if_true]

end Cases

/-- **When `va2pa` agrees with the hardware.**  For either root, after any calls of `map_page` outside the
gigapages that map readable pages, among other clients of the allocator: a canonical address is translated
alike if and only if it is in neither gigapage and its page, if it has been mapped, was mapped to an address
of 56 bits. -/
theorem va2pa_agrees (s₀ s : PtSys) (ops : List PtOp) (hstart : TableStart s₀)
    (hrun : Run (TableStep Readable) s₀ ops s) (va : ℕ) (hcan : Sv39.Canonical va) :
    Va2paAgrees s va ↔ ¬ InGigapage va ∧ Physical (mapCalls ops).reverse va := by
  obtain ⟨l, own, T, h⟩ := sound_of_run hstart hrun
  have hlog : s.log = (mapCalls ops).reverse := by
    rw [log_of_run hrun, hstart.log_eq, List.append_nil]
  rw [← hlog]
  by_cases hin : InGigapage va
  · obtain ⟨hread, himage⟩ := h.reads_image hin
    exact ⟨fun hag => absurd (hag.reads _ hread) himage, fun hcond => absurd hin hcond.1⟩
  · rw [h.agrees_iff (log_all_of_run hstart hrun) hcan hin]
    exact ⟨fun hp => ⟨hin, hp⟩, fun hcond => hcond.2⟩

lemma readable_mmioLog : ∀ c ∈ mmioLog, Readable c := by
  show ∀ c ∈ mmioLog, 4096 ≤ c.pa ∧ c.flags < 2 ^ 10 ∧ c.flags.testBit 1 = true
  decide

/-- After `relocate_kernel` a register of the UART is translated alike. -/
theorem va2pa_agrees_uart : ∃ s₀ s ops, TableStart s₀ ∧ Run (TableStep Readable) s₀ ops s ∧ Va2paAgrees s 0x10000005 := by
  obtain ⟨b, tables, s₀, -, hstart, hrun⟩ := relocateKernel_reachable readable_mmioLog fivePageLayout (fun _ => 0) false
    (by rw [fivePageLayout_count]; decide) 0
  have hphys : ∀ c ∈ (mapCalls mmioOps).reverse, c.pa < 2 ^ 56 := by decide
  exact ⟨s₀, _, mmioOps, hstart, hrun, (va2pa_agrees s₀ _ mmioOps hstart hrun 0x10000005 (by decide)).mpr
    ⟨by decide, fun c hc => hphys c (List.mem_of_find?_eq_some hc)⟩⟩

/-- **The kernel's own address.**  With zeros in the first page of the image `va2pa` finds no mapping for
the first address of the kernel, which the boot table maps to itself. -/
theorem va2pa_gigapage : ∃ s₀, TableStart s₀ ∧ sv39 s₀.heap.mem (satpValue s₀.root) 0x80000000 =
    some ⟨0x80000000, true, true, true⟩ ∧ va2pa s₀.heap.mem s₀.root 0x80000000 = 0 ∧ ¬ Va2paAgrees s₀ 0x80000000 := by
  have hin : InGigapage 0x80000000 := by decide
  have himage : ∀ x, pageFloor x = baseAddr → setupBootPageTable (fivePageLayout.startHeap (fun _ => 0) false).mem
      fivePageLayout.bootPageTable x = 0 :=
    fun x hx => fivePageLayout.startHeap_image (fun _ => 0) false (by decide) hx
  have hstart := TableStart.boot fivePageLayout (fun _ => 0) false
  generalize fivePageLayout.startHeap (fun _ => 0) false = h₀ at *
  obtain ⟨l, own, T, h⟩ := hstart.sound
  obtain ⟨hread, hpage⟩ := h.reads_image hin
  exact ⟨_, hstart, h.sv39_giga (by decide) hin, h.va2pa_image hin himage, fun hag => hpage (hag.reads _ hread)⟩

end NetStack
