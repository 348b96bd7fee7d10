import NetStack.Lib.Chain
import NetStack.Memory.Allocator
import Mathlib.Data.List.Perm.Basic
import Mathlib.Data.Nat.Bitwise

/-!
# What the allocator computes on a well-formed free list

The list-level reading of the allocator: `Heap.Free h l` says that the chain in memory is the list
`l` of pages and that `free_page_count` is its length.  `takeRun` is `mem_alloc` on such a list —
the first entry that starts a run of `count` free pages inside the heap, and the list without that
run — and `memAlloc_spec` says the pointer code computes exactly that, returns, and writes nothing
but link words of pages that stay free.

`memFree_spec` is the same for `mem_free`.  Nothing downstream unfolds the pointer walks.
-/

namespace NetStack

open ByteMem LinkedChain

lemma virtToPhys_of_lt {addr : ℕ} (h : addr < kernelBaseVa) : virtToPhys addr = addr :=
  if_neg (Nat.not_le.mpr h)

/-! ## Heap geometry -/

/-- The address arithmetic facts `page_allocator_init` establishes once and for all. -/
structure Heap.Bounded (h : Heap) : Prop where
  startPos : 0 < h.heapStart
  startAligned : h.heapStart % 4096 = 0
  endAligned : h.heapEnd % 4096 = 0
  endLe : h.heapEnd ≤ h.heapStart + 16777216
  startLt : h.heapStart < 2 ^ 40

/-- All pages of `[heap_start, heap_end)`, ascending. -/
def Heap.pages (h : Heap) : List ℕ :=
  (List.range ((h.heapEnd - h.heapStart) / pageSize)).map fun i => h.heapStart + pageSize * i

/-- A page of the heap: aligned and inside `[heap_start, heap_end)`. -/
def Heap.IsPage (h : Heap) (p : ℕ) : Prop :=
  p % 4096 = 0 ∧ h.heapStart ≤ p ∧ p < h.heapEnd

lemma Heap.mem_pages {h : Heap} (hb : h.Bounded) {p : ℕ} : p ∈ h.pages ↔ h.IsPage p := by
  have h₁ := hb.startAligned
  have h₂ := hb.endAligned
  simp only [Heap.pages, List.mem_map, List.mem_range, pageSize_eq, Heap.IsPage]
  constructor
  · rintro ⟨i, hi, rfl⟩
    omega
  · rintro ⟨ha, hlo, hhi⟩
    exact ⟨(p - h.heapStart) / 4096, by omega, by omega⟩

lemma Heap.pages_nodup (h : Heap) : h.pages.Nodup := by
  refine List.Nodup.map (fun i j hij => ?_) List.nodup_range
  simpa using hij

/-! ## The free list as a list of pages -/

/-- The chain in memory is `l`, its nodes are heap pages, and `free_page_count` is its length. -/
structure Heap.Free (h : Heap) (l : List ℕ) : Prop where
  chain : IsChain (nextPage h.mem) 0 h.freeList l
  count : h.freePageCount = l.length
  isPage : ∀ p ∈ l, h.IsPage p

lemma Heap.Free.nodup {h : Heap} {l : List ℕ} (hl : h.Free l) : l.Nodup := hl.chain.nodup

/-- There are at most `MAX_HEAP_SIZE / PAGE_SIZE` free pages. -/
lemma Heap.Free.length_le {h : Heap} (hb : h.Bounded) {l : List ℕ} (hl : h.Free l) :
    l.length ≤ 4096 := by
  have hsub : l ⊆ h.pages := fun p hp => (Heap.mem_pages hb).mpr (hl.isPage p hp)
  have hlen := (hl.nodup.subperm hsub).length_le
  have h₁ := hb.endLe
  have hpages : h.pages.length = (h.heapEnd - h.heapStart) / 4096 := by simp [Heap.pages]
  omega

/-- `p` is one of the `count` pages from `start` on. -/
def inRun (start count p : ℕ) : Bool := decide (start ≤ p ∧ p < start + count * 4096)

/-- `start` begins a run of `count` free pages that ends inside the heap. -/
def startsRun (heapEnd count : ℕ) (l : List ℕ) (start : ℕ) : Bool :=
  decide (start + count * 4096 ≤ heapEnd) && (l.countP (inRun start count) == count)

/-- `mem_alloc` at the level of lists: the first entry that starts a free run, and the list
without that run. -/
def takeRun (heapEnd count : ℕ) (l : List ℕ) : Option (ℕ × List ℕ) :=
  (l.find? (startsRun heapEnd count l)).map fun start =>
    (start, l.filter fun p => !inRun start count p)

/-- The addresses of a block of `count` pages. -/
def blockPages (start count : ℕ) : List ℕ := (List.range count).map fun i => start + 4096 * i

lemma mem_blockPages {start count p : ℕ} (hs : start % 4096 = 0) :
    p ∈ blockPages start count ↔ p % 4096 = 0 ∧ inRun start count p = true := by
  simp only [blockPages, List.mem_map, List.mem_range, inRun, decide_eq_true_eq]
  constructor
  · rintro ⟨i, hi, rfl⟩
    omega
  · rintro ⟨ha, hlo, hhi⟩
    exact ⟨(p - start) / 4096, by omega, by omega⟩

lemma blockPages_nodup (start count : ℕ) : (blockPages start count).Nodup := by
  refine List.Nodup.map (fun i j hij => ?_) List.nodup_range
  simpa using hij

/-- **Counting finds a run.**  `count` distinct aligned entries inside a window of `count` pages
are all of its pages. -/
lemma filter_inRun_perm {start count : ℕ} {l : List ℕ} (hs : start % 4096 = 0) (hnd : l.Nodup)
    (hal : ∀ p ∈ l, p % 4096 = 0) (hc : l.countP (inRun start count) = count) :
    (l.filter (inRun start count)).Perm (blockPages start count) := by
  have hsub : l.filter (inRun start count) ⊆ blockPages start count := by
    intro p hp
    rw [List.mem_filter] at hp
    exact (mem_blockPages hs).mpr ⟨hal p hp.1, hp.2⟩
  refine ((hnd.filter _).subperm hsub).perm_of_length_le ?_
  rw [← List.countP_eq_length_filter, hc]
  simp [blockPages]

/-! ## The walks -/

lemma foundInRange_eq {m : Mem} (start stop : ℕ) :
    ∀ {l : List ℕ} {fuel page found : ℕ}, IsChain (nextPage m) 0 page l → l.length < fuel →
      found + l.length < 2 ^ 32 →
      foundInRange m start stop fuel page found
        = some (found + l.countP fun p => decide (start ≤ p ∧ p < stop))
  | _, 0, _, _, _, hf, _ => absurd hf (Nat.not_lt_zero _)
  | [], _ + 1, _, _, hc, _, _ => by
      rw [isChain_nil] at hc
      simp [foundInRange, hc]
  | a :: l, fuel + 1, page, found, ⟨hp, ha, hl⟩, hf, hb => by
      obtain rfl : page = a := hp
      simp only [List.length_cons] at hf hb
      rw [foundInRange, if_neg ha, List.countP_cons]
      by_cases hr : page ≥ start ∧ page < stop
      · rw [if_pos hr, Nat.mod_eq_of_lt (by omega), foundInRange_eq start stop hl (by omega) (by omega)]
        simp only [hr, and_self, decide_true, if_true]
        congr 1
        omega
      · rw [if_neg hr, foundInRange_eq start stop hl (by omega) (by omega)]
        simp [hr]

/-- `link` is not the link word of a page of `l`. -/
def Link.Off (link : Link) (l : List ℕ) : Prop := ∀ p, link = .next p → p ∉ l ∧ p % 4096 = 0

lemma Link.Off.of_cons {link : Link} {a : ℕ} {l : List ℕ} (h : link.Off (a :: l)) :
    link.Off l := fun p hp => ⟨fun hm => (h p hp).1 (List.mem_cons_of_mem _ hm), (h p hp).2⟩

/-- What the unlinking loop may have changed: the word at `link` and the link words of `kept`. -/
structure Unlinked (h h' : Heap) (link : Link) (kept : List ℕ) : Prop where
  heapStart : h'.heapStart = h.heapStart
  heapEnd : h'.heapEnd = h.heapEnd
  freePageCount : h'.freePageCount = h.freePageCount
  sie : h'.sie = h.sie
  freeList : link ≠ .freeList → h'.freeList = h.freeList
  mem : ∀ x, (∀ p ∈ kept, x < p ∨ p + 8 ≤ x) → (∀ p, link = .next p → x < p ∨ p + 8 ≤ x) →
    h'.mem x = h.mem x

lemma nextPage_congr {m m' : Mem} {p : ℕ} (h : ∀ i < 8, m (p + i) = m' (p + i)) :
    nextPage m p = nextPage m' p := loadLE_congr 8 p h

lemma nextPage_lt (m : Mem) (p : ℕ) : nextPage m p < 2 ^ 64 := by
  exact (loadLE_lt m 8 p).trans_eq (by norm_num)

lemma nextPage_storeLE (m : Mem) {p v : ℕ} (hv : v < 2 ^ 64) :
    nextPage (storeLE m 8 p v) p = v := by
  rw [nextPage, loadLE_storeLE]
  exact Nat.mod_eq_of_lt (hv.trans_eq (by norm_num))

/-- The link words of distinct pages do not overlap. -/
lemma link_words_disjoint {p q i : ℕ} (hp : p % 4096 = 0) (hq : q % 4096 = 0) (hne : p ≠ q)
    (hi : i < 8) : p + i < q ∨ q + 8 ≤ p + i := by
  omega

@[simp] lemma Heap.readLink_writeLink {h : Heap} {link : Link} {v : ℕ} (hv : v < 2 ^ 64) :
    (h.writeLink link v).readLink link = v := by
  cases link with
  | freeList => rfl
  | next p => exact nextPage_storeLE h.mem hv

lemma Heap.writeLink_mem {h : Heap} {link : Link} {v x : ℕ}
    (hx : ∀ p, link = .next p → x < p ∨ p + 8 ≤ x) : (h.writeLink link v).mem x = h.mem x := by
  cases link with
  | freeList => rfl
  | next p => exact storeLE_outside 8 h.mem p v x (hx p rfl)

/-- Writing through a link leaves every other page's link word alone. -/
lemma Heap.nextPage_writeLink {h : Heap} {link : Link} {v : ℕ} {l : List ℕ} (hoff : link.Off l)
    (hal : ∀ p ∈ l, p % 4096 = 0) :
    ∀ p ∈ l, nextPage h.mem p = nextPage (h.writeLink link v).mem p := by
  intro p hp
  refine nextPage_congr fun i hi => (Heap.writeLink_mem fun q hq => ?_).symm
  obtain ⟨hmem, hqal⟩ := hoff q hq
  exact link_words_disjoint (hal p hp) hqal (fun h => hmem (h ▸ hp)) hi

lemma Unlinked.refl (h : Heap) (link : Link) (kept : List ℕ) : Unlinked h h link kept :=
  ⟨rfl, rfl, rfl, rfl, fun _ => rfl, fun _ _ _ => rfl⟩

/-- A write through `link` followed by an unlinking from the same `link`. -/
lemma Unlinked.of_writeLink {h h' : Heap} {link : Link} {kept : List ℕ} {v : ℕ}
    (hu : Unlinked (h.writeLink link v) h' link kept) : Unlinked h h' link kept := by
  refine ⟨?_, ?_, ?_, ?_, ?_, fun x hk hx => (hu.mem x hk hx).trans (Heap.writeLink_mem hx)⟩
  · rw [hu.heapStart]; cases link <;> rfl
  · rw [hu.heapEnd]; cases link <;> rfl
  · rw [hu.freePageCount]; cases link <;> rfl
  · rw [hu.sie]; cases link <;> rfl
  · intro hne
    rw [hu.freeList hne]
    cases link with
    | freeList => exact absurd rfl hne
    | next p => rfl

/-- **The unlinking loop.**  It ends, what is left from `link` on is the old chain without the
entries in `[start, stop)`, and only link words of kept pages (and `link` itself) are written. -/
lemma unlinkRange_spec (start stop : ℕ) :
    ∀ {r : List ℕ} {fuel : ℕ} {h : Heap} {link : Link},
      IsChain (nextPage h.mem) 0 (h.readLink link) r → r.length < fuel →
      (∀ p ∈ r, p % 4096 = 0) → link.Off r →
      ∃ h', unlinkRange start stop fuel h link = some h' ∧
        IsChain (nextPage h'.mem) 0 (h'.readLink link)
          (r.filter fun p => !decide (start ≤ p ∧ p < stop)) ∧
        Unlinked h h' link (r.filter fun p => !decide (start ≤ p ∧ p < stop))
  | _, 0, _, _, _, hf, _, _ => absurd hf (Nat.not_lt_zero _)
  | [], _ + 1, h, link, hc, _, _, _ => by
      rw [isChain_nil] at hc
      exact ⟨h, by simp [unlinkRange, hc], by simpa using hc, Unlinked.refl _ _ _⟩
  | a :: r, fuel + 1, h, link, ⟨hp, ha, hl⟩, hf, hal, hoff => by
      have hf' : r.length < fuel := by simpa using hf
      have hal' : ∀ p ∈ r, p % 4096 = 0 := fun p hp => hal p (List.mem_cons_of_mem _ hp)
      have haa : a % 4096 = 0 := hal a List.mem_cons_self
      have har : a ∉ r := (List.nodup_cons.mp (IsChain.nodup (l := a :: r) ⟨hp, ha, hl⟩)).1
      simp only [unlinkRange, hp, if_neg ha]
      by_cases hr : a ≥ start ∧ a < stop
      · -- bypassed: `link` now holds the entry's own successor
        have hch : IsChain (nextPage (h.writeLink link (nextPage h.mem a)).mem) 0
            ((h.writeLink link (nextPage h.mem a)).readLink link) r := by
          rw [Heap.readLink_writeLink (nextPage_lt _ _)]
          exact hl.congr (Heap.nextPage_writeLink hoff.of_cons hal')
        obtain ⟨h', hrun, hchain, hu⟩ := unlinkRange_spec start stop hch hf' hal' hoff.of_cons
        have hfil : (a :: r).filter (fun p => !decide (start ≤ p ∧ p < stop))
            = r.filter (fun p => !decide (start ≤ p ∧ p < stop)) :=
          List.filter_cons_of_neg (by simp [hr.1, hr.2])
        rw [if_pos hr, hfil]
        exact ⟨h', hrun, hchain, hu.of_writeLink⟩
      · -- kept: the walk goes on from its own link word, and `link` is not touched again
        have hoff' : (Link.next a).Off r := by
          intro q hq
          obtain rfl : a = q := by simpa using hq
          exact ⟨har, haa⟩
        have hch : IsChain (nextPage h.mem) 0 (h.readLink (.next a)) r := hl
        obtain ⟨h', hrun, hchain, hu⟩ := unlinkRange_spec start stop hch hf' hal' hoff'
        have hfil : (a :: r).filter (fun p => !decide (start ≤ p ∧ p < stop))
            = a :: r.filter (fun p => !decide (start ≤ p ∧ p < stop)) :=
          List.filter_cons_of_pos (by
            simpa only [Bool.not_eq_true', decide_eq_false_iff_not] using hr)
        have hkeep : ∀ q, link = .next q → ∀ i < 8, h'.mem (q + i) = h.mem (q + i) := by
          intro q hq i hi
          obtain ⟨hqm, hqal⟩ := hoff q hq
          rw [List.mem_cons, not_or] at hqm
          refine hu.mem (q + i) (fun p hp => ?_) (fun p hp => ?_)
          · have hpr := (List.mem_filter.mp hp).1
            exact link_words_disjoint hqal (hal' p hpr) (fun h => hqm.2 (h ▸ hpr)) hi
          · obtain rfl : a = p := by simpa using hp
            exact link_words_disjoint hqal haa hqm.1 hi
        have hlink : h'.readLink link = a := by
          cases link with
          | freeList => exact (hu.freeList (by simp)).trans hp
          | next q => exact (nextPage_congr (hkeep q rfl)).trans hp
        rw [if_neg hr, hfil]
        refine ⟨h', hrun, ⟨hlink, ha, hchain⟩, hu.heapStart, hu.heapEnd, hu.freePageCount,
          hu.sie, fun _ => hu.freeList (by simp), fun x hk hx => hu.mem x ?_ ?_⟩
        · exact fun p hp => hk p (List.mem_cons_of_mem _ hp)
        · intro p hp
          obtain rfl : a = p := by simpa using hp
          exact hk a List.mem_cons_self

/-! ## `mem_alloc` -/

lemma pageCount_eq {size : ℕ} (h : size < 2 ^ 32) : pageCount size = (size + 4095) / 4096 := by
  simp only [pageCount, pageSize_eq, pgShift_eq, Nat.shiftRight_eq_div_pow]
  omega

/-- The effect of a successful allocation that leaves the pages `l'` free. -/
structure Heap.Allocated (h h' : Heap) (l' : List ℕ) : Prop where
  free : h'.Free l'
  heapStart : h'.heapStart = h.heapStart
  heapEnd : h'.heapEnd = h.heapEnd
  sie : h'.sie = h.sie
  mem : ∀ x, (∀ p ∈ l', x < p ∨ p + 8 ≤ x) → h'.mem x = h.mem x

@[simp] lemma allocatorIntrRestore_mem (h : Heap) (b : Bool) :
    (allocatorIntrRestore h b).mem = h.mem := by cases b <;> rfl
@[simp] lemma allocatorIntrRestore_freeList (h : Heap) (b : Bool) :
    (allocatorIntrRestore h b).freeList = h.freeList := by cases b <;> rfl
@[simp] lemma allocatorIntrRestore_heapStart (h : Heap) (b : Bool) :
    (allocatorIntrRestore h b).heapStart = h.heapStart := by cases b <;> rfl
@[simp] lemma allocatorIntrRestore_heapEnd (h : Heap) (b : Bool) :
    (allocatorIntrRestore h b).heapEnd = h.heapEnd := by cases b <;> rfl
@[simp] lemma allocatorIntrRestore_freePageCount (h : Heap) (b : Bool) :
    (allocatorIntrRestore h b).freePageCount = h.freePageCount := by cases b <;> rfl
@[simp] lemma allocatorIntrRestore_sie (h : Heap) (b : Bool) :
    (allocatorIntrRestore h b).sie = (b || h.sie) := by cases b <;> rfl

@[simp] lemma allocatorIntrRestore_off (h : Heap) :
    allocatorIntrRestore { h with sie := false } h.sie = h := by
  rcases h with ⟨_, _, _, _, _, sie⟩
  cases sie <;> rfl

lemma length_filter_not_inRun {start count : ℕ} {l : List ℕ}
    (hc : l.countP (inRun start count) = count) :
    (l.filter fun p => !inRun start count p).length = l.length - count := by
  have hsum := List.length_eq_countP_add_countP (inRun start count) (l := l)
  have hneg : (l.filter fun p => !inRun start count p).length
      = l.countP fun p => ¬ inRun start count p = true := by
    rw [List.countP_eq_length_filter]
    congr 2
    funext p
    simp
  omega

lemma sub32_eq {a b : ℕ} (hb : b ≤ a) (ha : a < 2 ^ 32) : sub32 a b = a - b := by
  unfold sub32
  omega

/-- Unlinking a run that the count found, with the bookkeeping around it. -/
lemma unlink_allocated {h : Heap} (hb : h.Bounded) {l : List ℕ} (hl : h.Free l)
    {limit count start : ℕ} (hlim : l.length < limit)
    (hc : l.countP (inRun start count) = count) :
    ∃ h', unlinkRange start (start + count * 4096) limit { h with sie := false } .freeList
        = some h' ∧
      h.Allocated
        (allocatorIntrRestore { h' with freePageCount := sub32 h'.freePageCount count } h.sie)
        (l.filter fun p => !inRun start count p) := by
  have hch : IsChain (nextPage { h with sie := false }.mem) 0
      (Heap.readLink { h with sie := false } .freeList) l := hl.chain
  obtain ⟨h', hrun, hchain, hu⟩ :=
    unlinkRange_spec start (start + count * 4096) hch hlim
      (fun p hp => (hl.isPage p hp).1) (fun _ hq => by simp at hq)
  have hcount : count ≤ l.length := hc ▸ List.countP_le_length
  have hlen := hl.length_le hb
  refine ⟨h', hrun, ⟨?_, ?_, ?_⟩, ?_, ?_, ?_, ?_⟩
  · rw [allocatorIntrRestore_mem, allocatorIntrRestore_freeList]
    exact hchain
  · rw [allocatorIntrRestore_freePageCount, length_filter_not_inRun hc]
    simp only [hu.freePageCount, hl.count]
    exact sub32_eq hcount (by omega)
  · intro p hp
    have := hl.isPage p (List.mem_filter.mp hp).1
    simpa [Heap.IsPage, hu.heapStart, hu.heapEnd] using this
  · simp [hu.heapStart]
  · simp [hu.heapEnd]
  · simp [hu.sie]
  · intro x hx
    rw [allocatorIntrRestore_mem]
    exact hu.mem x hx (fun p hp => by simp at hp)

/-- **The search.**  From any position of the list on, the outer loop returns what `takeRun` finds
there: it ends, and it changes nothing when no entry starts a run. -/
lemma searchRange_spec {h : Heap} (hb : h.Bounded) {l : List ℕ} (hl : h.Free l)
    {limit count : ℕ} (hlim : l.length < limit) (hcount : count ≤ l.length) :
    ∀ {r : List ℕ} {fuel first : ℕ}, IsChain (nextPage h.mem) 0 first r → r.length < fuel →
      (∀ p ∈ r, h.IsPage p) →
      match r.find? (startsRun h.heapEnd count l) with
      | none => searchRange limit count (count * 4096) h.sie fuel { h with sie := false } first
          = some (h, 0)
      | some start => ∃ h',
          searchRange limit count (count * 4096) h.sie fuel { h with sie := false } first
            = some (h', start) ∧
          h.Allocated h' (l.filter fun p => !inRun start count p)
  | _, 0, _, _, hf, _ => absurd hf (Nat.not_lt_zero _)
  | [], _ + 1, _, hc, _, _ => by
      rw [isChain_nil] at hc
      simp [searchRange, hc]
  | a :: r, fuel + 1, first, ⟨hp, ha, hr⟩, hf, hpg => by
      obtain rfl : first = a := hp
      have hlen := hl.length_le hb
      have hb₁ := hb.endLe
      have hb₂ := hb.startLt
      have hpa := (hpg first List.mem_cons_self).2
      have hstop : (first + count * 4096) % 2 ^ 64 = first + count * 4096 :=
        Nat.mod_eq_of_lt (by omega)
      have ih := searchRange_spec hb hl hlim hcount hr (by simpa using hf)
        (fun p hp => hpg p (List.mem_cons_of_mem _ hp))
      have hfound : foundInRange h.mem first (first + count * 4096) limit h.freeList 0
          = some (l.countP (inRun first count)) := by
        rw [foundInRange_eq first (first + count * 4096) hl.chain hlim (by omega), Nat.zero_add]
        rfl
      rw [searchRange, if_neg ha]
      simp only [hstop]
      by_cases hend : first + count * 4096 > h.heapEnd
      · rw [List.find?_cons_of_neg (by simp [startsRun, hend]), if_pos hend]
        exact ih
      · rw [if_neg hend, hfound]
        simp only [Option.bind_eq_bind, Option.bind_some]
        by_cases hc : l.countP (inRun first count) = count
        · rw [List.find?_cons_of_pos (by simp [startsRun, hc]; omega), if_neg (not_not.mpr hc)]
          obtain ⟨h', hrun, halloc⟩ := unlink_allocated hb hl hlim hc
          rw [hrun]
          exact ⟨_, rfl, halloc⟩
        · rw [List.find?_cons_of_neg (by simp [startsRun, hc]), if_pos hc]
          exact ih

/-- The page of the head holds no other entry. -/
lemma Heap.Free.inRun_tail {h : Heap} {a : ℕ} {l : List ℕ} (hl : h.Free (a :: l)) :
    ∀ p ∈ l, inRun a 1 p = false := by
  intro p hp
  have hpa := hl.isPage a List.mem_cons_self
  have hpp := hl.isPage p (List.mem_cons_of_mem _ hp)
  have hne : p ≠ a := fun h => (List.nodup_cons.mp hl.nodup).1 (h ▸ hp)
  simp only [inRun, decide_eq_false_iff_not]
  simp only [Heap.IsPage] at hpa hpp
  omega

/-- Hence it counts as one. -/
lemma Heap.Free.countP_inRun {h : Heap} {a : ℕ} {l : List ℕ} (hl : h.Free (a :: l)) :
    (a :: l).countP (inRun a 1) = 1 := by
  have hself : inRun a 1 a = true := by simp [inRun]
  rw [List.countP_cons_of_pos hself, List.countP_eq_zero.mpr fun p hp => by simp [hl.inRun_tail p hp]]

lemma Heap.Free.head_le {h : Heap} (hb : h.Bounded) {a : ℕ} {l : List ℕ} (hl : h.Free (a :: l)) :
    a + 4096 ≤ h.heapEnd := by
  have hend := hb.endAligned
  obtain ⟨hal, -, hlt⟩ := hl.isPage a List.mem_cons_self
  omega

/-- Popping the head, the one-page fast path, is `takeRun` for a run of one page. -/
lemma takeRun_one {h : Heap} (hb : h.Bounded) {a : ℕ} {l : List ℕ} (hl : h.Free (a :: l)) :
    takeRun h.heapEnd 1 (a :: l) = some (a, l) := by
  have hself : inRun a 1 a = true := by simp [inRun]
  have hstart : startsRun h.heapEnd 1 (a :: l) a = true := by
    simp only [startsRun, hl.countP_inRun, beq_self_eq_true, Bool.and_true, decide_eq_true_eq]
    have := hl.head_le hb
    omega
  have hfil : (a :: l).filter (fun p => !inRun a 1 p) = l := by
    rw [List.filter_cons_of_neg (by simp [hself]), List.filter_eq_self]
    exact fun p hp => by simp [hl.inRun_tail p hp]
  rw [takeRun, List.find?_cons_of_pos hstart, Option.map_some, hfil]

/-- A request for more pages than are free finds no run. -/
lemma takeRun_eq_none_of_length_lt {heapEnd count : ℕ} {l : List ℕ} (h : l.length < count) :
    takeRun heapEnd count l = none := by
  rw [takeRun, Option.map_eq_none_iff, List.find?_eq_none]
  intro p _ hp
  simp only [startsRun, Bool.and_eq_true, beq_iff_eq] at hp
  have := List.countP_le_length (p := inRun p count) (l := l)
  omega

/-! The four paths of `mem_alloc`, as equations. -/

lemma memAlloc_zero (limit : ℕ) (h : Heap) : memAlloc limit h 0 = some (h, 0) := by
  simp [memAlloc]

lemma memAlloc_tooMany {limit size : ℕ} {h : Heap} (hpos : 0 < size)
    (hmore : h.freePageCount < pageCount size) : memAlloc limit h size = some (h, 0) := by
  simp [memAlloc, hpos.ne', allocatorIntrOff, hmore]

lemma memAlloc_one {size : ℕ} {h : Heap} (hpos : 0 < size) (hone : pageCount size = 1)
    (hfree : 0 < h.freePageCount) (limit : ℕ) :
    memAlloc limit h size
      = some ({ h with
          freeList := nextPage h.mem h.freeList
          freePageCount := sub32 h.freePageCount 1 }, h.freeList) := by
  have hle : ¬ h.freePageCount < 1 := by omega
  simp only [memAlloc, hpos.ne', allocatorIntrOff, hone, gt_iff_lt, hle, if_false, if_true]
  rw [← allocatorIntrRestore_off { h with
    freeList := nextPage h.mem h.freeList, freePageCount := sub32 h.freePageCount 1 }]

lemma memAlloc_many {limit size : ℕ} {h : Heap} (hpos : 0 < size)
    (hle : ¬ h.freePageCount < pageCount size) (hone : pageCount size ≠ 1) :
    memAlloc limit h size
      = searchRange limit (pageCount size) (pageCount size * 4096) h.sie limit
          { h with sie := false } h.freeList := by
  simp [memAlloc, hpos.ne', allocatorIntrOff, hle, hone]

/-! A walk that ends within a bound ends in the same way within any larger one. -/

lemma foundInRange_mono {m : Mem} {start stop : ℕ} :
    ∀ {n n' page found r : ℕ}, n ≤ n' → foundInRange m start stop n page found = some r →
      foundInRange m start stop n' page found = some r
  | 0, _, _, _, _, _, h => by simp [foundInRange] at h
  | n + 1, 0, _, _, _, hle, _ => by omega
  | n + 1, n' + 1, page, found, r, hle, h => by
      rw [foundInRange] at h ⊢
      by_cases hp : page = 0
      · rwa [if_pos hp] at h ⊢
      · rw [if_neg hp] at h ⊢
        exact foundInRange_mono (Nat.le_of_succ_le_succ hle) h

lemma unlinkRange_mono {start stop : ℕ} :
    ∀ {n n' : ℕ} {h h' : Heap} {link : Link}, n ≤ n' →
      unlinkRange start stop n h link = some h' → unlinkRange start stop n' h link = some h'
  | 0, _, _, _, _, _, h => by simp [unlinkRange] at h
  | n + 1, 0, _, _, _, hle, _ => by omega
  | n + 1, n' + 1, h, h', link, hle, hr => by
      have hle' := Nat.le_of_succ_le_succ hle
      simp only [unlinkRange] at hr ⊢
      split_ifs at hr ⊢
      · exact hr
      · exact unlinkRange_mono hle' hr
      · exact unlinkRange_mono hle' hr

lemma searchRange_mono {count bytes : ℕ} {status : Bool} {limit limit' : ℕ}
    (hlim : limit ≤ limit') :
    ∀ {n n' first : ℕ} {h : Heap} {res : Heap × ℕ}, n ≤ n' →
      searchRange limit count bytes status n h first = some res →
      searchRange limit' count bytes status n' h first = some res
  | 0, _, _, _, _, _, hr => by simp [searchRange] at hr
  | n + 1, 0, _, _, _, hle, _ => by omega
  | n + 1, n' + 1, first, h, res, hle, hr => by
      have hle' := Nat.le_of_succ_le_succ hle
      simp only [searchRange, Option.bind_eq_bind] at hr ⊢
      split_ifs at hr ⊢
      · exact hr
      · exact searchRange_mono hlim hle' hr
      · rw [Option.bind_eq_some_iff] at hr
        obtain ⟨found, hfound, hr⟩ := hr
        rw [foundInRange_mono hlim hfound, Option.bind_some]
        split_ifs at hr ⊢
        · exact searchRange_mono hlim hle' hr
        · rw [Option.bind_eq_some_iff] at hr
          obtain ⟨h', hun, hr⟩ := hr
          rw [unlinkRange_mono hlim hun, Option.bind_some]
          exact hr

lemma memAlloc_mono {limit limit' size : ℕ} {h : Heap} {res : Heap × ℕ} (hlim : limit ≤ limit')
    (hr : memAlloc limit h size = some res) : memAlloc limit' h size = some res := by
  simp only [memAlloc] at hr ⊢
  split_ifs at hr ⊢
  · exact hr
  · exact hr
  · exact hr
  · exact searchRange_mono hlim hlim hr

/-- The call `mem_alloc(size)` returns `res`: its walks end. -/
def MemAllocReturns (h : Heap) (size : ℕ) (res : Heap × ℕ) : Prop :=
  ∃ limit, memAlloc limit h size = some res

lemma MemAllocReturns.unique {h : Heap} {size : ℕ} {res res' : Heap × ℕ}
    (hr : MemAllocReturns h size res) (hr' : MemAllocReturns h size res') : res = res' := by
  obtain ⟨n, hn⟩ := hr
  obtain ⟨n', hn'⟩ := hr'
  have h₁ := memAlloc_mono (le_max_left n n') hn
  have h₂ := memAlloc_mono (le_max_right n n') hn'
  exact Option.some.inj (h₁.symm.trans h₂)

lemma MemAllocReturns.iff_eq {h : Heap} {size : ℕ} {r : Heap × ℕ} (hr : MemAllocReturns h size r) (res : Heap × ℕ) :
    MemAllocReturns h size res ↔ res = r :=
  ⟨fun hres => hres.unique hr, fun heq => heq ▸ hr⟩

/-- **`mem_alloc` computes `takeRun`.**  On a well-formed free list every call returns; it fails
without any effect, or it returns the run `takeRun` chooses and leaves the rest free. -/
theorem memAlloc_spec {h : Heap} (hb : h.Bounded) {l : List ℕ} (hl : h.Free l) {size : ℕ}
    (hpos : 0 < size) :
    match takeRun h.heapEnd (pageCount size) l with
    | none => MemAllocReturns h size (h, 0)
    | some (start, l') => ∃ h', MemAllocReturns h size (h', start) ∧ h.Allocated h' l' := by
  have hlen := hl.length_le hb
  have hlim : l.length < l.length + 1 := Nat.lt_succ_self _
  by_cases hmore : h.freePageCount < pageCount size
  · rw [takeRun_eq_none_of_length_lt (by rw [← hl.count]; exact hmore)]
    exact ⟨0, memAlloc_tooMany hpos hmore⟩
  by_cases hone : pageCount size = 1
  · cases l with
    | nil => exact absurd hl.count (by simp only [List.length_nil]; omega)
    | cons a l =>
        have hcount := hl.count
        simp only [List.length_cons] at hlen hcount
        have hfree : 0 < h.freePageCount := by omega
        have hhead : h.freeList = a := hl.chain.1
        have hrun := memAlloc_one (h := h) hpos hone hfree 0
        rw [hhead] at hrun
        rw [hone, takeRun_one hb hl]
        refine ⟨_, ⟨0, hrun⟩, ⟨hl.chain.2.2, ?_, ?_⟩, rfl, rfl, rfl, fun _ _ => rfl⟩
        · simp only [hcount]
          rw [sub32_eq (by omega) (by omega), Nat.add_sub_cancel]
        · exact fun p hp => hl.isPage p (List.mem_cons_of_mem _ hp)
  · have hmany : ∀ limit, memAlloc limit h size = _ :=
      fun limit => memAlloc_many hpos hmore hone
    have hle : pageCount size ≤ l.length := by rw [← hl.count]; omega
    have hspec := searchRange_spec hb hl hlim hle hl.chain hlim hl.isPage
    simp only [takeRun]
    cases hfind : l.find? (startsRun h.heapEnd (pageCount size) l) with
    | none =>
        rw [hfind] at hspec
        exact ⟨_, (hmany _).trans hspec⟩
    | some start =>
        rw [hfind] at hspec
        obtain ⟨h', hrun, halloc⟩ := hspec
        exact ⟨h', ⟨_, (hmany _).trans hrun⟩, halloc⟩

/-! ## `mem_free` -/

lemma freeRejects_iff {h : Heap} {page : ℕ} :
    freeRejects h page ↔ page = 0 ∨ virtToPhys page < h.heapStart ∨
      h.heapEnd ≤ virtToPhys page ∨ virtToPhys page % 4096 ≠ 0 := by
  have hand : virtToPhys page &&& (pageSize - 1) = virtToPhys page % 4096 := by
    rw [show pageSize - 1 = 2 ^ 12 - 1 from rfl, Nat.and_two_pow_sub_one_eq_mod]
  rw [freeRejects, hand]

/-- The heap after `node->next = free_list; free_list = node; free_page_count++`. -/
def Heap.push (h : Heap) (node : ℕ) : Heap :=
  { h with
    mem := storeLE h.mem 8 node h.freeList
    freeList := node
    freePageCount := (h.freePageCount + 1) % 2 ^ 32 }

lemma Heap.Free.head_lt {h : Heap} (hb : h.Bounded) {l : List ℕ} (hl : h.Free l) :
    h.freeList < 2 ^ 64 := by
  cases l with
  | nil => rw [hl.chain]; norm_num
  | cons a l =>
      have hlt := (hl.isPage a List.mem_cons_self).2.2
      have h₁ := hb.endLe
      have h₂ := hb.startLt
      rw [hl.chain.1]
      omega

/-- **Pushing a page** that is not free already puts it in front of the list; only its own link
word is written. -/
lemma Heap.push_allocated {h : Heap} (hb : h.Bounded) {l : List ℕ} (hl : h.Free l) {node : ℕ}
    (hpage : h.IsPage node) (hnew : node ∉ l) : h.Allocated (h.push node) (node :: l) := by
  have hlen := hl.length_le hb
  have hpos := hb.startPos
  obtain ⟨hal, hge, hlt⟩ := hpage
  have hchain : IsChain (nextPage (storeLE h.mem 8 node h.freeList)) 0 h.freeList l := by
    refine hl.chain.congr fun p hp => nextPage_congr fun i hi => ?_
    refine (storeLE_outside 8 h.mem _ _ _ ?_).symm
    exact link_words_disjoint (hl.isPage p hp).1 hal (fun h => hnew (h ▸ hp)) hi
  refine ⟨⟨⟨rfl, by omega, ?_⟩, ?_, ?_⟩, rfl, rfl, rfl, ?_⟩
  · simp only [Heap.push, nextPage_storeLE h.mem (hl.head_lt hb)]
    exact hchain
  · simp only [Heap.push, hl.count, List.length_cons]
    exact Nat.mod_eq_of_lt (by omega)
  · intro p hp
    rcases List.mem_cons.mp hp with rfl | hp
    · exact ⟨hal, hge, hlt⟩
    · exact hl.isPage p hp
  · exact fun x hx => storeLE_outside 8 h.mem _ _ x (hx _ List.mem_cons_self)

lemma memFree_of_rejects {h : Heap} {page : ℕ} (hrej : freeRejects h page) :
    memFree h page = h := by
  rw [memFree, if_pos hrej]

lemma memFree_eq_push {h : Heap} {page : ℕ} (hok : ¬ freeRejects h page) :
    memFree h page = h.push (virtToPhys page) := by
  rw [memFree, if_neg hok, ← allocatorIntrRestore_off (h.push (virtToPhys page))]
  rfl

lemma isPage_of_not_rejects {h : Heap} {page : ℕ} (hok : ¬ freeRejects h page) :
    h.IsPage (virtToPhys page) := by
  rw [freeRejects_iff] at hok
  push Not at hok
  exact ⟨hok.2.2.2, hok.2.1, hok.2.2.1⟩

/-- **`mem_free`** pushes a page its guard accepts. -/
theorem memFree_spec {h : Heap} (hb : h.Bounded) {l : List ℕ} (hl : h.Free l) {page : ℕ}
    (hok : ¬ freeRejects h page) (hnew : virtToPhys page ∉ l) :
    h.Allocated (memFree h page) (virtToPhys page :: l) := by
  rw [memFree_eq_push hok]
  exact Heap.push_allocated hb hl (isPage_of_not_rejects hok) hnew

end NetStack
