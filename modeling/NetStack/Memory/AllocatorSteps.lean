import NetStack.Memory.AllocatorSpec

/-!
# `mem_alloc` and `mem_free`, one statement at a time

`Pc` is a place between two statements of an allocator call, with the local variables that are live
there; `callStep` executes the statement at that place.  This is the granularity at which a timer
interrupt can be taken.  `steps_iff_returns` relates it to the functions of `Allocator`: the statements of
a call, executed without interference, arrive at its `return` exactly if the call returns that result.
-/

namespace NetStack

open ByteMem Relation

/-- A call of the allocator. -/
inductive AllocCall
  | memAlloc (size : ℕ)
  | memFree (page : ℕ)
  deriving DecidableEq, Repr

/-- The next statement of a call. -/
inductive Pc
  /-- `if (size == 0) return NULL;` -/
  | allocEntry (size : ℕ)
  /-- `count = ...;` -/
  | allocCount (size : ℕ)
  /-- `status = allocator_intr_off();` -/
  | allocOff (count : ℕ)
  /-- `if (count > free_page_count)` -/
  | allocCheck (count : ℕ) (status : Bool)
  /-- `if (count == 1)` -/
  | allocSingle (count : ℕ) (status : Bool)
  /-- `page = free_list;` -/
  | pop (status : Bool)
  /-- `free_list = page->next;` -/
  | popHead (status : Bool) (page : ℕ)
  /-- `free_page_count--;` -/
  | popCount (status : Bool) (page : ℕ)
  /-- `bytes = ...; first = free_list;` -/
  | searchInit (count : ℕ) (status : Bool)
  /-- the test of the loop over `first` -/
  | searchTest (count : ℕ) (status : Bool) (first : ℕ)
  /-- `if (end > heap_end) continue;` -/
  | searchRange (count : ℕ) (status : Bool) (first : ℕ)
  /-- `found = 0; page = free_list;` -/
  | scanInit (count : ℕ) (status : Bool) (first : ℕ)
  /-- the test of the loop over `page` -/
  | scanTest (count : ℕ) (status : Bool) (first page found : ℕ)
  /-- `if (page >= start && page < end) found++;` -/
  | scanCount (count : ℕ) (status : Bool) (first page found : ℕ)
  /-- `page = page->next` -/
  | scanNext (count : ℕ) (status : Bool) (first page found : ℕ)
  /-- `if (found != count) continue;` -/
  | scanDone (count : ℕ) (status : Bool) (first found : ℕ)
  /-- `first = first->next` -/
  | searchNext (count : ℕ) (status : Bool) (first : ℕ)
  /-- `link = &free_list;` -/
  | unlinkInit (count : ℕ) (status : Bool) (start : ℕ)
  /-- `while (*link)` -/
  | unlinkTest (count : ℕ) (status : Bool) (start : ℕ) (link : Link)
  /-- the body of that loop, for the entry `addr` -/
  | unlinkBody (count : ℕ) (status : Bool) (start : ℕ) (link : Link) (addr : ℕ)
  /-- `free_page_count -= count;` -/
  | unlinkCount (count : ℕ) (status : Bool) (start : ℕ)
  /-- the guard of `mem_free` -/
  | freeEntry (page : ℕ)
  /-- `status = allocator_intr_off();` -/
  | freeOff (page : ℕ)
  /-- `node->next = free_list;` -/
  | freeLink (status : Bool) (node : ℕ)
  /-- `free_list = node;` -/
  | freeHead (status : Bool) (node : ℕ)
  /-- `free_page_count++;` -/
  | freeCount (status : Bool)
  /-- `allocator_intr_restore(status);` -/
  | restore (status : Bool) (result : ℕ)
  /-- `return` -/
  | ret (result : ℕ)
  deriving DecidableEq, Repr

/-- Where a call begins. -/
def AllocCall.entry : AllocCall → Pc
  | .memAlloc size => .allocEntry size
  | .memFree page => .freeEntry page

/-- `end` of the range search. -/
def rangeEnd (first count : ℕ) : ℕ := (first + count * pageSize) % 2 ^ 64

/-- Execute one statement. -/
def callStep (h : Heap) : Pc → Heap × Pc
  | .allocEntry size => (h, if size = 0 then .ret 0 else .allocCount size)
  | .allocCount size => (h, .allocOff (pageCount size))
  | .allocOff count => ((allocatorIntrOff h).1, .allocCheck count (allocatorIntrOff h).2)
  | .allocCheck count status =>
      (h, if count > h.freePageCount then .restore status 0 else .allocSingle count status)
  | .allocSingle count status => (h, if count = 1 then .pop status else .searchInit count status)
  | .pop status => (h, .popHead status h.freeList)
  | .popHead status page => ({ h with freeList := nextPage h.mem page }, .popCount status page)
  | .popCount status page =>
      ({ h with freePageCount := sub32 h.freePageCount 1 }, .restore status page)
  | .searchInit count status => (h, .searchTest count status h.freeList)
  | .searchTest count status first =>
      (h, if first = 0 then .restore status 0 else .searchRange count status first)
  | .searchRange count status first =>
      (h, if rangeEnd first count > h.heapEnd then .searchNext count status first
        else .scanInit count status first)
  | .scanInit count status first => (h, .scanTest count status first h.freeList 0)
  | .scanTest count status first page found =>
      (h, if page = 0 then .scanDone count status first found
        else .scanCount count status first page found)
  | .scanCount count status first page found =>
      (h, .scanNext count status first page
        (if page ≥ first ∧ page < rangeEnd first count then (found + 1) % 2 ^ 32 else found))
  | .scanNext count status first page found =>
      (h, .scanTest count status first (nextPage h.mem page) found)
  | .scanDone count status first found =>
      (h, if found ≠ count then .searchNext count status first else .unlinkInit count status first)
  | .searchNext count status first => (h, .searchTest count status (nextPage h.mem first))
  | .unlinkInit count status start => (h, .unlinkTest count status start .freeList)
  | .unlinkTest count status start link =>
      (h, if h.readLink link = 0 then .unlinkCount count status start
        else .unlinkBody count status start link (h.readLink link))
  | .unlinkBody count status start link addr =>
      if addr ≥ start ∧ addr < rangeEnd start count then
        (h.writeLink link (nextPage h.mem addr), .unlinkTest count status start link)
      else (h, .unlinkTest count status start (.next addr))
  | .unlinkCount count status start =>
      ({ h with freePageCount := sub32 h.freePageCount count }, .restore status start)
  | .freeEntry page => (h, if freeRejects h page then .ret 0 else .freeOff page)
  | .freeOff page => ((allocatorIntrOff h).1, .freeLink (allocatorIntrOff h).2 (virtToPhys page))
  | .freeLink status node =>
      ({ h with mem := storeLE h.mem 8 node h.freeList }, .freeHead status node)
  | .freeHead status node => ({ h with freeList := node }, .freeCount status)
  | .freeCount status =>
      ({ h with freePageCount := (h.freePageCount + 1) % 2 ^ 32 }, .restore status 0)
  | .restore status result => (allocatorIntrRestore h status, .ret result)
  | .ret result => (h, .ret result)

/-! ## The rest of a call -/

/-- What follows the count of a range. -/
def afterScan (limit : ℕ) (h : Heap) (count : ℕ) (status : Bool) (first found : ℕ) :
    Option (Heap × ℕ) :=
  if found ≠ count then
    NetStack.searchRange limit count (count * pageSize) status limit h (nextPage h.mem first)
  else do
    let h ← unlinkRange first (rangeEnd first count) limit h .freeList
    some (allocatorIntrRestore { h with freePageCount := sub32 h.freePageCount count } status, first)

/-- The result of a call that is at a given place, by the loops of `Allocator`. -/
def resume (limit : ℕ) (h : Heap) : Pc → Option (Heap × ℕ)
  | .allocEntry size => memAlloc limit h size
  | .allocCount size =>
      resumeCheck limit (allocatorIntrOff h).1 (pageCount size) (allocatorIntrOff h).2
  | .allocOff count =>
      resumeCheck limit (allocatorIntrOff h).1 count (allocatorIntrOff h).2
  | .allocCheck count status => resumeCheck limit h count status
  | .allocSingle count status => resumeSingle limit h count status
  | .pop status => some (popResult h status h.freeList)
  | .popHead status page => some (popResult h status page)
  | .popCount status page =>
      some (allocatorIntrRestore { h with freePageCount := sub32 h.freePageCount 1 } status, page)
  | .searchInit count status =>
      NetStack.searchRange limit count (count * pageSize) status limit h h.freeList
  | .searchTest count status first =>
      NetStack.searchRange limit count (count * pageSize) status limit h first
  | .searchRange count status first =>
      if rangeEnd first count > h.heapEnd then
        NetStack.searchRange limit count (count * pageSize) status limit h (nextPage h.mem first)
      else do
        let found ← foundInRange h.mem first (rangeEnd first count) limit h.freeList 0
        afterScan limit h count status first found
  | .scanInit count status first => do
      let found ← foundInRange h.mem first (rangeEnd first count) limit h.freeList 0
      afterScan limit h count status first found
  | .scanTest count status first page found => do
      let found ← foundInRange h.mem first (rangeEnd first count) limit page found
      afterScan limit h count status first found
  | .scanCount count status first page found => do
      let found ← foundInRange h.mem first (rangeEnd first count) limit (nextPage h.mem page)
        (if page ≥ first ∧ page < rangeEnd first count then (found + 1) % 2 ^ 32 else found)
      afterScan limit h count status first found
  | .scanNext count status first page found => do
      let found ← foundInRange h.mem first (rangeEnd first count) limit (nextPage h.mem page) found
      afterScan limit h count status first found
  | .scanDone count status first found => afterScan limit h count status first found
  | .searchNext count status first =>
      NetStack.searchRange limit count (count * pageSize) status limit h (nextPage h.mem first)
  | .unlinkInit count status start => resumeUnlink limit h count status start .freeList
  | .unlinkTest count status start link => resumeUnlink limit h count status start link
  | .unlinkBody count status start link addr =>
      if addr ≥ start ∧ addr < rangeEnd start count then
        resumeUnlink limit (h.writeLink link (nextPage h.mem addr)) count status start link
      else resumeUnlink limit h count status start (.next addr)
  | .unlinkCount count status start =>
      some (allocatorIntrRestore { h with freePageCount := sub32 h.freePageCount count } status, start)
  | .freeEntry page => some (memFree h page, 0)
  | .freeOff page =>
      some (freeResult (allocatorIntrOff h).1 (allocatorIntrOff h).2 (virtToPhys page), 0)
  | .freeLink status node => some (freeResult h status node, 0)
  | .freeHead status node =>
      some (allocatorIntrRestore { h with
        freeList := node, freePageCount := (h.freePageCount + 1) % 2 ^ 32 } status, 0)
  | .freeCount status =>
      some (allocatorIntrRestore { h with freePageCount := (h.freePageCount + 1) % 2 ^ 32 } status, 0)
  | .restore status result => some (allocatorIntrRestore h status, result)
  | .ret result => some (h, result)
where
  popResult (h : Heap) (status : Bool) (page : ℕ) : Heap × ℕ :=
    (allocatorIntrRestore { h with
      freeList := nextPage h.mem page
      freePageCount := sub32 h.freePageCount 1 } status, page)
  resumeSingle (limit : ℕ) (h : Heap) (count : ℕ) (status : Bool) : Option (Heap × ℕ) :=
    if count = 1 then some (popResult h status h.freeList)
    else NetStack.searchRange limit count (count * pageSize) status limit h h.freeList
  resumeCheck (limit : ℕ) (h : Heap) (count : ℕ) (status : Bool) : Option (Heap × ℕ) :=
    if count > h.freePageCount then some (allocatorIntrRestore h status, 0)
    else resumeSingle limit h count status
  resumeUnlink (limit : ℕ) (h : Heap) (count : ℕ) (status : Bool) (start : ℕ) (link : Link) :
      Option (Heap × ℕ) := do
    let h ← unlinkRange start (rangeEnd start count) limit h link
    some (allocatorIntrRestore { h with freePageCount := sub32 h.freePageCount count } status, start)
  freeResult (h : Heap) (status : Bool) (node : ℕ) : Heap :=
    allocatorIntrRestore { h with
      mem := storeLE h.mem 8 node h.freeList
      freeList := node
      freePageCount := (h.freePageCount + 1) % 2 ^ 32 } status

lemma afterScan_mono {limit limit' count first found : ℕ} {h : Heap} {status : Bool}
    {res : Heap × ℕ} (hlim : limit ≤ limit') (hr : afterScan limit h count status first found = some res) :
    afterScan limit' h count status first found = some res := by
  simp only [afterScan, Option.bind_eq_bind] at hr ⊢
  split_ifs at hr ⊢
  · exact searchRange_mono hlim hlim hr
  · rw [Option.bind_eq_some_iff] at hr
    rcases hr with ⟨h', hun, hr⟩
    rw [unlinkRange_mono hlim hun, Option.bind_some]
    exact hr

/-- The outer loop, one statement further. -/
lemma searchRange_succ (limit count : ℕ) (status : Bool) (h : Heap) (first : ℕ) :
    NetStack.searchRange limit count (count * pageSize) status (limit + 1) h first =
      if first = 0 then some (allocatorIntrRestore h status, 0)
      else if rangeEnd first count > h.heapEnd then
        NetStack.searchRange limit count (count * pageSize) status limit h (nextPage h.mem first)
      else (foundInRange h.mem first (rangeEnd first count) limit h.freeList 0).bind fun found =>
        afterScan limit h count status first found := rfl

/-- **One statement.**  A call that returns from the next place returns the same from this one. -/
lemma resume_step {limit : ℕ} {h : Heap} {pc : Pc} {res : Heap × ℕ}
    (hr : resume limit (callStep h pc).1 (callStep h pc).2 = some res) :
    ∃ limit', resume limit' h pc = some res := by
  cases pc with
  | allocEntry size =>
      refine ⟨limit, ?_⟩
      by_cases hz : size = 0
      · simpa [callStep, resume, memAlloc, hz] using hr
      · simpa [callStep, resume, memAlloc, hz, resume.resumeCheck, resume.resumeSingle,
          resume.popResult] using hr
  | allocCheck count status =>
      refine ⟨limit, ?_⟩
      simp only [callStep] at hr
      simp only [resume, resume.resumeCheck]
      split_ifs at hr ⊢
      · exact hr
      · exact hr
  | allocSingle count status =>
      refine ⟨limit, ?_⟩
      simp only [callStep] at hr
      simp only [resume, resume.resumeSingle]
      split_ifs at hr ⊢
      · exact hr
      · exact hr
  | searchTest count status first =>
      refine ⟨limit + 1, ?_⟩
      have hsucc : NetStack.searchRange limit count (count * pageSize) status (limit + 1) h first
          = some res := by
        rw [searchRange_succ]
        simp only [callStep] at hr
        split_ifs at hr ⊢
        · exact hr
        · simpa [resume, *] using hr
        · simpa [resume, *] using hr
      exact searchRange_mono (Nat.le_succ limit) le_rfl hsucc
  | searchRange count status first =>
      refine ⟨limit, ?_⟩
      simp only [callStep] at hr
      simp only [resume]
      split_ifs at hr ⊢
      · exact hr
      · exact hr
  | scanTest count status first page found =>
      refine ⟨limit + 1, ?_⟩
      simp only [callStep] at hr
      simp only [resume, Option.bind_eq_bind]
      rw [foundInRange]
      split_ifs at hr ⊢ with hpage
      · exact afterScan_mono (Nat.le_succ limit) hr
      all_goals
        simp only [resume, Option.bind_eq_bind, Option.bind_eq_some_iff] at hr ⊢
        rcases hr with ⟨found', hfound, hr⟩
        refine ⟨found', ?_, afterScan_mono (Nat.le_succ limit) hr⟩
        simpa [*] using hfound
  | scanDone count status first found =>
      refine ⟨limit, ?_⟩
      simp only [callStep] at hr
      simp only [resume, afterScan]
      split_ifs at hr ⊢
      · exact hr
      · exact hr
  | unlinkTest count status start link =>
      refine ⟨limit + 1, ?_⟩
      simp only [callStep] at hr
      simp only [resume, resume.resumeUnlink]
      rw [unlinkRange]
      split_ifs at hr ⊢ with hnull hin
      · exact hr
      · simpa [resume, resume.resumeUnlink, hin] using hr
      · simpa [resume, resume.resumeUnlink, hin] using hr
  | unlinkBody count status start link addr =>
      refine ⟨limit, ?_⟩
      simp only [callStep] at hr
      simp only [resume]
      split_ifs at hr ⊢
      · exact hr
      · exact hr
  | freeEntry page =>
      refine ⟨limit, ?_⟩
      by_cases hrej : freeRejects h page
      · simpa [callStep, resume, memFree, hrej] using hr
      · simpa [callStep, resume, memFree, hrej, resume.freeResult] using hr
  | allocCount => exact ⟨limit, hr⟩
  | allocOff => exact ⟨limit, hr⟩
  | pop => exact ⟨limit, hr⟩
  | popHead => exact ⟨limit, hr⟩
  | popCount => exact ⟨limit, by simpa only [callStep, resume] using hr⟩
  | searchInit => exact ⟨limit, hr⟩
  | scanInit => exact ⟨limit, hr⟩
  | scanCount => exact ⟨limit, hr⟩
  | scanNext => exact ⟨limit, hr⟩
  | searchNext => exact ⟨limit, hr⟩
  | unlinkInit => exact ⟨limit, hr⟩
  | unlinkCount => exact ⟨limit, hr⟩
  | freeOff => exact ⟨limit, hr⟩
  | freeLink => exact ⟨limit, hr⟩
  | freeHead => exact ⟨limit, hr⟩
  | freeCount => exact ⟨limit, hr⟩
  | restore => exact ⟨limit, hr⟩
  | ret => exact ⟨limit, hr⟩

/-- Statements executed one after the other, without interference. -/
def Steps (c c' : Heap × Pc) : Prop := ReflTransGen (fun a b => b = callStep a.1 a.2) c c'

lemma Steps.resume {h h' : Heap} {pc : Pc} {v : ℕ} (hs : Steps (h, pc) (h', .ret v)) :
    ∃ limit, resume limit h pc = some (h', v) := by
  have hgen : ∀ c, Steps c (h', .ret v) → ∃ limit, NetStack.resume limit c.1 c.2 = some (h', v) := by
    intro c hc
    induction hc using ReflTransGen.head_induction_on with
    | refl => exact ⟨0, rfl⟩
    | head hstep _ ih =>
        rcases ih with ⟨limit, hlimit⟩
        rw [hstep] at hlimit
        exact resume_step hlimit
  exact hgen _ hs

/-! ## Sequential calls -/

/-- A call, executed alone, returns `res.2` and leaves `res.1`. -/
inductive CallReturns : Heap → AllocCall → Heap × ℕ → Prop
  | alloc {h : Heap} {size : ℕ} {res : Heap × ℕ} (hr : MemAllocReturns h size res) :
      CallReturns h (.memAlloc size) res
  | free (h : Heap) (page : ℕ) : CallReturns h (.memFree page) (memFree h page, 0)

/-- **Small steps make a call.** -/
theorem steps_returns {h h' : Heap} {c : AllocCall} {v : ℕ} (hs : Steps (h, c.entry) (h', .ret v)) :
    CallReturns h c (h', v) := by
  rcases hs.resume with ⟨limit, hr⟩
  cases c with
  | memAlloc size => exact .alloc ⟨limit, hr⟩
  | memFree page =>
      have heq : (memFree h page, 0) = (h', v) := Option.some.inj hr
      rw [← heq]
      exact .free h page

/-! ## From calls back to statements -/

/-- The statement at `pc` comes first. -/
lemma Steps.first {h : Heap} {pc : Pc} {c : Heap × Pc} (hs : Steps (callStep h pc) c) : Steps (h, pc) c :=
  .head rfl hs

lemma Steps.here (c : Heap × Pc) : Steps c c := .refl

/-- The loop over `page`, once its count is known. -/
lemma foundInRange_steps {h : Heap} {count first r : ℕ} {status : Bool} :
    ∀ {fuel page found : ℕ}, foundInRange h.mem first (rangeEnd first count) fuel page found = some r →
      Steps (h, .scanTest count status first page found) (h, .scanDone count status first r)
  | 0, _, _, hr => by simp [foundInRange] at hr
  | fuel + 1, page, found, hr => by
      rw [foundInRange] at hr
      by_cases hz : page = 0
      · rw [if_pos hz] at hr
        cases hr
        exact .first (by simpa [callStep, hz] using Steps.here _)
      · rw [if_neg hz] at hr
        refine .first ?_
        simp only [callStep, if_neg hz]
        exact .first (.first (foundInRange_steps hr))

/-- The unlinking loop. -/
lemma unlinkRange_steps {count start : ℕ} {status : Bool} :
    ∀ {fuel : ℕ} {h h' : Heap} {link : Link}, unlinkRange start (rangeEnd start count) fuel h link = some h' →
      Steps (h, .unlinkTest count status start link) (h', .unlinkCount count status start)
  | 0, _, _, _, hr => by simp [unlinkRange] at hr
  | fuel + 1, h, h', link, hr => by
      rw [unlinkRange] at hr
      by_cases hz : h.readLink link = 0
      · rw [if_pos hz] at hr
        cases hr
        exact .first (by simpa [callStep, hz] using Steps.here _)
      · rw [if_neg hz] at hr
        refine .first ?_
        simp only [callStep, if_neg hz]
        refine .first ?_
        by_cases hin : h.readLink link ≥ start ∧ h.readLink link < rangeEnd start count
        · rw [if_pos hin] at hr
          simpa only [callStep, if_pos hin] using unlinkRange_steps hr
        · rw [if_neg hin] at hr
          simpa only [callStep, if_neg hin] using unlinkRange_steps hr

/-- The loop over `first`, up to the return. -/
lemma searchRange_steps {limit count v : ℕ} {status : Bool} {h h' : Heap} :
    ∀ {fuel first : ℕ}, searchRange limit count (count * pageSize) status fuel h first = some (h', v) →
      Steps (h, .searchTest count status first) (h', .ret v)
  | 0, _, hr => by simp [searchRange] at hr
  | fuel + 1, first, hr => by
      simp only [searchRange, Option.bind_eq_bind] at hr
      refine .first ?_
      by_cases hz : first = 0
      · rw [if_pos hz] at hr
        cases hr
        simp only [callStep, if_pos hz]
        exact .first .refl
      rw [if_neg hz] at hr
      simp only [callStep, if_neg hz]
      refine .first ?_
      by_cases hend : rangeEnd first count > h.heapEnd
      · have hnext : callStep h (.searchRange count status first) = (h, .searchNext count status first) := by
          rw [callStep, if_pos hend]
        rw [rangeEnd] at hend
        rw [if_pos hend] at hr
        rw [hnext]
        exact .first (searchRange_steps hr)
      have hnext : callStep h (.searchRange count status first) = (h, .scanInit count status first) := by
        rw [callStep, if_neg hend]
      rw [rangeEnd] at hend
      rw [if_neg hend, Option.bind_eq_some_iff] at hr
      rcases hr with ⟨found, hfound, hr⟩
      rw [hnext]
      refine .first (.trans (foundInRange_steps hfound) (Steps.first ?_))
      by_cases hne : found ≠ count
      · rw [if_pos hne] at hr
        simp only [callStep, if_pos hne]
        exact .first (searchRange_steps hr)
      · rw [if_neg hne] at hr
        rcases Option.bind_eq_some_iff.mp hr with ⟨h₁, hun, hr⟩
        cases hr
        simp only [callStep, if_neg hne]
        exact .first (.trans (unlinkRange_steps hun) (Steps.first (.first .refl)))

lemma memAlloc_steps {limit size v : ℕ} {h h' : Heap} (hr : memAlloc limit h size = some (h', v)) :
    Steps (h, .allocEntry size) (h', .ret v) := by
  rw [memAlloc] at hr
  refine .first ?_
  by_cases hz : size = 0
  · rw [if_pos hz] at hr
    cases hr
    simpa only [callStep, if_pos hz] using Steps.here _
  rw [if_neg hz] at hr
  simp only [callStep, if_neg hz]
  refine .first (.first (.first ?_))
  dsimp only at hr
  by_cases hmore : pageCount size > (allocatorIntrOff h).1.freePageCount
  · rw [if_pos hmore] at hr
    cases hr
    simp only [callStep, if_pos hmore]
    exact .first .refl
  rw [if_neg hmore] at hr
  simp only [callStep, if_neg hmore]
  refine .first ?_
  by_cases hone : pageCount size = 1
  · rw [if_pos hone] at hr
    cases hr
    simp only [callStep, if_pos hone]
    exact .first (.first (.first (.first .refl)))
  · rw [if_neg hone] at hr
    simp only [callStep, if_neg hone]
    exact .first (searchRange_steps hr)

lemma memFree_steps (h : Heap) (page : ℕ) : Steps (h, .freeEntry page) (memFree h page, .ret 0) := by
  refine .first ?_
  by_cases hrej : freeRejects h page
  · simpa only [callStep, memFree, if_pos hrej] using Steps.here _
  · simp only [callStep, memFree, if_neg hrej]
    exact .first (.first (.first (.first (.first .refl))))

/-- **A call is its statements**: it returns exactly what they, executed alone, arrive at. -/
theorem steps_iff_returns {h h' : Heap} {c : AllocCall} {v : ℕ} :
    Steps (h, c.entry) (h', .ret v) ↔ CallReturns h c (h', v) := by
  constructor
  · exact steps_returns
  · intro hr
    cases hr with
    | alloc hr =>
        rcases hr with ⟨limit, hlimit⟩
        exact memAlloc_steps hlimit
    | free page => exact memFree_steps h page

lemma CallReturns.unique {h : Heap} {c : AllocCall} {r r' : Heap × ℕ} (hr : CallReturns h c r)
    (hr' : CallReturns h c r') : r = r' := by
  cases hr with
  | alloc h₁ =>
      cases hr' with
      | alloc h₂ => exact h₁.unique h₂
  | free page =>
      cases hr' with
      | free _ => rfl

/-- Statements are executed in one order: what is reached is on the way to the return. -/
lemma Steps.to_return {c c' : Heap × Pc} {h' : Heap} {v : ℕ} (hs : Steps c c')
    (hret : Steps c (h', .ret v)) : Steps c' (h', .ret v) := by
  have hunique : Relator.RightUnique (fun a b : Heap × Pc => b = callStep a.1 a.2) :=
    fun _ _ _ h₁ h₂ => h₁.trans h₂.symm
  rcases hs.total_of_right_unique hunique hret with hgo | hstay
  · exact hgo
  · -- a returned call stays where it is
    have hfix : ∀ b, Steps (h', .ret v) b → b = (h', .ret v) := by
      intro b hb
      induction hb with
      | refl => rfl
      | tail _ hstep ih =>
          rw [hstep, ih]
          rfl
    rw [hfix c' hstay]
    exact .refl

end NetStack
