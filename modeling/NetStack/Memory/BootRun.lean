import NetStack.Memory.Bump
import NetStack.Memory.PageList

/-!
# Until the first free, the allocator is a counter

From the heap `page_allocator_init` builds, requests alone keep the free list one ascending block that ends
with the heap: `Bumped` has the number of pages taken so far as its only variable.  One lemma for a request
(`Bumped.request`), one for a step of a run (`Bumped.step`), and `boot_requests` for every run.
-/

namespace NetStack

open ByteMem Transition

/-- The pages that the requests of a run have been given: the sum over the successful ones. -/
def pagesTaken : List ClientAct → ℕ
  | [] => 0
  | .call (.memAlloc size) result :: acts =>
      (if result = 0 then 0 else (size + 4095) / 4096) + pagesTaken acts
  | _ :: acts => pagesTaken acts

/-- All but the first `used` of the `total` pages from `start` on are free, in ascending order. -/
structure Bumped (start total used : ℕ) (s : ClientSys) : Prop where
  le : used ≤ total
  split : s.heap.Split (blockPages (start + 4096 * used) (total - used)) s.owned

section Bumped

variable {start total used size : ℕ} {s s' : ClientSys}

/-- The pages that remain. -/
lemma Bumped.freePageCount (hb : Bumped start total used s) : s.heap.freePageCount = total - used := by
  rw [hb.split.free.count]
  simp [blockPages]

/-- **One request**: the boundary moves, or nothing does. -/
lemma Bumped.request (hb : Bumped start total used s) (hpos : 0 < size) (hsize : size < 2 ^ 32) :
    (used + (size + 4095) / 4096 ≤ total → ∃ h', MemAllocReturns s.heap size (h', start + 4096 * used) ∧
      start + 4096 * used ≠ 0 ∧
      Bumped start total (used + (size + 4095) / 4096)
        ⟨h', blockPages (start + 4096 * used) (pageCount size) ++ s.owned⟩) ∧
    (total < used + (size + 4095) / 4096 → MemAllocReturns s.heap size (s.heap, 0)) := by
  have hcount := pageCount_eq hsize
  constructor
  · intro hle
    have hsplit := hb.split
    rw [show total - used = (size + 4095) / 4096 + (total - (used + (size + 4095) / 4096)) by omega] at hsplit
    obtain ⟨h', hret, hne, hsplit'⟩ := hsplit.bump hcount hpos (by omega)
    refine ⟨h', hret, hne, hle, ?_⟩
    rw [hcount, show start + 4096 * (used + (size + 4095) / 4096)
      = start + 4096 * used + 4096 * ((size + 4095) / 4096) by omega]
    exact hsplit'
  · intro hlt
    refine ⟨0, memAlloc_tooMany hpos ?_⟩
    rw [hb.freePageCount, hcount]
    have := hb.le
    omega

/-- **One step of a run without frees.** -/
lemma Bumped.step {act : ClientAct} (hb : Bumped start total used s) (hstep : ClientStep s act s')
    (hact : ∀ page v, act ≠ .call (.memFree page) v) : Bumped start total (used + pagesTaken [act]) s' := by
  cases hstep with
  | write hw =>
      simp only [pagesTaken, Nat.add_zero]
      exact ⟨hb.le, hb.split.write hw⟩
  | @call c h' v hc hret =>
      cases c with
      | memFree page => exact absurd rfl (hact page v)
      | memAlloc size =>
          cases hret with
          | alloc hret =>
              have hsame : ∀ {h'' p}, MemAllocReturns s.heap size (h'', p) → h' = h'' ∧ v = p :=
                fun hret' => Prod.mk.inj (hret.unique hret')
              rcases Nat.eq_zero_or_pos size with rfl | hpos
              · obtain ⟨rfl, rfl⟩ := hsame ⟨0, memAlloc_zero 0 s.heap⟩
                simp only [pagesTaken, AllocCall.ownedAfter, ↓reduceIte, Nat.add_zero]
                exact hb
              obtain ⟨hserved, hrefused⟩ := hb.request hpos hc
              rcases Nat.lt_or_ge total (used + (size + 4095) / 4096) with hlt | hle
              · obtain ⟨rfl, rfl⟩ := hsame (hrefused hlt)
                simp only [pagesTaken, AllocCall.ownedAfter, ↓reduceIte, Nat.add_zero]
                exact hb
              · obtain ⟨h'', hret', hne, hb'⟩ := hserved hle
                obtain ⟨rfl, rfl⟩ := hsame hret'
                simp only [pagesTaken, AllocCall.ownedAfter, if_neg hne, Nat.add_zero]
                exact hb'

lemma pagesTaken_cons (act : ClientAct) (acts : List ClientAct) :
    pagesTaken (act :: acts) = pagesTaken [act] + pagesTaken acts := by
  cases act with
  | write m => simp [pagesTaken]
  | call c v => cases c <;> simp [pagesTaken]

/-- **A run without frees.** -/
lemma Bumped.run {acts : List ClientAct} (hrun : Run ClientStep s acts s') :
    ∀ {used : ℕ}, Bumped start total used s → (∀ page, .memFree page ∉ clientCalls acts) →
      Bumped start total (used + pagesTaken acts) s' := by
  induction hrun with
  | nil s => exact fun hb _ => hb
  | @cons s s₁ s' act acts hstep _ ih =>
      intro used hb hno
      have hact : ∀ page v, act ≠ .call (.memFree page) v := by
        rintro page v rfl
        exact hno page List.mem_cons_self
      have hrest : ∀ page, .memFree page ∉ clientCalls acts := by
        intro page hmem
        refine hno page ?_
        cases act with
        | write m => exact hmem
        | call c v => exact List.mem_cons_of_mem _ hmem
      rw [pagesTaken_cons, ← Nat.add_assoc]
      exact ih (hb.step hstep hact) hrest

end Bumped

/-- After `page_allocator_init`. -/
lemma LinkLayout.boot_bumped (L : LinkLayout) (m : Mem) (sie : Bool) :
    Bumped (L.boot m sie).heapStart (L.boot m sie).freePageCount 0 ⟨L.boot m sie, []⟩ := by
  have hsplit := L.boot_split m sie
  have hcount : (L.boot m sie).freePageCount = ((L.boot m sie).heapEnd - (L.boot m sie).heapStart) / 4096 := by
    rw [hsplit.free.count]
    simp [Heap.pages]
  refine ⟨Nat.zero_le _, ?_⟩
  rw [Heap.pages_eq, ← hcount] at hsplit
  rw [Nat.mul_zero, Nat.add_zero, Nat.sub_zero]
  exact hsplit

/-- **Before the first free the allocator is a bump allocator.**  After any run of requests, with clients
writing to their pages as they like, the pages that remain are the ones not yet given out, and the next
request is served from the boundary if enough of them remain, and refused without a trace otherwise. -/
theorem boot_requests (L : LinkLayout) (m : Mem) (sie : Bool) (acts : List ClientAct) (s : ClientSys)
    (hrun : Run ClientStep ⟨L.boot m sie, []⟩ acts s) (hno : ∀ page, .memFree page ∉ clientCalls acts)
    (size : ℕ) (hpos : 0 < size) (hsize : size < 2 ^ 32) :
    s.heap.freePageCount + pagesTaken acts = (L.boot m sie).freePageCount ∧
      ∃ h' p, (∀ res, MemAllocReturns s.heap size res ↔ res = (h', p)) ∧
        ((size + 4095) / 4096 ≤ s.heap.freePageCount →
          p = (L.boot m sie).heapStart + 4096 * pagesTaken acts ∧ p ≠ 0) ∧
        (s.heap.freePageCount < (size + 4095) / 4096 → p = 0 ∧ h' = s.heap) := by
  have hb := Bumped.run hrun (L.boot_bumped m sie) hno
  rw [Nat.zero_add] at hb
  have hle := hb.le
  have hremain := hb.freePageCount
  obtain ⟨hserved, hrefused⟩ := hb.request hpos hsize
  refine ⟨by omega, ?_⟩
  rcases Nat.lt_or_ge s.heap.freePageCount ((size + 4095) / 4096) with hlt | hge
  · exact ⟨s.heap, 0, (hrefused (by omega)).iff_eq, fun hge => absurd hlt (Nat.not_lt.mpr hge),
      fun _ => ⟨rfl, rfl⟩⟩
  · obtain ⟨h', hret, hne, -⟩ := hserved (by omega)
    exact ⟨h', _, hret.iff_eq, fun _ => ⟨rfl, hne⟩, fun hlt => absurd hlt (Nat.not_lt.mpr hge)⟩

/-- The second page of a heap of two, after the first has been given out. -/
theorem boot_requests_two_pages : ∃ acts s,
    Run ClientStep ⟨twoPageLayout.boot (fun _ => 0) true, []⟩ acts s ∧ pagesTaken acts = 1 ∧
      ∃ h', MemAllocReturns s.heap 4096 (h', (twoPageLayout.boot (fun _ => 0) true).heapStart + 4096 * 1) := by
  have hcount := (twoPageLayout_boot (fun _ => 0) true).2
  have hnil := boot_requests twoPageLayout (fun _ => 0) true [] _ (.nil _) (by simp [clientCalls]) 4096
    (by decide) (by decide)
  obtain ⟨-, h₁, p, hret, hp, -⟩ := hnil
  obtain ⟨hp, hne⟩ := hp (by rw [hcount]; decide)
  have hrun : Run ClientStep ⟨twoPageLayout.boot (fun _ => 0) true, []⟩ [.call (.memAlloc 4096) p] _ :=
    .cons (.call (show 4096 < 2 ^ 32 by decide) (.alloc ((hret _).mpr rfl))) (.nil _)
  have htaken : pagesTaken [.call (.memAlloc 4096) p] = 1 := by simp [pagesTaken, hne]
  obtain ⟨hremain, h₂, q, hret₂, hq, -⟩ := boot_requests twoPageLayout (fun _ => 0) true _ _ hrun
    (by simp [clientCalls]) 4096 (by decide) (by decide)
  rw [htaken, hcount] at hremain
  obtain ⟨hq, -⟩ := hq (by omega)
  rw [htaken] at hq
  exact ⟨_, _, hrun, htaken, h₂, hq ▸ (hret₂ _).mpr rfl⟩

end NetStack
