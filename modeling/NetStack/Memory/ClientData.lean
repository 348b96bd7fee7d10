import NetStack.Memory.PageList

/-!
# The allocator keeps out of client data

A call writes link words, inside pages, through a pointer that moves along the list while nodes are being
unlinked.  `Pc.linkWritten` names the page a statement writes to, and `Steps.written_free` is the result
about it: every page a call ever writes to is free when the call is over.

**While unlinking** the list is in two parts (`Unlinking`): the nodes the walk has kept, which lead up to
the place `link` points at, and the ones still to come.  A link word is written only if it belongs to the
last node kept, and a kept node stays on the list.

The converse, that client writes are of no consequence for the allocator, is `ClientSys.Represents.run`.
`client_data` puts the two together.
-/

namespace NetStack

open ByteMem LinkedChain Transition Relation

/-! ## What a statement writes -/

/-- The page whose link word the statement writes. -/
def Pc.linkWritten : Pc → Option ℕ
  | .unlinkBody count _ start (.next p) addr =>
      if addr ≥ start ∧ addr < rangeEnd start count then some p else none
  | .freeLink _ node => some node
  | _ => none

/-- **Nothing else is written.** -/
lemma callStep_mem {h : Heap} {pc : Pc} {x : ℕ} (hx : ∀ p, pc.linkWritten = some p → x < p ∨ p + 8 ≤ x) :
    (callStep h pc).1.mem x = h.mem x := by
  cases pc with
  | unlinkBody count status start link addr =>
      simp only [callStep]
      split_ifs with hin
      · refine Heap.writeLink_mem fun p hp => hx p ?_
        rw [hp, Pc.linkWritten, if_pos hin]
      · rfl
  | freeLink status node => exact storeLE_outside 8 h.mem node h.freeList x (hx node rfl)
  | restore status v => exact congrFun (allocatorIntrRestore_mem h status) x
  | _ => rfl

/-! ## The list while it is being changed -/

/-- The walk has kept `kept`, and `link` is where the rest of the list, `rest`, hangs. -/
structure Unlinking (h : Heap) (link : Link) (kept rest : List ℕ) : Prop where
  chain : IsChain (nextPage h.mem) 0 h.freeList (kept ++ rest)
  aligned : ∀ p ∈ kept ++ rest, p % 4096 = 0
  link : link = .freeList ∧ kept = [] ∨ ∃ before p, link = .next p ∧ kept = before ++ [p]

section Unlinking

variable {h : Heap} {link : Link} {kept rest : List ℕ} {addr : ℕ}

/-- Before the walk. -/
lemma Unlinking.init {l : List ℕ} (hc : IsChain (nextPage h.mem) 0 h.freeList l) (hal : ∀ p ∈ l, p % 4096 = 0) :
    Unlinking h .freeList [] l := ⟨hc, hal, .inl ⟨rfl, rfl⟩⟩

/-- `*link` is the first node of the rest. -/
lemma Unlinking.rest_chain (hu : Unlinking h link kept rest) :
    IsChain (nextPage h.mem) 0 (h.readLink link) rest := by
  rcases hu.link with ⟨rfl, rfl⟩ | ⟨before, p, rfl, rfl⟩
  · exact hu.chain
  · exact IsChain.behind hu.chain

/-- A node that is kept: its own link word is the next place. -/
lemma Unlinking.keep (hu : Unlinking h link kept (addr :: rest)) :
    Unlinking h (.next addr) (kept ++ [addr]) rest := by
  refine ⟨?_, ?_, .inr ⟨kept, addr, rfl, rfl⟩⟩
  · simpa using hu.chain
  · simpa using hu.aligned

/-- A node that is bypassed. -/
lemma Unlinking.bypass (hu : Unlinking h link kept (addr :: rest)) :
    Unlinking (h.writeLink link (nextPage h.mem addr)) link kept rest := by
  have hnext : IsChain (nextPage h.mem) 0 (nextPage h.mem addr) rest := hu.rest_chain.2.2
  have hnd := hu.chain.nodup
  have hal : ∀ p ∈ kept ++ rest, p % 4096 = 0 := by
    intro p hp
    rcases List.mem_append.mp hp with hp | hp
    · exact hu.aligned p (List.mem_append_left _ hp)
    · exact hu.aligned p (List.mem_append_right _ (List.mem_cons_of_mem _ hp))
  rcases hu.link with ⟨rfl, rfl⟩ | ⟨before, p, rfl, rfl⟩
  · exact ⟨hnext, hal, .inl ⟨rfl, rfl⟩⟩
  · refine ⟨?_, hal, .inr ⟨before, p, rfl, rfl⟩⟩
    -- the other link words are where they were
    have hother : ∀ q ∈ before ++ [p] ++ rest, q ≠ p →
        nextPage h.mem q = nextPage (h.writeLink (.next p) (nextPage h.mem addr)).mem q := by
      intro q hq hne
      refine nextPage_congr fun i hi => (storeLE_outside 8 h.mem _ _ _ ?_).symm
      exact link_words_disjoint (hal q hq) (hal p (by simp)) hne hi
    have hp : nextPage (h.writeLink (.next p) (nextPage h.mem addr)).mem p = nextPage h.mem addr :=
      nextPage_storeLE h.mem (nextPage_lt _ _)
    rw [List.append_assoc, List.singleton_append, List.nodup_middle, List.nodup_cons] at hnd
    refine IsChain.splice hu.chain (fun q hq => hother q (by simp [hq]) ?_) ?_
    · rintro rfl
      exact hnd.1 (List.mem_append_left _ hq)
    · rw [hp]
      refine hnext.congr fun q hq => hother q (by simp [hq]) ?_
      rintro rfl
      exact hnd.1 (List.mem_append_right _ (List.mem_cons_of_mem _ hq))

end Unlinking

/-- The list is in order, its nodes are page addresses. -/
def Heap.Threaded (h : Heap) (l : List ℕ) : Prop :=
  IsChain (nextPage h.mem) 0 h.freeList l ∧ ∀ p ∈ l, p % 4096 = 0

/-- The page `node` can be pushed. -/
def Heap.CanPush (h : Heap) (node : ℕ) : Prop :=
  ∃ l, h.Threaded l ∧ h.freeList < 2 ^ 64 ∧ node ∉ l ∧ node ≠ 0 ∧ node % 4096 = 0

/-- What a call knows about the list, as far as its later writes depend on it.  From the one-page path and
from behind the last change nothing is written any more. -/
def Pc.Sound (h : Heap) : Pc → Prop
  | .unlinkTest _ _ _ link => ∃ kept rest, Unlinking h link kept rest
  | .unlinkBody _ _ _ link addr => ∃ kept rest, Unlinking h link kept (addr :: rest)
  | .freeEntry page | .freeOff page => h.CanPush (virtToPhys page)
  | .freeLink _ node => h.CanPush node
  | .pop _ | .popHead _ _ | .popCount _ _ | .unlinkCount _ _ _ | .freeHead _ _ | .freeCount _
  | .restore _ _ | .ret _ => True
  | _ => ∃ l, h.Threaded l

/-- The page `p` is on the list, in front of everything the call may still change. -/
def Pc.Kept (p : ℕ) (h : Heap) : Pc → Prop
  | .unlinkTest _ _ _ link => ∃ kept rest, Unlinking h link kept rest ∧ p ∈ kept
  | .unlinkBody _ _ _ link addr => ∃ kept rest, Unlinking h link kept (addr :: rest) ∧ p ∈ kept
  | .freeHead _ node => ∃ l, IsChain (nextPage h.mem) 0 node l ∧ p ∈ l
  | .unlinkCount _ _ _ | .freeCount _ | .restore _ _ | .ret _ =>
      ∃ l, IsChain (nextPage h.mem) 0 h.freeList l ∧ p ∈ l
  | _ => False

/-! ## One statement -/

/-- What hangs at a link that is not null. -/
lemma Unlinking.split_rest {h : Heap} {link : Link} {kept rest : List ℕ} (hu : Unlinking h link kept rest)
    (hne : h.readLink link ≠ 0) : ∃ rest', rest = h.readLink link :: rest' := by
  cases rest with
  | nil => exact absurd hu.rest_chain hne
  | cons a rest' =>
      have hhead := hu.rest_chain.1
      exact ⟨rest', by rw [hhead]⟩

lemma callStep_sound {h : Heap} {pc : Pc} (hs : pc.Sound h) :
    (callStep h pc).2.Sound (callStep h pc).1 := by
  cases pc with
  | unlinkTest count status start link =>
      obtain ⟨kept, rest, hu⟩ := hs
      simp only [callStep]
      split_ifs with hz
      · exact True.intro
      · obtain ⟨rest', rfl⟩ := hu.split_rest hz
        exact ⟨kept, rest', hu⟩
  | unlinkBody count status start link addr =>
      obtain ⟨kept, rest, hu⟩ := hs
      simp only [callStep]
      split_ifs
      · exact ⟨kept, rest, hu.bypass⟩
      · exact ⟨kept ++ [addr], rest, hu.keep⟩
  | unlinkInit count status start =>
      obtain ⟨l, hc, hal⟩ := hs
      exact ⟨[], l, .init hc hal⟩
  | allocEntry | allocCheck | allocSingle | searchTest | searchRange | scanTest | scanDone | freeEntry =>
      simp only [callStep]
      split_ifs
      all_goals first | exact True.intro | exact hs
  | _ => first | exact True.intro | exact hs

/-- **A page written to is kept.** -/
lemma written_kept {h : Heap} {pc : Pc} {p : ℕ} (hs : pc.Sound h) (hw : pc.linkWritten = some p) :
    (callStep h pc).2.Kept p (callStep h pc).1 := by
  cases pc with
  | unlinkBody count status start link addr =>
      obtain ⟨kept, rest, hu⟩ := hs
      cases link with
      | freeList => simp [Pc.linkWritten] at hw
      | next q =>
          simp only [Pc.linkWritten, Option.ite_none_right_eq_some, Option.some.injEq] at hw
          obtain ⟨hin, rfl⟩ := hw
          have hmem : q ∈ kept := by
            rcases hu.link with ⟨hlink, -⟩ | ⟨before, p, hlink, rfl⟩
            · cases hlink
            · cases hlink
              simp
          simp only [callStep, if_pos hin]
          exact ⟨kept, rest, hu.bypass, hmem⟩
  | freeLink status node =>
      cases hw
      obtain ⟨l, ⟨hc, hal⟩, hlt, hnew, hne, hnode⟩ := hs
      refine ⟨p :: l, ⟨rfl, hne, ?_⟩, List.mem_cons_self⟩
      change IsChain (nextPage (storeLE h.mem 8 p h.freeList)) 0 (nextPage (storeLE h.mem 8 p h.freeList) p) l
      rw [nextPage_storeLE h.mem hlt]
      refine hc.congr fun q hq => nextPage_congr fun i hi => (storeLE_outside 8 h.mem _ _ _ ?_).symm
      exact link_words_disjoint (hal q hq) hnode (fun heq => hnew (heq ▸ hq)) hi
  | _ => simp [Pc.linkWritten] at hw

/-- **A kept page stays.** -/
lemma callStep_kept {h : Heap} {pc : Pc} {p : ℕ} (hk : pc.Kept p h) :
    (callStep h pc).2.Kept p (callStep h pc).1 := by
  cases pc with
  | unlinkTest count status start link =>
      obtain ⟨kept, rest, hu, hp⟩ := hk
      simp only [callStep]
      split_ifs with hz
      · exact ⟨kept ++ rest, hu.chain, List.mem_append_left _ hp⟩
      · obtain ⟨rest', rfl⟩ := hu.split_rest hz
        exact ⟨kept, rest', hu, hp⟩
  | unlinkBody count status start link addr =>
      obtain ⟨kept, rest, hu, hp⟩ := hk
      simp only [callStep]
      split_ifs
      · exact ⟨kept, rest, hu.bypass, hp⟩
      · exact ⟨kept ++ [addr], rest, hu.keep, List.mem_append_left _ hp⟩
  | restore status v =>
      obtain ⟨l, hc, hp⟩ := hk
      refine ⟨l, ?_, hp⟩
      simp only [callStep, allocatorIntrRestore_mem, allocatorIntrRestore_freeList]
      exact hc
  | unlinkCount count status start =>
      obtain ⟨l, hc, hp⟩ := hk
      have hany : ∀ n, Pc.Kept p { h with freePageCount := n } (.restore status start) := fun _ => ⟨l, hc, hp⟩
      exact hany _
  | freeHead | freeCount | ret => exact hk
  | _ => exact hk.elim

/-! ## A whole call -/

lemma Steps.sound {c c' : Heap × Pc} (hs : Steps c c') (h₀ : c.2.Sound c.1) : c'.2.Sound c'.1 := by
  induction hs with
  | refl => exact h₀
  | tail _ hstep ih =>
      rw [hstep]
      exact callStep_sound ih

lemma Steps.kept {c c' : Heap × Pc} {p : ℕ} (hs : Steps c c') (h₀ : c.2.Kept p c.1) : c'.2.Kept p c'.1 := by
  induction hs with
  | refl => exact h₀
  | tail _ hstep ih =>
      rw [hstep]
      exact callStep_kept ih

/-- An allowed call begins in order. -/
lemma Heap.Split.sound_entry {h : Heap} {l owned : List ℕ} (hs : h.Split l owned) {c : AllocCall}
    (hc : c.Allowed owned) : c.entry.Sound h := by
  have hthread : h.Threaded l := ⟨hs.free.chain, fun p hp => (hs.free.isPage p hp).1⟩
  cases c with
  | memAlloc size => exact ⟨l, hthread⟩
  | memFree page =>
      obtain ⟨hal, hlo, -⟩ := hs.isPage_owned hc
      have hpos := hs.bounded.startPos
      exact ⟨l, hthread, hs.free.head_lt hs.bounded, hs.notMem_free hc, by omega, hal⟩

/-- **Every page a call writes to is free when the call is over.** -/
lemma Steps.written_free {h h₁ h' : Heap} {l l' owned : List ℕ} {c : AllocCall} {pc : Pc} {v p : ℕ}
    (hs : h.Split l owned) (hc : c.Allowed owned) (hret : Steps (h, c.entry) (h', .ret v)) (hl' : h'.Free l')
    (hto : Steps (h, c.entry) (h₁, pc)) (hw : pc.linkWritten = some p) : p ∈ l' := by
  have hkept := written_kept (hto.sound (hs.sound_entry hc)) hw
  have hnext : Steps (h, c.entry) (callStep h₁ pc) := hto.tail rfl
  obtain ⟨l'', hchain, hp⟩ := (hnext.to_return hret).kept hkept
  rwa [hl'.chain.unique hchain]

/-- The statement writes the byte `x`. -/
def Pc.WritesByte (pc : Pc) (x : ℕ) : Prop := ∃ p, pc.linkWritten = some p ∧ p ≤ x ∧ x < p + 8

lemma callStep_mem_of_not_writes {h : Heap} {pc : Pc} {x : ℕ} (hx : ¬ pc.WritesByte x) :
    (callStep h pc).1.mem x = h.mem x := by
  refine callStep_mem fun p hp => ?_
  by_contra hin
  exact hx ⟨p, hp, by omega, by omega⟩

/-- Bytes outside the link words of the pages left free are never written. -/
lemma Steps.mem_eq {h : Heap} {c : AllocCall} {c' : Heap × Pc} {x : ℕ} (hto : Steps (h, c.entry) c')
    (hno : ∀ h₁ pc, Steps (h, c.entry) (h₁, pc) → ¬ pc.WritesByte x) : c'.1.mem x = h.mem x := by
  induction hto with
  | refl => rfl
  | @tail b _ hb hstep ih =>
      rw [hstep, callStep_mem_of_not_writes (hno b.1 b.2 hb), ih]

/-! ## The result -/

/-- What the call `c` did, from its first statement to its return: it left the pages `l'` free and wrote
nothing but their link words, so that what is owned afterwards, and what is outside the heap, has at every
moment been as it was. -/
structure CallFrame (h : Heap) (owned : List ℕ) (c : AllocCall) (h' : Heap) (v : ℕ) (l' : List ℕ) : Prop where
  returns : CallReturns h c (h', v)
  reaches : Steps (h, c.entry) (h', .ret v)
  split : h'.Split l' (c.ownedAfter owned v)
  heapStart : h'.heapStart = h.heapStart
  heapEnd : h'.heapEnd = h.heapEnd
  sie : h'.sie = h.sie
  written : ∀ h₁ pc, Steps (h, c.entry) (h₁, pc) → ∀ x, pc.WritesByte x → ∃ p ∈ l', p ≤ x ∧ x < p + 8
  others : ∀ h₁ pc, Steps (h, c.entry) (h₁, pc) → ∀ x, ¬ pc.WritesByte x → (callStep h₁ pc).1.mem x = h₁.mem x
  data : ∀ h₁ pc, Steps (h, c.entry) (h₁, pc) →
    ∀ x, pageFloor x ∈ c.ownedAfter owned v ∨ pageFloor x ∉ h.pages → h₁.mem x = h.mem x

lemma Heap.Split.callFrame {h : Heap} {l owned : List ℕ} (hs : h.Split l owned) {c : AllocCall}
    (hc : c.Allowed owned) : ∃ h' v l', CallFrame h owned c h' v l' := by
  obtain ⟨h', hret, ha, hrep⟩ := hs.represents.call hc
  have hreach := steps_iff_returns.mpr hret
  have hsplit := hrep.split
  have hwritten : ∀ h₁ pc, Steps (h, c.entry) (h₁, pc) → ∀ x, pc.WritesByte x →
      ∃ p ∈ (PageList.call ⟨h.heapEnd, l, owned⟩ c).1.free, p ≤ x ∧ x < p + 8 := by
    rintro h₁ pc hto x ⟨p, hp, hx⟩
    exact ⟨p, Steps.written_free hs hc hreach hsplit.free hto hp, hx⟩
  refine ⟨h', _, _, hret, hreach, hsplit, ha.heapStart, ha.heapEnd, ha.sie, hwritten,
    fun _ _ _ _ => callStep_mem_of_not_writes, ?_⟩
  intro h₁ pc hto x hx
  rw [← ha.pages] at hx
  have hoff := hsplit.off_link_words (hsplit.notMem_free_of hx)
  refine Steps.mem_eq hto fun h₂ pc₂ hto₂ hbyte => ?_
  obtain ⟨p, hp, hlo, hhi⟩ := hwritten h₂ pc₂ hto₂ x hbyte
  have := hoff p hp
  omega

/-- **The allocator and client data do not touch.**  Any allowed call, statement by statement, writes the
link words of pages it leaves free and nothing else.  Conversely, writes to owned pages leave the free list
in memory as it is, and two runs of the same calls, with any client writes before and between them, give the
same results and end with the same free list. -/
theorem client_data (h : Heap) (l owned : List ℕ) (hs : h.Split l owned) :
    (∀ c : AllocCall, c.Allowed owned → ∃ h' v l', CallFrame h owned c h' v l') ∧
    (∀ m : Mem, (∀ x, m x ≠ h.mem x → pageFloor x ∈ owned) → IsChain (nextPage m) 0 h.freeList l) ∧
    ∀ acts₁ acts₂ s₁ s₂, Run ClientStep ⟨h, owned⟩ acts₁ s₁ → Run ClientStep ⟨h, owned⟩ acts₂ s₂ →
      clientCalls acts₁ = clientCalls acts₂ →
      clientResults acts₁ = clientResults acts₂ ∧ s₁.owned = s₂.owned ∧
        s₁.heap.freeList = s₂.heap.freeList ∧ s₁.heap.freePageCount = s₂.heap.freePageCount ∧
        ∃ l', s₁.heap.Split l' s₁.owned ∧ s₂.heap.Split l' s₂.owned := by
  refine ⟨fun c hc => hs.callFrame hc, fun m hm => (hs.write hm).free.chain, ?_⟩
  intro acts₁ acts₂ s₁ s₂ hrun₁ hrun₂ hcalls
  obtain ⟨hres₁, hrep₁⟩ := ClientSys.Represents.run hrun₁ hs.client
  obtain ⟨hres₂, hrep₂⟩ := ClientSys.Represents.run hrun₂ hs.client
  rw [hcalls] at hres₁ hrep₁
  have hsplit₁ := hrep₁.heap.split
  have hsplit₂ := hrep₂.heap.split
  rw [← hrep₁.owned] at hsplit₁
  rw [← hrep₂.owned] at hsplit₂
  exact ⟨hres₁.trans hres₂.symm, hrep₁.owned.trans hrep₂.owned.symm,
    hsplit₁.free.chain.head_eq hsplit₂.free.chain, hsplit₁.free.count.trans hsplit₂.free.count.symm,
    _, hsplit₁, hsplit₂⟩

/-- In a heap of two pages a client owns the first, and the second is handed out; the first is given back. -/
theorem client_data_two_pages : ∃ h, Heap.Split h [0x87FFB000] [0x87FFA000] ∧
    (∃ h' l', CallFrame h [0x87FFA000] (.memAlloc 4096) h' 0x87FFB000 l') ∧
    ∃ h' v l', CallFrame h [0x87FFA000] (.memFree (0x87FFA000 + virtOffset)) h' v l' := by
  have hsplit := twoPageLayout.boot_split (fun _ => 0) true
  obtain ⟨hhead, hcount⟩ := twoPageLayout_boot (fun _ => 0) true
  obtain ⟨h, hret⟩ : ∃ h, MemAllocReturns (twoPageLayout.boot (fun _ => 0) true) 4096 (h, 0x87FFA000) := by
    rw [← hhead]
    exact ⟨_, 0, memAlloc_one (by decide) (by decide) (by omega) 0⟩
  obtain ⟨hnull, -⟩ | ⟨-, hpages, l, hs⟩ := hsplit.alloc_returns hret
  · exact absurd hnull (by decide)
  have hperm := hs.perm
  rw [hpages, twoPageLayout_pages] at hperm
  obtain rfl : l = [0x87FFB000] := List.perm_singleton.mp ((List.perm_append_right_iff [0x87FFA000]).mp
    (hperm.trans (List.Perm.swap ..)))
  obtain ⟨hframe, -⟩ := client_data _ _ _ hs
  obtain ⟨h', v, l', halloc⟩ := hframe (.memAlloc 4096) (show 4096 < 2 ^ 32 by decide)
  have hv : v = 0x87FFB000 := by
    cases halloc.returns with
    | alloc hr =>
        have hone : h.freePageCount = 1 := hs.free.count
        have hret' : memAlloc 0 h 4096 = _ := memAlloc_one (by decide) (by decide) (by omega) 0
        exact (Prod.mk.inj (hr.unique ⟨0, hret'⟩)).2.trans hs.free.chain.1
  exact ⟨_, hs, ⟨h', l', hv ▸ halloc⟩, hframe _ (show virtToPhys (0x87FFA000 + virtOffset) ∈ [0x87FFA000] by decide)⟩

end NetStack
