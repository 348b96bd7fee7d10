import NetStack.Memory.AllocatorSteps
import NetStack.Memory.Partition

/-!
# The allocator without its memory

What `mem.c` is for, with nothing of how it does it: a list of free pages in the order in which they will
be tried, and the pages clients own.  `PageList.call` answers a call from these two lists alone.

`Heap.Represents` says that a heap, free list, link words and counter, stands for such a state.  Calls keep
it and answer alike (`Heap.Represents.call`), and so does anything a client writes to its pages
(`Heap.Represents.write`); hence a whole run of calls, with client writes between them, answers as the
lists do (`ClientSys.Represents.run`), whatever has been written.
-/

namespace NetStack

open ByteMem LinkedChain Transition

/-! ## The lists -/

/-- The end of the heap, the free pages in list order, and the pages clients own. -/
structure PageList where
  heapEnd : ℕ
  free : List ℕ
  owned : List ℕ

/-- The pages clients own once a call has returned `result`. -/
def AllocCall.ownedAfter (owned : List ℕ) (result : ℕ) : AllocCall → List ℕ
  | .memAlloc size => if result = 0 then owned else blockPages result (pageCount size) ++ owned
  | .memFree page => owned.erase (virtToPhys page)

/-- What a call leaves free, and its result. -/
def PageList.answer (s : PageList) : AllocCall → List ℕ × ℕ
  | .memAlloc size =>
      if size = 0 then (s.free, 0)
      else match takeRun s.heapEnd (pageCount size) s.free with
        | none => (s.free, 0)
        | some (start, rest) => (rest, start)
  | .memFree page => (virtToPhys page :: s.free, 0)

/-- A call. -/
def PageList.call (s : PageList) (c : AllocCall) : PageList × ℕ :=
  ({ s with free := (s.answer c).1, owned := c.ownedAfter s.owned (s.answer c).2 }, (s.answer c).2)

/-- Calls one after the other: the state they leave and their results. -/
def PageList.run (s : PageList) : List AllocCall → PageList × List ℕ
  | [] => (s, [])
  | c :: cs => (((s.call c).1.run cs).1, (s.call c).2 :: ((s.call c).1.run cs).2)

/-- The calls a client may make: any request, and freeing a page that is owned, by either of its addresses. -/
def AllocCall.Allowed (owned : List ℕ) : AllocCall → Prop
  | .memAlloc size => size < 2 ^ 32
  | .memFree page => virtToPhys page ∈ owned

/-! ## A heap stands for its lists -/

/-- The free list in memory is `s.free`, and with `s.owned` it makes up the heap. -/
structure Heap.Represents (h : Heap) (s : PageList) : Prop where
  split : h.Split s.free s.owned
  heapEnd : h.heapEnd = s.heapEnd

section Represents

variable {h : Heap} {s : PageList}

lemma Heap.Split.represents {l owned : List ℕ} (hs : h.Split l owned) :
    h.Represents ⟨h.heapEnd, l, owned⟩ := ⟨hs, rfl⟩

lemma Heap.Allocated.refl {l : List ℕ} (hl : h.Free l) : h.Allocated h l := ⟨hl, rfl, rfl, rfl, fun _ _ => rfl⟩

/-- An owned page passes the guard of `mem_free`. -/
lemma Heap.Split.not_rejects {l owned : List ℕ} (hs : h.Split l owned) {page : ℕ}
    (hp : virtToPhys page ∈ owned) : ¬ freeRejects h page := by
  obtain ⟨hal, hlo, hhi⟩ := hs.isPage_owned hp
  have hpos := hs.bounded.startPos
  rw [freeRejects_iff]
  rintro (rfl | hlt | hge | hne)
  · rw [virtToPhys_of_lt (by decide)] at hlo
    omega
  · omega
  · omega
  · exact hne hal

/-- **One call** gives the answer of the lists, and leaves a heap that stands for what they leave. -/
lemma Heap.Represents.call (hr : h.Represents s) {c : AllocCall} (hc : c.Allowed s.owned) :
    ∃ h', CallReturns h c (h', (s.call c).2) ∧ h.Allocated h' (s.call c).1.free ∧ h'.Represents (s.call c).1 := by
  cases c with
  | memAlloc size =>
      by_cases hz : size = 0
      · -- `mem_alloc(0)` changes nothing
        have hcall : s.call (.memAlloc size) = (s, 0) := by
          simp [PageList.call, PageList.answer, AllocCall.ownedAfter, hz]
        rw [hcall]
        exact ⟨h, .alloc ⟨0, hz ▸ memAlloc_zero 0 h⟩, .refl hr.split.free, hr⟩
      have hspec := memAlloc_spec hr.split.bounded hr.split.free (Nat.pos_of_ne_zero hz)
      rw [hr.heapEnd] at hspec
      cases ht : takeRun s.heapEnd (pageCount size) s.free with
      | none =>
          rw [ht] at hspec
          have hcall : s.call (.memAlloc size) = (s, 0) := by
            simp [PageList.call, PageList.answer, AllocCall.ownedAfter, hz, ht]
          rw [hcall]
          exact ⟨h, .alloc hspec, .refl hr.split.free, hr⟩
      | some res =>
          obtain ⟨start, rest⟩ := res
          rw [ht] at hspec
          obtain ⟨h', hret, ha⟩ := hspec
          obtain ⟨hne, hsplit⟩ := hr.split.took ht ha
          have hcall : s.call (.memAlloc size)
              = ({ s with free := rest, owned := blockPages start (pageCount size) ++ s.owned }, start) := by
            simp [PageList.call, PageList.answer, AllocCall.ownedAfter, hz, ht, hne]
          rw [hcall]
          exact ⟨h', .alloc hret, ha, hsplit, ha.heapEnd.trans hr.heapEnd⟩
  | memFree page =>
      obtain ⟨ha, hsplit⟩ := hr.split.memFree (hr.split.not_rejects hc) rfl (List.perm_cons_erase hc)
      exact ⟨memFree h page, .free h page, ha, hsplit, ha.heapEnd.trans hr.heapEnd⟩

/-- **Client writes** stay in owned pages, and are of no consequence. -/
lemma Heap.Represents.write (hr : h.Represents s) {m : Mem}
    (hw : ∀ x, m x ≠ h.mem x → pageFloor x ∈ s.owned) : Heap.Represents { h with mem := m } s :=
  ⟨hr.split.write hw, hr.heapEnd⟩

end Represents

/-! ## Clients -/

/-- The heap and the pages clients own. -/
structure ClientSys where
  heap : Heap
  owned : List ℕ

/-- A completed call with its result, or a change of memory. -/
inductive ClientAct where
  | call (c : AllocCall) (result : ℕ)
  | write (m : Mem)

/-- One step: an allowed call, or anything written to owned pages. -/
inductive ClientStep : ClientSys → ClientAct → ClientSys → Prop
  | call {s : ClientSys} {c : AllocCall} {h' : Heap} {v : ℕ} (hc : c.Allowed s.owned)
      (hret : CallReturns s.heap c (h', v)) : ClientStep s (.call c v) ⟨h', c.ownedAfter s.owned v⟩
  | write {s : ClientSys} {m : Mem} (hw : ∀ x, m x ≠ s.heap.mem x → pageFloor x ∈ s.owned) :
      ClientStep s (.write m) ⟨{ s.heap with mem := m }, s.owned⟩

/-- The calls of a run, in order. -/
def clientCalls : List ClientAct → List AllocCall
  | [] => []
  | .call c _ :: acts => c :: clientCalls acts
  | .write _ :: acts => clientCalls acts

/-- The results of these calls. -/
def clientResults : List ClientAct → List ℕ
  | [] => []
  | .call _ v :: acts => v :: clientResults acts
  | .write _ :: acts => clientResults acts

/-- The heap stands for the lists `a`, and the owned pages are theirs. -/
structure ClientSys.Represents (s : ClientSys) (a : PageList) : Prop where
  heap : s.heap.Represents a
  owned : s.owned = a.owned

lemma Heap.Split.client {h : Heap} {l owned : List ℕ} (hs : h.Split l owned) :
    ClientSys.Represents ⟨h, owned⟩ ⟨h.heapEnd, l, owned⟩ := ⟨hs.represents, rfl⟩

/-- One call of a run. -/
lemma ClientSys.Represents.call {s s' : ClientSys} {a : PageList} {c : AllocCall} {v : ℕ}
    (hr : s.Represents a) (hstep : ClientStep s (.call c v) s') :
    v = (a.call c).2 ∧ s'.Represents (a.call c).1 := by
  cases hstep with
  | call hc hret =>
      obtain ⟨h'', hret', -, hrep⟩ := hr.heap.call (hr.owned ▸ hc)
      obtain ⟨rfl, rfl⟩ := Prod.mk.inj (hret.unique hret')
      exact ⟨rfl, hrep, congrArg (fun o => c.ownedAfter o _) hr.owned⟩

lemma ClientSys.Represents.write {s s' : ClientSys} {a : PageList} {m : Mem} (hr : s.Represents a)
    (hstep : ClientStep s (.write m) s') : s'.Represents a := by
  cases hstep with
  | write hw => exact ⟨hr.heap.write fun x hx => hr.owned ▸ hw x hx, hr.owned⟩

/-- **A run answers as the lists do**, whatever the clients write in between. -/
theorem ClientSys.Represents.run {s s' : ClientSys} {acts : List ClientAct} (hrun : Run ClientStep s acts s') :
    ∀ {a : PageList}, s.Represents a →
      clientResults acts = (a.run (clientCalls acts)).2 ∧ s'.Represents (a.run (clientCalls acts)).1 := by
  induction hrun with
  | nil s => exact fun hr => ⟨rfl, hr⟩
  | @cons s s₁ s' act acts hstep hrun ih =>
      intro a hr
      cases act with
      | call c v =>
          obtain ⟨hv, hr₁⟩ := hr.call hstep
          obtain ⟨hres, hr'⟩ := ih hr₁
          exact ⟨congrArg₂ List.cons hv hres, hr'⟩
      | write m => exact ih (hr.write hstep)

end NetStack
