import NetStack.System.Isolation
import NetStack.Memory.SoftwareWalk

/-!
# What isolation is good for

Two consequences for the parts of the kernel that rely on memory of their own.  A process that leaves something on its
stack finds it there, however often it is switched out and whatever runs in the meantime (`stack_read_back`); and
what the page tables translate is a function of the calls of `map_page`, so that processes, packets and devices have
no influence on it (`translation_of_calls`).
-/

namespace NetStack

open ByteMem Transition Ownership

namespace Isolation

section

variable {forkret : ℕ} {s s' s₀ : State} {es : List Event}

/-! ## Stacks -/

/-- A slot keeps its stack. -/
lemma stack_kept {k : Slot} {x : ℕ} (hx : x ∈ s.own (.stack k)) (hx' : x ∈ s'.own (.stack k)) :
    Table.Used s'.procs k ∧ (s'.procs k).stack = (s.procs k).stack := by
  have hpage : ∀ {t : State}, x ∈ t.own (.stack k) → Table.Used t.procs k ∧ (t.procs k).stack = pageFloor x := by
    intro t ht
    rcases mem_ledger.mp ht with ⟨hp, -⟩ | ⟨hp, -⟩ | ⟨j, hp, hj, hstack⟩ | ⟨hp, -⟩
    · simp at hp
    · simp at hp
    · obtain rfl := Party.stack.inj hp
      exact ⟨hj, hstack⟩
    · simp at hp
  exact ⟨(hpage hx').1, (hpage hx').2.trans (hpage hx).2.symm⟩

/-- A stack begins at a page. -/
lemma Inv.stack_mem_own (h : Inv s) {k : Slot} (hused : Table.Used s.procs k) :
    (s.procs k).stack ∈ s.own (.stack k) := by
  obtain ⟨l, T, hsound⟩ := h.sound
  have hmem : (s.procs k).stack ∈ s.tableSys.live.flatten ++
      (s.tableSys.rootPages ++ (Table.stackPages s.procs ++ s.taken)) ++ s.tableSys.tables := by
    have hstack := Table.mem_stackPages_of_used hused
    simp only [List.mem_append]
    tauto
  have hal := ((hsound.split.split.isPage_owned hmem).bounds hsound.split.split.bounded).1
  have hfloor : pageFloor (s.procs k).stack = (s.procs k).stack := by
    simp only [pageFloor, pageSize_eq]
    omega
  exact mem_ledger.mpr (.inr (.inr (.inl ⟨k, rfl, hused, hfloor.symm⟩)))

end

/-- **A process reads back what it left on its stack.**  From any state that is reached on, whatever else runs: the process
stays, its stack stays where it is, and each byte of it is what the process wrote there last, or what was there
before. -/
theorem stack_read_back (forkret : ℕ) (s₀ s s' : State) (es es' : List Event) (hstart : Start s₀)
    (hrun : Run (Step forkret) s₀ es s) (hrun' : Run (Step forkret) s es' s') (k : Slot) (hused : Table.Used s.procs k) :
    Table.Used s'.procs k ∧ (s'.procs k).stack = (s.procs k).stack ∧ ∀ x, pageFloor x = (s.procs k).stack →
      s'.net.heap.mem x = (written (put (.stack k)) es' x).getD (s.net.heap.mem x) := by
  have h := (inv_of_run hstart hrun).1
  have hquiet : ∀ e ∈ es', Quiet (.stack k) e := fun _ _ _ => ⟨k, rfl⟩
  have hbase := h.stack_mem_own hused
  obtain ⟨hused', hstack⟩ := stack_kept hbase ((owner forkret (.stack k)).read_back hrun' h hquiet hbase).1
  refine ⟨hused', hstack, fun x hx => ?_⟩
  have hown : x ∈ s.own (.stack k) := mem_ledger.mpr (.inr (.inr (.inl ⟨k, rfl, hused, hx.symm⟩)))
  exact ((owner forkret (.stack k)).read_back hrun' h hquiet hown).2

/-- The first process writes a byte to its stack. -/
theorem stack_read_back_first : ∃ s s' k x, Run (Step 0x80200000) s [.process (.push k x 7)] s' ∧
    s'.net.heap.mem x = 7 := by
  obtain ⟨s₀, hstart, hfree, hnone⟩ := exists_start
  obtain ⟨s, s', k, x, hrun, hused, hx, hrun', -⟩ :=
    hstart.inv.first_process (n := 4) 0x80200000 hfree hnone ⟨some 0x80201000, none⟩ 7
  refine ⟨s, s', k, x, hrun', ?_⟩
  rw [(stack_read_back 0x80200000 s₀ s s' _ _ hstart hrun hrun' k hused).2.2 x hx]
  simp [written, put]

/-! ## Address translation -/

/-- The calls of `map_page`, in order. -/
def mapEvents (es : List Event) : List MapCall :=
  es.filterMap fun e => match e with
    | .map c => some c
    | _ => none

section

variable {forkret : ℕ} {s s' s₀ : State} {es : List Event}

/-- The calls are logged. -/
lemma log_of_events (hrun : Run (Step forkret) s es s') : s'.log = (mapEvents es).reverse ++ s.log := by
  induction hrun with
  | nil s => rfl
  | cons hstep _ ih =>
      cases hstep with
      | map hstep =>
          cases hstep with
          | map => simpa [mapEvents, State.tableSys] using ih
      | _ => simpa [mapEvents] using ih

lemma Start.log_eq (h : Start s) : s.log = [] := by
  cases h with
  | mk procs hpt => exact hpt.log_eq

/-- **What the hardware makes of the tables**: the gigapages, and else the latest call for the page. -/
lemma sv39_of_run (hstart : Start s₀) (hrun : Run (Step forkret) s₀ es s) {va : ℕ} (hcan : Sv39.Canonical va) :
    sv39 s.net.heap.mem (satpValue s.root) va =
      if InGigapage va then some ⟨0x80000000 + va % 2 ^ 30, true, true, true⟩
      else Sv39.lastLevel va (leafEntry ((mapEvents es).reverse.find? fun c => samePage c.va va)) := by
  obtain ⟨l, T, hsound⟩ := (inv_of_run hstart hrun).1.sound
  have hlog : s.log = (mapEvents es).reverse := by
    rw [log_of_events hrun, hstart.log_eq, List.append_nil]
  split_ifs with hin
  · exact hsound.sv39_giga hcan hin
  · have hlast := hsound.sv39_last hcan hin
    rw [lookupPath_pathOf] at hlast
    rw [← hlog]
    exact hlast

end

/-- **Translation depends on the calls of `map_page` alone.**  Two runs with the same calls in the same order, on whatever
memory and among whatever else, translate each canonical address alike: to the same physical address with the same
permissions, or to a fault. -/
theorem translation_of_calls (forkret forkret' : ℕ) (s₀ s t₀ t : State) (es fs : List Event) (hs : Start s₀)
    (hrun : Run (Step forkret) s₀ es s) (ht : Start t₀) (hrun' : Run (Step forkret') t₀ fs t)
    (hcalls : mapEvents es = mapEvents fs) (va : ℕ) (hcan : Sv39.Canonical va) :
    sv39 s.net.heap.mem (satpValue s.root) va = sv39 t.net.heap.mem (satpValue t.root) va := by
  rw [sv39_of_run hs hrun hcan, sv39_of_run ht hrun' hcan, hcalls]

/-- The UART is mapped, and it does not matter that a process has been created and has written to its stack. -/
theorem translation_of_calls_process : ∃ (s₀ s t : State) (k : Slot) (x : ℕ),
    Run (Step 0x80200000) s₀ [.process (.create ⟨some 0x80201000, none⟩), .process (.push k x 7), .map uartCall] s ∧
      Run (Step 0x80200000) s₀ [.map uartCall] t ∧
      sv39 t.net.heap.mem (satpValue t.root) 0x10000000 = some ⟨0x10000000, true, true, true⟩ ∧
      sv39 s.net.heap.mem (satpValue s.root) 0x10000000 = sv39 t.net.heap.mem (satpValue t.root) 0x10000000 := by
  obtain ⟨s₀, hstart, hfree, hnone⟩ := exists_start
  obtain ⟨s₁, s₂, k, x, hrun, -, -, hrun', -, -, hcount⟩ :=
    hstart.inv.first_process (n := 4) 0x80200000 hfree hnone ⟨some 0x80201000, none⟩ 7
  have hall := hrun.append hrun'
  obtain ⟨s, hmap⟩ := (inv_of_run hstart hall).1.maps 0x80200000 (by omega) (c := uartCall) (by decide) (by decide)
    (by decide) (by decide)
  obtain ⟨t, hmap'⟩ := hstart.inv.maps 0x80200000 (by omega) (c := uartCall) (by decide) (by decide) (by decide)
    (by decide)
  have huart : sv39 t.net.heap.mem (satpValue t.root) 0x10000000 = some ⟨0x10000000, true, true, true⟩ := by
    rw [sv39_of_run hstart hmap' (by decide)]
    decide
  exact ⟨s₀, s, t, k, x, hall.append hmap, hmap', huart, translation_of_calls 0x80200000 0x80200000 s₀ s s₀ t _ _ hstart
    (hall.append hmap) hstart hmap' rfl 0x10000000 (by decide)⟩

end Isolation

end NetStack
