import NetStack.Memory.AllocatorSteps
import NetStack.Lib.Transition

/-!
# Allocator calls under preemption

One hart, any number of processes.  Each process runs calls of `mem_alloc` and `mem_free`, statement by
statement; between any two statements, while `sstatus.SIE` is set, a timer interrupt may give the hart
to another process, and the interrupt-enable state of the process it takes it from comes back with it.
Between calls a process may also change `SIE` and give up the hart by itself.

`allocator_calls_atomic`: what the processes see is what they would see if their calls had been made one
after the other, and every call leaves `SIE` as it found it.
-/

namespace NetStack

open Transition Relation

variable {ι : Type} [DecidableEq ι]

/-! ## The hart -/

/-- A call in progress: `SIE` when it was made, and the next statement. -/
structure Thread where
  call : AllocCall
  entrySie : Bool
  pc : Pc

/-- A completed call: who made it, what it returned, and `SIE` before and after it. -/
structure Done (ι : Type) where
  process : ι
  call : AllocCall
  result : ℕ
  entrySie : Bool
  exitSie : Bool
  deriving DecidableEq

/-- The hart: the heap and `SIE`, whose turn it is, what each process is doing, the `SIE` saved for
the others, and the calls completed so far, oldest first. -/
structure Hart (ι : Type) where
  heap : Heap
  running : ι
  thread : ι → Option Thread
  saved : ι → Bool
  log : List (Done ι)

/-- What can happen. -/
inductive HartAct (ι : Type)
  | call (c : AllocCall)
  | step
  | ret
  | setSie (b : Bool)
  | interrupt (q : ι) (b : Bool)
  | yield (q : ι) (b : Bool)

/-- The hart goes to `q`.  A process in the middle of a call was taken off by an interrupt, and the
return from it restores its `SIE`; one between calls has whatever `SIE` its code has left. -/
def Hart.switch (s : Hart ι) (q : ι) (b : Bool) : Hart ι :=
  let saved := Function.update s.saved s.running s.heap.sie
  { s with
    running := q
    saved := saved
    heap := { s.heap with sie := if (s.thread q).isSome then saved q else b } }

inductive HartStep : Hart ι → HartAct ι → Hart ι → Prop
  | call {s : Hart ι} (c : AllocCall) (h : s.thread s.running = none) :
      HartStep s (.call c) { s with
        thread := Function.update s.thread s.running (some ⟨c, s.heap.sie, c.entry⟩) }
  | step {s : Hart ι} {t : Thread} (h : s.thread s.running = some t) (hpc : ∀ v, t.pc ≠ .ret v) :
      HartStep s .step { s with
        heap := (callStep s.heap t.pc).1
        thread := Function.update s.thread s.running
          (some { t with pc := (callStep s.heap t.pc).2 }) }
  | ret {s : Hart ι} {t : Thread} {v : ℕ} (h : s.thread s.running = some t) (hpc : t.pc = .ret v) :
      HartStep s .ret { s with
        thread := Function.update s.thread s.running none
        log := s.log ++ [⟨s.running, t.call, v, t.entrySie, s.heap.sie⟩] }
  | setSie {s : Hart ι} (b : Bool) (h : s.thread s.running = none) :
      HartStep s (.setSie b) { s with heap := { s.heap with sie := b } }
  | interrupt {s : Hart ι} (q : ι) (b : Bool) (h : s.heap.sie = true) :
      HartStep s (.interrupt q b) (s.switch q b)
  | yield {s : Hart ι} (q : ι) (b : Bool) (h : s.thread s.running = none) :
      HartStep s (.yield q b) (s.switch q b)

/-- Before any call. -/
def Hart.start (h : Heap) (p : ι) : Hart ι := ⟨h, p, fun _ => none, fun _ => false, []⟩

/-- A call made alone, with the `SIE` its caller had. -/
def SeqCall (h : Heap) (d : Done ι) (h' : Heap) : Prop :=
  CallReturns { h with sie := d.entrySie } d.call (h', d.result)

/-! ## Where a call can be interrupted -/

/-- Between `allocator_intr_off` and `allocator_intr_restore`, the saved status. -/
def Pc.status : Pc → Option Bool
  | .allocCheck _ b | .allocSingle _ b | .pop b | .popHead b _ | .popCount b _
  | .searchInit _ b | .searchTest _ b _ | .searchRange _ b _ | .scanInit _ b _
  | .scanTest _ b _ _ _ | .scanCount _ b _ _ _ | .scanNext _ b _ _ _ | .scanDone _ b _ _
  | .searchNext _ b _ | .unlinkInit _ b _ | .unlinkTest _ b _ _ | .unlinkBody _ b _ _ _
  | .unlinkCount _ b _ | .freeLink b _ | .freeHead b _ | .freeCount b | .restore b _ => some b
  | _ => none

/-- The statements before `allocator_intr_off`.  Of the heap they read its bounds only. -/
inductive Before (h : Heap) : AllocCall → Pc → Prop
  | entry (c : AllocCall) : Before h c c.entry
  | allocCount {size : ℕ} (hs : size ≠ 0) : Before h (.memAlloc size) (.allocCount size)
  | allocOff {size : ℕ} (hs : size ≠ 0) : Before h (.memAlloc size) (.allocOff (pageCount size))
  | freeOff {page : ℕ} (hr : ¬ freeRejects h page) : Before h (.memFree page) (.freeOff page)

/-- The heap's bounds. -/
def Heap.SameBounds (h h' : Heap) : Prop := h'.heapStart = h.heapStart ∧ h'.heapEnd = h.heapEnd

lemma Heap.SameBounds.freeRejects {h h' : Heap} (hb : h.SameBounds h') (page : ℕ) :
    freeRejects h' page ↔ freeRejects h page := by
  simp only [NetStack.freeRejects, hb.1, hb.2]

lemma Heap.sameBounds_setCount (h : Heap) (n : ℕ) : h.SameBounds { h with freePageCount := n } :=
  ⟨rfl, rfl⟩

lemma callStep_bounds (h : Heap) (pc : Pc) : h.SameBounds (callStep h pc).1 := by
  cases pc with
  | popCount | unlinkCount | freeCount => exact h.sameBounds_setCount _
  | restore status v => exact ⟨allocatorIntrRestore_heapStart .., allocatorIntrRestore_heapEnd ..⟩
  | unlinkBody count status start link addr =>
      simp only [callStep]
      split_ifs
      · cases link <;> exact ⟨rfl, rfl⟩
      · exact ⟨rfl, rfl⟩
  | _ => exact ⟨rfl, rfl⟩

lemma Steps.bounds {c c' : Heap × Pc} (hs : Steps c c') : c.1.SameBounds c'.1 := by
  induction hs with
  | refl => exact ⟨rfl, rfl⟩
  | @tail b _ _ hstep ih =>
      have hb := callStep_bounds b.1 b.2
      rw [← hstep] at hb
      exact ⟨hb.1.trans ih.1, hb.2.trans ih.2⟩

lemma Before.steps {h₀ h : Heap} {c : AllocCall} {pc : Pc} (hb : h₀.SameBounds h)
    (hp : Before h₀ c pc) : Steps (h, c.entry) (h, pc) := by
  cases hp with
  | entry => exact .refl
  | @allocCount size hs =>
      refine .single ?_
      simp [callStep, AllocCall.entry, hs]
  | @allocOff size hs =>
      refine .tail (.single (b := (h, .allocCount size)) ?_) ?_
      · simp [callStep, AllocCall.entry, hs]
      · rfl
  | @freeOff page hr =>
      refine .single ?_
      simp [callStep, AllocCall.entry, hb.freeRejects, hr]

/-- **A statement outside the critical section** changes nothing; it leads to another one, to a
return, or into the critical section. -/
lemma Before.next {h₀ h : Heap} {c : AllocCall} {pc : Pc} (hb : h₀.SameBounds h)
    (hp : Before h₀ c pc) :
    ((callStep h pc).1 = h ∧ Before h₀ c (callStep h pc).2) ∨
      ((callStep h pc).1 = h ∧ ∃ v, (callStep h pc).2 = .ret v) ∨
      ((callStep h pc).1.sie = false ∧ (callStep h pc).2.status = some h.sie) := by
  cases hp with
  | entry =>
      cases c with
      | memAlloc size =>
          by_cases hs : size = 0
          · exact .inr (.inl ⟨rfl, 0, by simp [callStep, AllocCall.entry, hs]⟩)
          · refine .inl ⟨rfl, ?_⟩
            simp only [callStep, AllocCall.entry, if_neg hs]
            exact .allocCount hs
      | memFree page =>
          by_cases hr : freeRejects h₀ page
          · exact .inr (.inl ⟨rfl, 0, by simp [callStep, AllocCall.entry, hb.freeRejects, hr]⟩)
          · refine .inl ⟨rfl, ?_⟩
            simp only [callStep, AllocCall.entry, hb.freeRejects, if_neg hr]
            exact .freeOff hr
  | allocCount hs => exact .inl ⟨rfl, .allocOff hs⟩
  | allocOff => exact .inr (.inr ⟨rfl, rfl⟩)
  | freeOff => exact .inr (.inr ⟨rfl, rfl⟩)

/-- **A statement of the critical section** stays in it, with interrupts masked, or ends it. -/
lemma critical_next {h : Heap} {pc : Pc} {status : Bool} (hpc : pc.status = some status)
    (hs : h.sie = false) :
    ((callStep h pc).1.sie = false ∧ (callStep h pc).2.status = some status) ∨
      ((∃ v, (callStep h pc).2 = .ret v) ∧ (callStep h pc).1.sie = status) := by
  cases pc with
  | restore b v =>
      obtain rfl : b = status := Option.some.inj hpc
      refine .inr ⟨⟨v, rfl⟩, ?_⟩
      cases b <;> simp [callStep, allocatorIntrRestore, hs]
  | allocCheck count b =>
      refine .inl ⟨hs, ?_⟩
      simp only [callStep]
      split_ifs <;> exact hpc
  | allocSingle count b =>
      refine .inl ⟨hs, ?_⟩
      simp only [callStep]
      split_ifs <;> exact hpc
  | searchTest count b first =>
      refine .inl ⟨hs, ?_⟩
      simp only [callStep]
      split_ifs <;> exact hpc
  | searchRange count b first =>
      refine .inl ⟨hs, ?_⟩
      simp only [callStep]
      split_ifs <;> exact hpc
  | scanTest count b first page found =>
      refine .inl ⟨hs, ?_⟩
      simp only [callStep]
      split_ifs <;> exact hpc
  | scanDone count b first found =>
      refine .inl ⟨hs, ?_⟩
      simp only [callStep]
      split_ifs <;> exact hpc
  | unlinkTest count b start link =>
      refine .inl ⟨hs, ?_⟩
      simp only [callStep]
      split_ifs <;> exact hpc
  | unlinkBody count b start link addr =>
      refine .inl ?_
      simp only [callStep]
      split_ifs
      · cases link <;> exact ⟨hs, hpc⟩
      · exact ⟨hs, hpc⟩
  | allocEntry => exact absurd hpc (by simp [Pc.status])
  | allocCount => exact absurd hpc (by simp [Pc.status])
  | allocOff => exact absurd hpc (by simp [Pc.status])
  | freeEntry => exact absurd hpc (by simp [Pc.status])
  | freeOff => exact absurd hpc (by simp [Pc.status])
  | ret => exact absurd hpc (by simp [Pc.status])
  | _ =>
      simp only [Pc.status, Option.some.injEq] at hpc
      exact .inl (by simp only [callStep, hs, Pc.status, hpc, and_self])

/-! ## The running call -/

/-- Where the running process is, relative to the heap `H` that the calls that have taken effect leave:
between calls, before the critical section, inside it, or at the `return`. -/
inductive Running (h₀ H : Heap) (h : Heap) : Option Thread → Prop
  | idle (heap : h = { H with sie := h.sie }) : Running h₀ H h none
  | before {t : Thread} (pc : Before h₀ t.call t.pc) (heap : h = { H with sie := t.entrySie }) :
      Running h₀ H h (some t)
  | critical {t : Thread} (pc : t.pc.status = some t.entrySie) (masked : h.sie = false)
      (steps : Steps ({ H with sie := t.entrySie }, t.call.entry) (h, t.pc)) :
      Running h₀ H h (some t)
  | ret {t : Thread} {v : ℕ} (pc : t.pc = .ret v) (heap : h = { H with sie := t.entrySie }) :
      Running h₀ H h (some t)

/-- **One statement of the running call** takes no effect on the others, or it is the one with which
the call takes effect as a whole. -/
lemma Running.step {h₀ H h : Heap} {t : Thread} (hr : Running h₀ H h (some t))
    (hb : h₀.SameBounds H) (hpc : ∀ v, t.pc ≠ .ret v) :
    (Running h₀ H (callStep h t.pc).1 (some { t with pc := (callStep h t.pc).2 }) ∧
        ∀ v, (callStep h t.pc).2 ≠ .ret v) ∨
      ∃ v, (callStep h t.pc).2 = .ret v ∧ (callStep h t.pc).1.sie = t.entrySie ∧
        Steps ({ H with sie := t.entrySie }, t.call.entry) ((callStep h t.pc).1, .ret v) := by
  cases hr with
  | before hbefore heap =>
      have hbh : h₀.SameBounds h := by rw [heap]; exact hb
      have hsteps : Steps ({ H with sie := t.entrySie }, t.call.entry) (callStep h t.pc) := by
        rw [← heap]
        exact (hbefore.steps hbh).tail rfl
      rcases hbefore.next hbh with ⟨hh, hnext⟩ | ⟨hh, v, hv⟩ | ⟨hsie, hstatus⟩
      · refine .inl ⟨.before hnext (hh.trans heap), ?_⟩
        intro v hv
        simp only [hv] at hnext
        cases hc : t.call <;> rw [hc] at hnext <;> cases hnext
      · refine .inr ⟨v, hv, ?_, ?_⟩
        · rw [hh, heap]
        · rw [← hv]
          exact hsteps
      · refine .inl ⟨.critical ?_ hsie hsteps, ?_⟩
        · rw [hstatus, heap]
        · intro v hv
          rw [hv] at hstatus
          exact absurd hstatus (by simp [Pc.status])
  | critical hstatus masked hsteps =>
      have hsteps' := hsteps.tail rfl
      rcases critical_next hstatus masked with ⟨hsie, hnext⟩ | ⟨⟨v, hv⟩, hsie⟩
      · refine .inl ⟨.critical hnext hsie hsteps', ?_⟩
        intro v hv
        rw [hv] at hnext
        exact absurd hnext (by simp [Pc.status])
      · refine .inr ⟨v, hv, hsie, ?_⟩
        rw [← hv]
        exact hsteps'
  | ret hret => exact absurd hret (hpc _)

/-! ## The order of the calls -/

/-- The call of `p` that has taken effect and not yet returned, if there is one. -/
def effected (p : ι) : Option Thread → List (Done ι)
  | some ⟨c, sie, .ret v⟩ => [⟨p, c, v, sie, sie⟩]
  | _ => []

omit [DecidableEq ι] in
@[simp] lemma effected_none (p : ι) : effected p none = [] := rfl

omit [DecidableEq ι] in
lemma effected_ret {p : ι} {t : Thread} {v : ℕ} (h : t.pc = .ret v) :
    effected p (some t) = [⟨p, t.call, v, t.entrySie, t.entrySie⟩] := by
  cases t
  subst h
  rfl

omit [DecidableEq ι] in
lemma effected_eq_nil {p : ι} {t : Thread} (h : ∀ v, t.pc ≠ .ret v) : effected p (some t) = [] := by
  rcases t with ⟨c, sie, pc⟩
  cases pc with
  | ret v => exact absurd rfl (h v)
  | _ => rfl

/-- What the invariant says of a process that is not running: it is not in a critical section. -/
def Waiting (h₀ : Heap) (saved : Bool) (t : Thread) : Prop :=
  saved = t.entrySie ∧ (Before h₀ t.call t.pc ∨ ∃ v, t.pc = .ret v)

/-- The calls that have taken effect, in the order in which they did, run one after the other to `H`. -/
structure Linear (h₀ : Heap) (order : List (Done ι)) (H : Heap) (s : Hart ι) : Prop where
  run : Run SeqCall h₀ order H
  calls : ∀ p, order.filter (·.process = p) =
    s.log.filter (·.process = p) ++ effected p (s.thread p)
  sieKept : ∀ d ∈ s.log, d.exitSie = d.entrySie
  bounds : h₀.SameBounds H
  running : Running h₀ H s.heap (s.thread s.running)
  parked : ∀ q, q ≠ s.running → ∀ t, s.thread q = some t → Waiting h₀ (s.saved q) t

lemma linear_start (h : Heap) (p : ι) : Linear h [] h (Hart.start h p) where
  run := .nil h
  calls := fun _ => rfl
  sieKept := by simp [Hart.start]
  bounds := ⟨rfl, rfl⟩
  running := .idle rfl
  parked := by simp [Hart.start]

/-- The processes that do not run are not touched by what the running one does. -/
lemma parked_update {h₀ : Heap} {s : Hart ι} {o : Option Thread}
    (hp : ∀ q, q ≠ s.running → ∀ t, s.thread q = some t → Waiting h₀ (s.saved q) t) :
    ∀ q, q ≠ s.running → ∀ t, Function.update s.thread s.running o q = some t →
      Waiting h₀ (s.saved q) t := by
  intro q hq t ht
  rw [Function.update_of_ne hq] at ht
  exact hp q hq t ht

/-- Replacing the running thread changes the effected calls of its process only. -/
lemma calls_update {order : List (Done ι)} {s : Hart ι} {o : Option Thread}
    (hc : ∀ p, order.filter (·.process = p) =
      s.log.filter (·.process = p) ++ effected p (s.thread p))
    (ho : effected s.running o = effected s.running (s.thread s.running)) (p : ι) :
    order.filter (·.process = p) =
      s.log.filter (·.process = p) ++ effected p (Function.update s.thread s.running o p) := by
  rw [hc p]
  by_cases hp : p = s.running
  · rw [hp, Function.update_self, ho]
  · rw [Function.update_of_ne hp]

/-- A process that gives up the hart is between calls, before its critical section, or after it. -/
lemma Running.leave {h₀ H h : Heap} {o : Option Thread} (hr : Running h₀ H h o)
    (hs : h.sie = true ∨ o = none) :
    h = { H with sie := h.sie } ∧ ∀ t, o = some t → Waiting h₀ h.sie t := by
  cases hr with
  | idle heap => exact ⟨heap, by simp⟩
  | @before t hpc heap =>
      refine ⟨by rw [heap], ?_⟩
      rintro t' ⟨⟩
      exact ⟨by rw [heap], .inl hpc⟩
  | critical _ masked => simp [masked] at hs
  | @ret t v hpc heap =>
      refine ⟨by rw [heap], ?_⟩
      rintro t' ⟨⟩
      exact ⟨by rw [heap], .inr ⟨v, hpc⟩⟩

/-- **Switching processes** outside the critical section. -/
lemma Linear.switch {h₀ H : Heap} {order : List (Done ι)} {s : Hart ι} (hl : Linear h₀ order H s)
    (hs : s.heap.sie = true ∨ s.thread s.running = none) (q : ι) (b : Bool) :
    Linear h₀ order H (s.switch q b) := by
  rcases hl.running.leave hs with ⟨heap, hpark⟩
  -- every process, the one that leaves included, is now parked
  have hall : ∀ r t, s.thread r = some t →
      Waiting h₀ (Function.update s.saved s.running s.heap.sie r) t := by
    intro r t ht
    by_cases hr : r = s.running
    · rw [hr, Function.update_self]
      exact hpark t (hr ▸ ht)
    · rw [Function.update_of_ne hr]
      exact hl.parked r hr t ht
  refine ⟨hl.run, hl.calls, hl.sieKept, hl.bounds, ?_, fun r _ t ht => hall r t ht⟩
  have hset : ∀ sie, { s.heap with sie := sie } = { H with sie := sie } := by
    intro sie
    rw [heap]
  show Running h₀ H { s.heap with
    sie := if (s.thread q).isSome then Function.update s.saved s.running s.heap.sie q else b }
    (s.thread q)
  rw [hset]
  cases hq : s.thread q with
  | none => exact .idle rfl
  | some t =>
      rcases hall q t hq with ⟨hsaved, hpc | ⟨v, hpc⟩⟩
      · exact .before hpc (by simp [hsaved])
      · exact .ret hpc (by simp [hsaved])


lemma running_update {h₀ H h : Heap} {o : Option Thread} {thread : ι → Option Thread} {p : ι}
    (hr : Running h₀ H h o) : Running h₀ H h (Function.update thread p o p) := by
  rw [Function.update_self]
  exact hr

/-- **A call takes effect**: it goes to the end of the order. -/
lemma Linear.effect {h₀ H : Heap} {order : List (Done ι)} {s : Hart ι} {t : Thread} {v : ℕ}
    {h : Heap} (hl : Linear h₀ order H s) (ht : s.thread s.running = some t)
    (hpc : ∀ v, t.pc ≠ .ret v) (hsie : h.sie = t.entrySie)
    (hs : Steps ({ H with sie := t.entrySie }, t.call.entry) (h, .ret v)) :
    Linear h₀ (order ++ [⟨s.running, t.call, v, t.entrySie, t.entrySie⟩]) h
      { s with heap := h, thread := Function.update s.thread s.running (some { t with pc := .ret v }) } where
  run := hl.run.snoc (steps_returns hs)
  calls := by
    intro p
    dsimp only
    rw [List.filter_append, hl.calls p]
    by_cases hp : p = s.running
    · rw [hp, ht, effected_eq_nil hpc, Function.update_self, effected_ret rfl]
      simp
    · rw [Function.update_of_ne hp]
      simp [Ne.symm hp]
  sieKept := hl.sieKept
  bounds := by
    have hb := hs.bounds
    exact ⟨hb.1.trans hl.bounds.1, hb.2.trans hl.bounds.2⟩
  running := running_update (.ret rfl (by rw [← hsie]))
  parked := parked_update hl.parked

/-- **One step of the hart.** -/
lemma Linear.step {h₀ : Heap} {s s' : Hart ι} {a : HartAct ι} (hstep : HartStep s a s')
    (hl : ∃ order H, Linear h₀ order H s) : ∃ order H, Linear h₀ order H s' := by
  rcases hl with ⟨order, H, hl⟩
  cases hstep with
  | call c h =>
      have heap := (hl.running.leave (.inr h)).1
      refine ⟨order, H, hl.run, calls_update hl.calls ?_, hl.sieKept, hl.bounds, ?_,
        parked_update hl.parked⟩
      · rw [h]
        cases c <;> rfl
      · exact running_update (.before (.entry c) heap)
  | @step t h hpc =>
      have hr := hl.running
      rw [h] at hr
      rcases hr.step hl.bounds hpc with ⟨hnext, hret⟩ | ⟨v, hv, hsie, hsteps⟩
      · refine ⟨order, H, hl.run, calls_update hl.calls ?_, hl.sieKept, hl.bounds, ?_,
          parked_update hl.parked⟩
        · rw [h, effected_eq_nil hpc, effected_eq_nil hret]
        · exact running_update hnext
      · rw [hv]
        exact ⟨_, _, hl.effect h hpc hsie hsteps⟩
  | @ret t v h hpc =>
      have hr := hl.running
      rw [h] at hr
      have heap : s.heap = { H with sie := t.entrySie } := by
        cases hr with
        | before hb =>
            rw [hpc] at hb
            cases hc : t.call <;> rw [hc] at hb <;> cases hb
        | critical hstatus => simp [hpc, Pc.status] at hstatus
        | ret _ heap => exact heap
      have hsie : s.heap.sie = t.entrySie := by rw [heap]
      refine ⟨order, H, hl.run, ?_, ?_, hl.bounds, ?_, parked_update hl.parked⟩
      · intro p
        dsimp only
        rw [List.filter_append, hl.calls p]
        by_cases hp : p = s.running
        · rw [hp, h, effected_ret hpc, Function.update_self, hsie]
          simp
        · rw [Function.update_of_ne hp]
          simp [Ne.symm hp]
      · intro d hd
        rcases List.mem_append.mp hd with hd | hd
        · exact hl.sieKept d hd
        · rw [List.mem_singleton.mp hd]
          exact hsie
      · exact running_update (.idle (by rw [heap]))
  | setSie b h =>
      have heap := (hl.running.leave (.inr h)).1
      refine ⟨order, H, hl.run, hl.calls, hl.sieKept, hl.bounds, ?_, hl.parked⟩
      rw [h]
      exact .idle (by rw [heap])
  | interrupt q b h => exact ⟨order, H, hl.switch (.inl h) q b⟩
  | yield q b h => exact ⟨order, H, hl.switch (.inr h) q b⟩

/-- When no call is in progress the order is an arrangement of the completed calls. -/
lemma Linear.perm {h₀ H : Heap} {order : List (Done ι)} {s : Hart ι} (hl : Linear h₀ order H s)
    (hidle : ∀ p, s.thread p = none) : order.Perm s.log := by
  refine List.perm_iff_count.mpr fun d => ?_
  have hd : ∀ l : List (Done ι), l.count d = (l.filter (·.process = d.process)).count d := by
    intro l
    exact (List.count_filter (by simp)).symm
  rw [hd, hd s.log, hl.calls, hidle, effected_none, List.append_nil]

/-- **Allocator calls are atomic under preemption.**  In every run of the hart from any heap, every
completed call has left `SIE` as it found it, and there is an order of the calls (the completed ones,
with those that stand at their `return`; each process's in its own order) in which, made one after the
other, they give the results they gave.  Outside a critical section the heap is the one that
order leaves; when no call is in progress the order has the completed calls and no others. -/
theorem allocator_calls_atomic {h₀ : Heap} {p₀ : ι} {acts : List (HartAct ι)} {s : Hart ι}
    (hrun : Run HartStep (Hart.start h₀ p₀) acts s) :
    (∀ d ∈ s.log, d.exitSie = d.entrySie) ∧
      ∃ order H, Run SeqCall h₀ order H ∧
        (∀ p, order.filter (·.process = p) =
          s.log.filter (·.process = p) ++ effected p (s.thread p)) ∧
        (s.thread s.running = none → s.heap = { H with sie := s.heap.sie }) ∧
        ((∀ p, s.thread p = none) → order.Perm s.log) := by
  rcases hrun.invariant (P := fun s => ∃ order H, Linear h₀ order H s)
    (fun _ _ _ => Linear.step) ⟨[], h₀, linear_start h₀ p₀⟩ with ⟨order, H, hl⟩
  exact ⟨hl.sieKept, order, H, hl.run, hl.calls, fun h => (hl.running.leave (.inr h)).1, hl.perm⟩

/-- A free list of one page. -/
def onePage : Heap := ⟨fun _ => 0, 0x80001000, 0x80001000, 0x80002000, 1, true⟩

/-- Process `false` is taken off the hart inside `mem_alloc`, just before `allocator_intr_off`; process
`true` takes the only page; `false` comes back and finds none. -/
def onePageRace : List (HartAct Bool) :=
  [.call (.memAlloc 4096), .step, .step, .interrupt true true, .call (.memAlloc 1),
    .step, .step, .step, .step, .step, .step, .step, .step, .step, .ret,
    .interrupt false false, .step, .step, .step, .ret]

theorem allocator_calls_atomic_race : ∃ s : Hart Bool,
    Run HartStep (Hart.start onePage false) onePageRace s ∧
      s.log = [⟨true, .memAlloc 1, 0x80001000, true, true⟩, ⟨false, .memAlloc 4096, 0, true, true⟩] ∧
      ∃ order H, Run SeqCall onePage order H ∧ order.Perm s.log := by
  have hrun : ∃ s : Hart Bool, Run HartStep (Hart.start onePage false) onePageRace s ∧
      s.log = [⟨true, .memAlloc 1, 0x80001000, true, true⟩, ⟨false, .memAlloc 4096, 0, true, true⟩] ∧
      (∀ p, s.thread p = none) := by
    constructor
    constructor
    · apply Run.cons (.call _ rfl)
      iterate 2 apply Run.cons (.step rfl (by nofun))
      apply Run.cons (.interrupt _ _ rfl)
      apply Run.cons (.call _ rfl)
      iterate 9 apply Run.cons (.step rfl (by nofun))
      apply Run.cons (.ret rfl rfl)
      apply Run.cons (.interrupt _ _ rfl)
      iterate 3 apply Run.cons (.step rfl (by nofun))
      apply Run.cons (.ret rfl rfl)
      apply Run.nil
    · refine ⟨rfl, ?_⟩
      intro p
      cases p <;> rfl
  rcases hrun with ⟨s, hrun, hlog, hidle⟩
  rcases allocator_calls_atomic hrun with ⟨_, order, H, hseq, _, _, hperm⟩
  exact ⟨s, hrun, hlog, order, H, hseq, hperm hidle⟩

end NetStack
