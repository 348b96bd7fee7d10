import NetStack.Virtio.Queue
import NetStack.Lib.Ring

/-!
# A conforming device and the ownership of descriptors

The device's half of a queue: it reads `avail.idx` when it likes, takes the entries up to the value
it has seen, and completes any descriptor it holds by writing a used element and then incrementing
`used.idx`, in two separate accesses.

`Shared` is the invariant of the two parties over the rings: the descriptors offered in `avail`, held
by the device, completed in `used` and in the driver's hands are together all 256, each once.  That
the two counters of a ring never lap one another, that a slot is written only when nobody needs it
any more, and that the element the driver is looking at stays put all follow by counting.
`DeviceStep.shared` says that the device keeps it; `Shared.write_slot`, `Shared.offer` and
`Shared.consume` are the driver's moves.
-/

namespace NetStack

open Ring ByteMem

/-- How far the free-running 16-bit counter `b` is ahead of `a`. -/
def gap (a b : ℕ) : ℕ := (b + 2 ^ 16 - a) % 2 ^ 16

/-- What a device remembers about one queue: the value of `avail.idx` it has seen, the next entry to
take, the descriptors it holds, the used element it has written but not published, and all the
completions it has published, oldest first. -/
structure Device where
  seen : ℕ
  next : ℕ
  held : List ℕ
  pending : Option VirtqUsedElem
  made : List VirtqUsedElem

/-- One access of a conforming device to the rings. -/
inductive DeviceStep : Virtq × Device → Virtq × Device → Prop
  | readAvail (v : Virtq) (d : Device) : DeviceStep (v, d) (v, { d with seen := v.availIdx })
  | take (v : Virtq) (d : Device) (h : d.next ≠ d.seen) :
      DeviceStep (v, d) (v, { d with
        next := (d.next + 1) % 2 ^ 16
        held := d.held ++ [v.availRing (d.next % descQueueSize)] })
  | writeUsed (v : Virtq) (d : Device) (u : VirtqUsedElem) (h : u.id ∈ d.held)
      (hp : d.pending = none) :
      DeviceStep (v, d)
        ({ v with usedRing := Function.update v.usedRing (v.usedIdx % descQueueSize) u },
          { d with pending := some u })
  | publish (v : Virtq) (d : Device) (u : VirtqUsedElem) (hp : d.pending = some u) :
      DeviceStep (v, d)
        ({ v with usedIdx := (v.usedIdx + 1) % 2 ^ 16 },
          { d with held := d.held.erase u.id, pending := none, made := d.made ++ [u] })

/-- A device that has not looked at the queue yet. -/
def Device.reset : Device := ⟨0, 0, [], none, []⟩

/-- Offered in `avail` and not yet taken. -/
def offered (v : Virtq) (d : Device) : List ℕ :=
  window v.availRing descQueueSize d.next (gap d.next v.availIdx)

/-- Completed in `used`, from the element `read` on. -/
def completed (v : Virtq) (read : ℕ) : List VirtqUsedElem :=
  window v.usedRing descQueueSize read (gap read v.usedIdx)

/-- **The invariant of a queue.**  `read` is the next used element the driver will look at, `mine` the
descriptors in its hands, `latch` the element it is looking at, `log` all it has looked at. -/
structure Shared (v : Virtq) (d : Device) (read : ℕ) (mine : List ℕ)
    (latch : Option VirtqUsedElem) (log : List VirtqUsedElem) : Prop where
  perm : (offered v d ++ d.held ++ (completed v read).map (·.id) ++ mine).Perm
    (List.range descQueueSize)
  availLt : v.availIdx < 2 ^ 16
  usedLt : v.usedIdx < 2 ^ 16
  nextLt : d.next < 2 ^ 16
  readLt : read < 2 ^ 16
  seenLt : d.seen < 2 ^ 16
  seenLe : gap d.next d.seen ≤ gap d.next v.availIdx
  pend : ∀ u, d.pending = some u → u.id ∈ d.held ∧ v.usedRing (v.usedIdx % descQueueSize) = u
  latched : ∀ u, latch = some u →
    u.id ∈ mine ∧ v.usedRing ((read + (2 ^ 16 - 1)) % descQueueSize) = u
  made_eq : d.made = log ++ completed v read

/-- Byte `a` is in the buffer of descriptor `i`. -/
def Virtq.InBuffer (v : Virtq) (i a : ℕ) : Prop :=
  (v.desc i).addr ≤ a ∧ a < (v.desc i).addr + queueBufSize

/-- The buffers lie one after the other. -/
def Virtq.Laid (v : Virtq) : Prop :=
  ∃ buffers, ∀ i < descQueueSize, (v.desc i).addr = buffers + i * queueBufSize

/-- So they do not overlap. -/
lemma Virtq.Laid.inBuffer_unique {v : Virtq} (h : v.Laid) {i j a : ℕ} (hi : i < descQueueSize)
    (hj : j < descQueueSize) (hia : v.InBuffer i a) (hja : v.InBuffer j a) : i = j := by
  rcases h with ⟨buffers, hb⟩
  rw [Virtq.InBuffer, hb i hi, queueBufSize_eq] at hia
  rw [Virtq.InBuffer, hb j hj, queueBufSize_eq] at hja
  omega

section

variable {v v' : Virtq} {d d' : Device} {read : ℕ} {mine : List ℕ} {latch : Option VirtqUsedElem}
  {log : List VirtqUsedElem}

/-- The count behind every argument: 256 descriptors. -/
lemma Shared.count (h : Shared v d read mine latch log) :
    gap d.next v.availIdx + d.held.length + gap read v.usedIdx + mine.length = 256 := by
  have hlen := h.perm.length_eq
  simpa [offered, completed, Nat.add_assoc] using hlen

lemma window_counter {α : Type} {ring : ℕ → α} (a n : ℕ) :
    window ring descQueueSize (a % 2 ^ 16) n = window ring descQueueSize a n :=
  window_mod (by decide) a n

/-- The slot of the leading counter, seen from the trailing one. -/
lemma slot_eq {a b : ℕ} (ha : a < 2 ^ 16) (hb : b < 2 ^ 16) : b % 256 = (a + gap a b) % 256 := by
  unfold gap
  omega

/-- **The device keeps the invariant.** -/
lemma DeviceStep.shared (hstep : DeviceStep (v, d) (v', d'))
    (h : Shared v d read mine latch log) : Shared v' d' read mine latch log := by
  have hcount := h.count
  have hnext := h.nextLt
  have havail := h.availLt
  have hused := h.usedLt
  have hread := h.readLt
  cases hstep with
  | readAvail =>
      exact ⟨h.perm, havail, hused, hnext, hread, havail, le_rfl, h.pend, h.latched, h.made_eq⟩
  | take _ _ hne =>
      have hseen := h.seenLt
      have hle := h.seenLe
      have hpos : gap d.next v.availIdx = gap ((d.next + 1) % 2 ^ 16) v.availIdx + 1 := by
        unfold gap at hle ⊢
        omega
      have hoff : offered v d = v.availRing (d.next % 256) ::
          window v.availRing 256 ((d.next + 1) % 2 ^ 16)
            (gap ((d.next + 1) % 2 ^ 16) v.availIdx) := by
        rw [offered, hpos, window_cons, ← window_counter]
        rfl
      refine ⟨?_, havail, hused, Nat.mod_lt _ (by norm_num), hread, hseen, ?_, ?_, h.latched,
        h.made_eq⟩
      · refine List.Perm.trans ?_ h.perm
        rw [hoff, List.perm_iff_count]
        intro x
        simp only [offered, descQueueSize_eq, List.count_append, List.count_cons, List.count_nil]
        omega
      · show gap ((d.next + 1) % 2 ^ 16) d.seen ≤ gap ((d.next + 1) % 2 ^ 16) v.availIdx
        unfold gap at hle ⊢
        omega
      · intro u hu
        exact ⟨List.mem_append_left _ (h.pend u hu).1, (h.pend u hu).2⟩
  | writeUsed _ _ u hheld hp =>
      have hpos := List.length_pos_of_mem hheld
      have hslot := slot_eq hread hused
      have hcomp : completed
          { v with usedRing := Function.update v.usedRing (v.usedIdx % descQueueSize) u } read
          = completed v read := by
        simp only [completed, descQueueSize_eq]
        rw [hslot]
        exact window_update (by omega) u
      refine ⟨?_, havail, hused, hnext, hread, h.seenLt, h.seenLe, ?_, ?_, ?_⟩
      · rw [hcomp]
        exact h.perm
      · rintro w ⟨⟩
        exact ⟨hheld, Function.update_self ..⟩
      · intro w hw
        obtain ⟨hmine, heq⟩ := h.latched w hw
        -- the device is at most 255 elements past the one the driver looks at
        have hlt := List.length_pos_of_mem hmine
        have hne : (read + (2 ^ 16 - 1)) % 256 ≠ v.usedIdx % 256 := by
          unfold gap at hcount
          omega
        exact ⟨hmine, (Function.update_of_ne hne ..).trans heq⟩
      · rw [hcomp]
        exact h.made_eq
  | publish _ _ u hp =>
      obtain ⟨hheld, helem⟩ := h.pend u hp
      have hpos := List.length_pos_of_mem hheld
      have hgap : gap read ((v.usedIdx + 1) % 2 ^ 16) = gap read v.usedIdx + 1 := by
        unfold gap at hcount ⊢
        omega
      have hcomp : completed { v with usedIdx := (v.usedIdx + 1) % 2 ^ 16 } read
          = completed v read ++ [u] := by
        simp only [completed, descQueueSize_eq] at helem ⊢
        rw [hgap, window_succ, ← slot_eq hread hused, helem]
      refine ⟨?_, havail, Nat.mod_lt _ (by norm_num), hnext, hread, h.seenLt, h.seenLe, ?_,
        h.latched, ?_⟩
      · refine List.Perm.trans ?_ h.perm
        rw [hcomp, List.perm_iff_count]
        intro x
        have hx : (d.held.erase u.id).count x = d.held.count x - if u.id == x then 1 else 0 :=
          List.count_erase
        have hone := List.count_pos_iff.mpr hheld
        simp only [List.map_append, List.map_cons, List.map_nil, List.count_append,
          List.count_cons, List.count_nil, offered]
        rw [hx]
        split_ifs with heq
        · rw [beq_iff_eq] at heq
          subst heq
          omega
        · omega
      · rintro w ⟨⟩
      · rw [hcomp, h.made_eq, List.append_assoc]

lemma DeviceStep.avail (h : DeviceStep (v, d) (v', d')) :
    v'.availIdx = v.availIdx ∧ v'.availRing = v.availRing ∧ v'.desc = v.desc := by
  cases h <;> simp

lemma DeviceStep.laid (hstep : DeviceStep (v, d) (v', d'))
    (h : v.Laid) : v'.Laid := by
  rcases h with ⟨buffers, hb⟩
  refine ⟨buffers, ?_⟩
  rw [hstep.avail.2.2]
  exact hb

/-- A completion that is there stays there: the device is never 2^16 ahead. -/
lemma DeviceStep.usedIdx_ne (hstep : DeviceStep (v, d) (v', d'))
    (h : Shared v d read mine latch log) (hne : read ≠ v.usedIdx) : read ≠ v'.usedIdx := by
  have hcount := h.count
  have hread := h.readLt
  have hused := h.usedLt
  cases hstep with
  | readAvail => exact hne
  | take => exact hne
  | writeUsed => exact hne
  | publish =>
      unfold gap at hcount
      simp only
      omega

/-- The device completes the descriptor that comes next. -/
lemma DeviceStep.completes {v : Virtq} {dev : Device} {u : VirtqUsedElem} (hnew : dev.next ≠ v.availIdx)
    (hpending : dev.pending = none) (hhead : v.availRing (dev.next % descQueueSize) = u.id) :
    Relation.ReflTransGen DeviceStep (v, dev)
      ({ v with usedRing := Function.update v.usedRing (v.usedIdx % descQueueSize) u, usedIdx := (v.usedIdx + 1) % 2 ^ 16 },
        ⟨v.availIdx, (dev.next + 1) % 2 ^ 16, (dev.held ++ [u.id]).erase u.id, none, dev.made ++ [u]⟩) := by
  rw [← hhead]
  refine .head (.readAvail v dev) (.head (.take v _ hnew) (.head (.writeUsed v _ u ?_ hpending) (.single ?_)))
  · rw [← hhead]
    exact List.mem_append_right _ (List.mem_singleton_self _)
  · rw [hhead]
    exact .publish _ _ u rfl

/-! ## The driver's moves -/

/-- The slot the driver is about to fill has been taken by the device. -/
lemma Shared.slot_taken (h : Shared v d read mine latch log) {x : ℕ} (hx : x ∈ mine) {j : ℕ}
    (hj : j < gap d.next v.availIdx) :
    (d.next + j) % descQueueSize ≠ v.availIdx % descQueueSize := by
  have hcount := h.count
  have hpos := List.length_pos_of_mem hx
  simp only [descQueueSize_eq]
  rw [slot_eq h.nextLt h.availLt]
  exact slot_ne hj (by omega)

/-- Filling that slot is invisible. -/
lemma Shared.write_slot (h : Shared v d read mine latch log) {x : ℕ} (hx : x ∈ mine) (y : ℕ) :
    Shared { v with availRing := Function.update v.availRing (v.availIdx % descQueueSize) y }
      d read mine latch log := by
  have hcount := h.count
  have hpos := List.length_pos_of_mem hx
  have hoff : offered
      { v with availRing := Function.update v.availRing (v.availIdx % descQueueSize) y } d
      = offered v d := by
    simp only [offered, descQueueSize_eq]
    rw [slot_eq h.nextLt h.availLt]
    exact window_update (by omega) y
  refine ⟨?_, h.availLt, h.usedLt, h.nextLt, h.readLt, h.seenLt, h.seenLe, h.pend, h.latched,
    h.made_eq⟩
  rw [hoff]
  exact h.perm

/-- The last descriptor that is offered is the one in the slot behind `avail.idx`. -/
lemma offered_last {v : Virtq} {d : Device} {a x : ℕ} (hnext : d.next < 2 ^ 16) (ha : a < 2 ^ 16)
    (hroom : gap d.next a ≤ 256) (hidx : v.availIdx = (a + 1) % 2 ^ 16) (hslot : v.availRing (a % descQueueSize) = x) :
    offered v d = window v.availRing descQueueSize d.next (gap d.next a) ++ [x] := by
  have hgap : gap d.next ((a + 1) % 2 ^ 16) = gap d.next a + 1 := by
    unfold gap at hroom ⊢
    omega
  simp only [offered, descQueueSize_eq] at hslot ⊢
  rw [hidx, hgap, window_succ, ← slot_eq hnext ha, hslot]

/-- Publishing the slot hands the descriptor in it over. -/
lemma Shared.offer {x : ℕ} (h : Shared v d read (x :: mine) latch log)
    (hslot : v.availRing (v.availIdx % descQueueSize) = x) :
    Shared { v with availIdx := (v.availIdx + 1) % 2 ^ 16 } d read mine none log := by
  have hcount := h.count
  have hnext := h.nextLt
  have havail := h.availLt
  have hle := h.seenLe
  rw [List.length_cons] at hcount
  have hgap : gap d.next ((v.availIdx + 1) % 2 ^ 16) = gap d.next v.availIdx + 1 := by
    unfold gap at hcount ⊢
    omega
  have hoff : offered { v with availIdx := (v.availIdx + 1) % 2 ^ 16 } d = offered v d ++ [x] :=
    offered_last hnext havail (by omega) rfl hslot
  refine ⟨?_, Nat.mod_lt _ (by norm_num), h.usedLt, hnext, h.readLt, h.seenLt, ?_, h.pend, ?_,
    h.made_eq⟩
  · refine List.Perm.trans ?_ h.perm
    rw [hoff, List.perm_iff_count]
    intro y
    simp only [completed, List.count_append, List.count_cons, List.count_nil]
    omega
  · show gap d.next d.seen ≤ gap d.next ((v.availIdx + 1) % 2 ^ 16)
    omega
  · rintro u ⟨⟩

/-- The oldest completion the driver has not looked at. -/
lemma Shared.completed_cons {latch : Option VirtqUsedElem} (h : Shared v d read mine latch log) (hne : read ≠ v.usedIdx) :
    completed v read = v.usedRing (read % descQueueSize) :: completed v ((read + 1) % 2 ^ 16) := by
  have hread := h.readLt
  have hused := h.usedLt
  have hpos : gap read v.usedIdx = gap ((read + 1) % 2 ^ 16) v.usedIdx + 1 := by
    unfold gap
    omega
  rw [completed, completed, hpos, window_cons, window_counter]

/-- Looking at a used element takes its descriptor into the driver's hands. -/
lemma Shared.consume (h : Shared v d read mine none log) (hne : read ≠ v.usedIdx) :
    Shared v d ((read + 1) % 2 ^ 16) ((v.usedRing (read % descQueueSize)).id :: mine)
      (some (v.usedRing (read % descQueueSize)))
      (log ++ [v.usedRing (read % descQueueSize)]) := by
  have hcomp := h.completed_cons hne
  refine ⟨?_, h.availLt, h.usedLt, h.nextLt, Nat.mod_lt _ (by norm_num), h.seenLt, h.seenLe, h.pend,
    ?_, ?_⟩
  · refine List.Perm.trans ?_ h.perm
    rw [hcomp, List.perm_iff_count]
    intro y
    simp only [List.map_cons, List.count_append, List.count_cons]
    omega
  · rintro u ⟨⟩
    refine ⟨List.mem_cons_self, ?_⟩
    have hback : ((read + 1) % 2 ^ 16 + (2 ^ 16 - 1)) % descQueueSize = read % descQueueSize := by
      simp only [descQueueSize_eq]
      omega
    rw [hback]
  · rw [h.made_eq, hcomp, List.append_assoc]
    rfl

lemma Shared.unlatch (h : Shared v d read mine latch log) : Shared v d read mine none log :=
  ⟨h.perm, h.availLt, h.usedLt, h.nextLt, h.readLt, h.seenLt, h.seenLe, h.pend,
    by rintro u ⟨⟩, h.made_eq⟩

/-- Which list the driver keeps its descriptors in does not matter. -/
lemma Shared.of_perm {mine' : List ℕ} (h : Shared v d read mine latch log)
    (hp : mine'.Perm mine) : Shared v d read mine' latch log := by
  refine ⟨(hp.append_left _).trans h.perm, h.availLt, h.usedLt, h.nextLt, h.readLt, h.seenLt,
    h.seenLe, h.pend, ?_, h.made_eq⟩
  intro u hu
  exact ⟨hp.mem_iff.mpr (h.latched u hu).1, (h.latched u hu).2⟩

lemma Shared.mem_lt (h : Shared v d read mine latch log) {x : ℕ} (hx : x ∈ mine) : x < 256 :=
  List.mem_range.mp (h.perm.subset (List.mem_append_right _ hx))

end

/-! ## An arbitrary device -/

/-- What a device can do that need not conform: it puts anything into `used` of either queue, and into
the RX buffers it has been given. -/
inductive Havoc : NetState → NetState → Prop
  | used (s : NetState) (q : QueueIndex) (idx : ℕ) (ring : ℕ → VirtqUsedElem) :
      Havoc s (s.setVirtq q { (s.queues q).virtq with usedIdx := idx, usedRing := ring })
  | fill {s : NetState} {m : Mem} (hb : (s.queues .rx).buffers ≠ 0)
      (hm : ∀ x, ¬ ((s.queues .rx).buffers ≤ x ∧ x < (s.queues .rx).buffers + descQueueSize * queueBufSize) →
        m x = s.heap.mem x) :
      Havoc s { s with heap := { s.heap with mem := m } }

/-- The rest of a queue is out of its reach. -/
lemma Havoc.queue {s s' : NetState} (h : Havoc s s') (q : QueueIndex) : ∃ idx ring,
    s'.queues q = { s.queues q with virtq := { (s.queues q).virtq with usedIdx := idx, usedRing := ring } } := by
  cases h with
  | used q' idx ring =>
      by_cases hq : q = q'
      · subst hq
        exact ⟨idx, ring, NetState.setVirtq_queues ..⟩
      · exact ⟨(s.queues q).virtq.usedIdx, (s.queues q).virtq.usedRing, Function.update_of_ne hq ..⟩
  | fill => exact ⟨_, _, rfl⟩

end NetStack
