import NetStack.Virtio.Packet

/-!
# One call of `virt_mmio_net_send`

The search for a free descriptor goes once round the queue and may come back to where it began, so what it returns
is looked at again.  `searchDesc_spec` says how far it goes; `virt_mmio_net_send_effect` says what the call leaves,
in the driver's record of the queue, in the ring and in memory.  The payload is copied by `mem_copy`, byte by byte
and upwards, so of data that lies just before the buffer the beginning is repeated.
-/

namespace NetStack

open ByteMem Concurrent

/-- The first free descriptor in cyclic order from `next` on is `d`. -/
def FirstFree (inUse : ℕ → ℕ) (next d : ℕ) : Prop :=
  ∃ k < 256, d = (next + k) % 256 ∧ inUse d = 0 ∧ ∀ j < k, inUse ((next + j) % 256) ≠ 0

/-- `m'` is `m` with the `length` bytes at `data` copied upwards to `buf`. -/
structure Copied (m m' : Mem) (buf data length : ℕ) : Prop where
  inside : ∀ i < length, m' (buf + i) = m (copySource buf data i)
  outside : ∀ x, x < buf ∨ buf + length ≤ x → m' x = m x

/-- The state after `length` bytes have been published in descriptor `d`, with the memory `m`. -/
def NetState.published (s : NetState) (length d : ℕ) (m : Mem) : NetState :=
  let tx := s.queues .tx
  { s.setQueue .tx { tx with
      virtq := { tx.virtq with
        desc := Function.update tx.virtq.desc d { tx.virtq.desc d with len := length, flags := 0 }
        availRing := Function.update tx.virtq.availRing (tx.virtq.availIdx % 256) d
        availIdx := (tx.virtq.availIdx + 1) % 2 ^ 16 }
      inUse := Function.update tx.inUse d 1
      nextDesc := (d + 1) % 256 } with
    heap := { s.heap with mem := m }
    out := s.out ++ "Sending data via Virtio Network Device...\n".toList
    notified := s.notified ++ [1] }

section

variable {s : NetState} {d : ℕ}

/-! ## The parts -/

lemma forM_append {ι : Type} (f : ι → Driver PUnit) :
    ∀ l l' : List ι, (l ++ l').forM f = l.forM f >>= fun _ => l'.forM f
  | [], _ => rfl
  | i :: l, l' => by
      have ih := forM_append f l l'
      simp only [List.cons_append, List.forM_eq_forM, List.forM_cons, bind_bind] at ih ⊢
      rw [ih]

/-- `mem_copy` copies upwards. -/
lemma memCopy_run (dest src : ℕ) : ∀ n, (memCopy dest src n).run (Op.exec .tx) s =
    (⟨⟩, { s with heap := { s.heap with mem := copyUp s.heap.mem dest src n } })
  | 0 => rfl
  | n + 1 => by
      have hsplit : memCopy dest src (n + 1) = memCopy dest src n >>= fun _ => [n].forM (copyByte dest src) := by
        rw [memCopy, List.range_succ, forM_append]
        rfl
      rw [hsplit, run_bind, memCopy_run dest src n]
      rfl

/-- **The search** stops at the first free descriptor, or has been all the way round. -/
lemma searchDesc_spec (hsize : (s.queues .tx).size = 256) : ∀ n d, d < 256 → ∃ k ≤ n,
    (searchDesc n d).run (Op.exec .tx) s = ((d + k) % 256, s) ∧
      (∀ j < k, (s.queues .tx).inUse ((d + j) % 256) ≠ 0) ∧ (k < n → (s.queues .tx).inUse ((d + k) % 256) = 0)
  | 0, d, hd => ⟨0, le_rfl, by simp [searchDesc, Prog.run, Nat.mod_eq_of_lt hd], by simp, by simp⟩
  | n + 1, d, hd => by
      simp only [searchDesc, inUse, size, op_bind, ret_bind, Prog.run]
      by_cases hfree : (s.queues .tx).inUse d = 0
      · refine ⟨0, Nat.zero_le _, run_if_pos hfree ?_, by simp, fun _ => by rwa [Nat.add_zero, Nat.mod_eq_of_lt hd]⟩
        rw [Nat.add_zero, Nat.mod_eq_of_lt hd]
        rfl
      · obtain ⟨k, hk, hrun, hbusy, hstop⟩ := searchDesc_spec hsize n ((d + 1) % 256) (Nat.mod_lt _ (by norm_num))
        have hstep : ∀ j, ((d + 1) % 256 + j) % 256 = (d + (j + 1)) % 256 := fun j => by omega
        refine ⟨k + 1, Nat.succ_le_succ hk, run_if_neg hfree ?_, fun j hj => ?_, fun hlt => ?_⟩
        · simp only [Prog.run, Op.exec, hsize]
          rw [hrun, hstep]
        · cases j with
          | zero => rwa [Nat.add_zero, Nat.mod_eq_of_lt hd]
          | succ j =>
              rw [← hstep]
              exact hbusy j (by omega)
        · rw [← hstep]
          exact hstop (by omega)

/-! ## The call -/

/-- A packet that is too long. -/
lemma virtMmioNetSend_long (data : ℕ) {length : ℕ} (hlong : length > queueBufSize) :
    ∃ text, after (virtMmioNetSend data length) s = { s with out := s.out ++ text } := by
  refine ⟨"Sending data via Virtio Network Device...\n".toList ++ "TX packet exceeds queue buffer size.\n".toList, ?_⟩
  rw [after, virtMmioNetSend, run_bind, prints_uartPuts, if_pos hlong, prints_uartPuts, List.append_assoc]

variable {data length k : ℕ}

/-- No descriptor is free. -/
lemma virtMmioNetSend_full (hlen : length ≤ queueBufSize) (hsize : (s.queues .tx).size = 256)
    (hnext : (s.queues .tx).nextDesc < 256) (hfull : ∀ i < 256, (s.queues .tx).inUse i ≠ 0) :
    ∃ text, after (virtMmioNetSend data length) s = { s with out := s.out ++ text } := by
  refine ⟨"Sending data via Virtio Network Device...\n".toList ++ "No free TX descriptors.\n".toList, ?_⟩
  have hsearch : ∀ out, (searchDesc 256 (s.queues .tx).nextDesc).run (Op.exec .tx) { s with out := out } =
      ((s.queues .tx).nextDesc, { s with out := out }) := by
    intro out
    obtain ⟨k, hk, hrun, -, hstop⟩ := searchDesc_spec (s := { s with out := out }) hsize 256 _ hnext
    have hround : k = 256 := by
      by_contra hne
      exact hfull _ (Nat.mod_lt _ (by norm_num)) (hstop (by omega))
    rw [hrun, hround, Nat.add_mod_right, Nat.mod_eq_of_lt hnext]
  simp only [after, virtMmioNetSend, nextDesc, size, inUse, op_bind, ret_bind]
  rw [run_bind, prints_uartPuts, if_neg (Nat.not_lt.mpr hlen)]
  simp only [Prog.run, Op.exec, run_bind, hsize]
  rw [hsearch]
  refine (congrArg Prod.snd (run_if_pos (hfull _ hnext) (prints_uartPuts ..))).trans ?_
  rw [List.append_assoc]

/-- The descriptor `d` is the first that is free. -/
lemma virtMmioNetSend_free (hlen : length ≤ queueBufSize) (hsize : (s.queues .tx).size = 256)
    (hnext : (s.queues .tx).nextDesc < 256) (hd : FirstFree (s.queues .tx).inUse (s.queues .tx).nextDesc d) :
    after (virtMmioNetSend data length) s =
      s.published length d (copyUp s.heap.mem ((s.queues .tx).virtq.desc d).addr data length) := by
  obtain ⟨k, hk, hdk, hfree, hbusy⟩ := hd
  have hsearch : ∀ out, (searchDesc 256 (s.queues .tx).nextDesc).run (Op.exec .tx) { s with out := out } =
      (d, { s with out := out }) := by
    intro out
    obtain ⟨k', hk', hrun, hbusy', hstop⟩ := searchDesc_spec (s := { s with out := out }) hsize 256 _ hnext
    have heq : k' = k := by
      rcases Nat.lt_trichotomy k' k with hlt | heq | hgt
      · exact absurd (hstop (by omega)) (hbusy k' hlt)
      · exact heq
      · exact absurd (hdk ▸ hfree) (hbusy' k hgt)
    rw [hrun, heq, ← hdk]
  simp only [after, virtMmioNetSend, nextDesc, size, inUse, descAddr, setDescLen, setDescFlags, availIdx,
    setAvailRing, setInUse, setNextDesc, setAvailIdx, virtMmioNotify, op_bind, ret_bind]
  rw [run_bind, prints_uartPuts, if_neg (Nat.not_lt.mpr hlen)]
  simp only [Prog.run, Op.exec, run_bind, hsize]
  rw [hsearch]
  refine (congrArg Prod.snd (run_if_neg (not_not.mpr hfree) rfl)).trans ?_
  simp only [Prog.run, Op.exec, run_bind, memCopy_run]
  simp [NetState.published, NetState.setQueue, NetState.setVirtq, hsize, QueueIndex.toNat]

/-- Some descriptor is the first free one, if any is free. -/
lemma exists_firstFree {inUse : ℕ → ℕ} {next : ℕ} (hnext : next < 256) (hfree : ∃ i < 256, inUse i = 0) :
    ∃ d, FirstFree inUse next d := by
  obtain ⟨i, hi, hzero⟩ := hfree
  have hex : ∃ k, inUse ((next + k) % 256) = 0 := ⟨(i + 256 - next) % 256, by
    have hround : (next + (i + 256 - next) % 256) % 256 = i := by omega
    rw [hround, hzero]⟩
  have hle : Nat.find hex ≤ (i + 256 - next) % 256 := Nat.find_min' hex (by
    have hround : (next + (i + 256 - next) % 256) % 256 = i := by omega
    rw [hround, hzero])
  exact ⟨_, Nat.find hex, by omega, rfl, Nat.find_spec hex, fun j hj => Nat.find_min hex hj⟩

end

/-- **What `virt_mmio_net_send` does**, on a queue of 256 descriptors: it publishes the packet exactly if it fits in a
buffer and a descriptor is free, in the first free one in cyclic order from `next_desc` on; otherwise nothing but
the text on the UART changes. -/
theorem virt_mmio_net_send_effect (s : NetState) (data length : ℕ) (hsize : (s.queues .tx).size = 256)
    (hnext : (s.queues .tx).nextDesc < 256) :
    ((after (virtMmioNetSend data length) s).notified = s.notified ++ [1] ↔
      length ≤ queueBufSize ∧ ∃ i < 256, (s.queues .tx).inUse i = 0) ∧
    ((length ≤ queueBufSize ∧ ∃ i < 256, (s.queues .tx).inUse i = 0) →
      ∃ d m, FirstFree (s.queues .tx).inUse (s.queues .tx).nextDesc d ∧
        Copied s.heap.mem m ((s.queues .tx).virtq.desc d).addr data length ∧
        after (virtMmioNetSend data length) s = s.published length d m ∧
        ((after (virtMmioNetSend data length) s).queues .tx).nextDesc < 256) ∧
    (¬ (length ≤ queueBufSize ∧ ∃ i < 256, (s.queues .tx).inUse i = 0) →
      ∃ text, after (virtMmioNetSend data length) s = { s with out := s.out ++ text }) := by
  have hsent : (length ≤ queueBufSize ∧ ∃ i < 256, (s.queues .tx).inUse i = 0) → ∃ d m,
      FirstFree (s.queues .tx).inUse (s.queues .tx).nextDesc d ∧
        Copied s.heap.mem m ((s.queues .tx).virtq.desc d).addr data length ∧
        after (virtMmioNetSend data length) s = s.published length d m := by
    rintro ⟨hlen, hfree⟩
    obtain ⟨d, hd⟩ := exists_firstFree hnext hfree
    exact ⟨d, _, hd, ⟨fun i hi => copyUp_inside _ _ _ hi, copyUp_outside _ _ _ _⟩,
      virtMmioNetSend_free hlen hsize hnext hd⟩
  have hunsent : ¬ (length ≤ queueBufSize ∧ ∃ i < 256, (s.queues .tx).inUse i = 0) →
      ∃ text, after (virtMmioNetSend data length) s = { s with out := s.out ++ text } := by
    intro hno
    by_cases hlen : length ≤ queueBufSize
    · exact virtMmioNetSend_full hlen hsize hnext fun i hi hzero => hno ⟨hlen, i, hi, hzero⟩
    · exact virtMmioNetSend_long data (Nat.not_le.mp hlen)
  refine ⟨⟨fun hnotified => ?_, fun hcan => ?_⟩, fun hcan => ?_, hunsent⟩
  · by_contra hno
    obtain ⟨text, htext⟩ := hunsent hno
    rw [htext] at hnotified
    exact absurd (congrArg List.length hnotified) (by simp)
  · obtain ⟨d, m, -, -, heq⟩ := hsent hcan
    rw [heq]
    rfl
  · obtain ⟨d, m, hd, hcopied, heq⟩ := hsent hcan
    refine ⟨d, m, hd, hcopied, heq, ?_⟩
    rw [heq, NetState.published]
    exact (NetState.setQueue_queues s .tx _).symm ▸ Nat.mod_lt _ (by norm_num)

/-- An idle TX queue with its first buffer at `0x80100000`; every byte of memory is the low byte of its address. -/
def idleTx : NetState where
  heap := ⟨fun x => UInt8.ofNat x, 0, 0, 0, 0, true⟩
  queues _ := ⟨0, ⟨fun i => ⟨0x80100000 + 2048 * i, 0, 0, 0⟩, 0, fun _ => 0, 0, fun _ => ⟨0, 0⟩⟩,
    0x80100000, 256, 0, 0, fun _ => 0⟩
  out := []
  notified := []

lemma idleTx_first : FirstFree (idleTx.queues .tx).inUse (idleTx.queues .tx).nextDesc 0 :=
  ⟨0, by norm_num, rfl, rfl, fun j hj => absurd hj (Nat.not_lt_zero j)⟩

/-- Data that begins one byte before the buffer: its first byte is copied twice. -/
theorem virt_mmio_net_send_repeats : (idleTx.queues .tx).size = 256 ∧ (idleTx.queues .tx).nextDesc < 256 ∧
    FirstFree (idleTx.queues .tx).inUse (idleTx.queues .tx).nextDesc 0 ∧
    (after (virtMmioNetSend 0x800FFFFF 2) idleTx).notified = [1] ∧
    (after (virtMmioNetSend 0x800FFFFF 2) idleTx).heap.mem (((idleTx.queues .tx).virtq.desc 0).addr + 1)
      ≠ idleTx.heap.mem (0x800FFFFF + 1) := by
  have hsent : after (virtMmioNetSend 0x800FFFFF 2) idleTx = _ :=
    virtMmioNetSend_free (by decide) rfl (by decide) idleTx_first
  refine ⟨rfl, by decide, idleTx_first, ?_, ?_⟩
  · rw [hsent]
    rfl
  · rw [hsent]
    have hbyte : (idleTx.published 2 0
        (copyUp idleTx.heap.mem ((idleTx.queues .tx).virtq.desc 0).addr 0x800FFFFF 2)).heap.mem
        (((idleTx.queues .tx).virtq.desc 0).addr + 1) = 0xFF := copyUp_inside _ _ _ (by norm_num)
    rw [hbyte]
    decide

/-- A packet of two bytes, from elsewhere. -/
theorem virt_mmio_net_send_effect_idle : (after (virtMmioNetSend 0x80200000 2) idleTx).notified = [1] :=
  (virt_mmio_net_send_effect idleTx 0x80200000 2 rfl (by decide)).1.mpr ⟨by decide, 0, by norm_num, rfl⟩

end NetStack
