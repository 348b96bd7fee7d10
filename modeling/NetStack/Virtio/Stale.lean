import NetStack.Virtio.Output
import NetStack.Virtio.Init

/-!
# Stale bytes in the RX buffers

`virt_mmio_net_poll_rx` looks at the headers of a frame without asking how long the frame is.  `NoStale` says that a
poll prints and does the same whatever stands in the buffer past the delivered bytes, and reports the frame's length;
`poll_rx_no_stale` says for which frames that is so: those that are long enough for every header that is
read (`Covered`).
-/

namespace NetStack

open ByteMem Concurrent

/-! ## A call on a queue with a completion -/

/-- `virt_mmio_net_poll_rx` up to the end of the first round of its loop. -/
def pollRxOnce (length : ℕ) : Driver PollRx := do
  match ← virtMmioNetPollRx length with
  | .again n => pollRxLoop n
  | .returned => pure .returned

namespace NetState

/-- The used element a poll will look at. -/
def usedElem (s : NetState) : VirtqUsedElem :=
  (s.queues .rx).virtq.usedRing ((s.queues .rx).lastUsedIdx % (s.queues .rx).size)

/-- The buffer of its descriptor. -/
def buffer (s : NetState) : ℕ := ((s.queues .rx).virtq.desc s.usedElem.id).addr

/-- How many bytes of it were delivered, and asked for. -/
def delivered (s : NetState) (length : ℕ) : ℕ := min s.usedElem.len length

/-- A completion of a descriptor of the queue is waiting. -/
structure RxReady (s : NetState) : Prop where
  size : (s.queues .rx).size = 256
  waiting : (s.queues .rx).lastUsedIdx ≠ (s.queues .rx).virtq.usedIdx
  id : s.usedElem.id < 256
  len : s.usedElem.len < 2 ^ 32

/-- The descriptor `d` is recycled, and `text` printed. -/
def recycled (s : NetState) (d : ℕ) (text : List Char) : NetState :=
  let rx := s.queues .rx
  { s.setQueue .rx { rx with
      virtq := { rx.virtq with
        availRing := Function.update rx.virtq.availRing (rx.virtq.availIdx % 256) d
        availIdx := (rx.virtq.availIdx + 1) % 2 ^ 16 }
      lastUsedIdx := (rx.lastUsedIdx + 1) % 2 ^ 16 } with
    out := s.out ++ text
    notified := s.notified ++ [0] }

end NetState

open NetState

/-- What is printed before the frame is looked at, ... -/
def foundText (usedIdx : ℕ) : List Char :=
  "Polling for received data via Virtio Network Device...\n".toList ++
    ("Device updated used index to: ".toList ++ (b2xText usedIdx ++ ['\n']))

/-- ... and afterwards. -/
def lengthText (n : ℕ) : List Char :=
  "Received data length: ".toList ++ (b2xText n ++ (['\n'] ++ "Finished polling for received data.\n".toList))

lemma recycle_run {s : NetState} {d : ℕ} (hsize : (s.queues .rx).size = 256) (hd : d < 256) :
    (recycle d).run (Op.exec .rx) s = (⟨⟩, s.recycled d []) := by
  have hmod : d % 2 ^ 16 = d := Nat.mod_eq_of_lt (hd.trans (by norm_num))
  simp only [recycle, availIdx, size, setAvailRing, setAvailIdx, lastUsedIdx, setLastUsedIdx, virtMmioNotify, op_bind,
    ret_bind, Prog.run, Op.exec, NetState.setQueue, NetState.setVirtq, Function.update_self, hsize, hmod,
    Function.update_idem, recycled, List.append_nil, QueueIndex.toNat]

/-- **A call of `virt_mmio_net_poll_rx`** that finds a completion. -/
lemma pollRx_run {s : NetState} (length : ℕ) (h : s.RxReady) :
    (pollRxOnce length).run (Op.exec .rx) s = (.returned, s.recycled s.usedElem.id
      (foundText (s.queues .rx).virtq.usedIdx ++ (frameText s.heap.mem (s.buffer + sizeofVirtioNetHdr) ++
        lengthText (sub32 (s.delivered length) sizeofVirtioNetHdr)))) := by
  have hsize := h.size
  have hwait := h.waiting
  have hid := h.id
  have hmin : (if s.usedElem.len > length then length else s.usedElem.len) = s.delivered length := by
    rw [delivered, min_def]
    split_ifs <;> omega
  delta pollRxOnce virtMmioNetPollRx
  rw [bind_bind, run_bind, prints_uartPuts]
  simp only [pure_eq, ret_bind]
  delta pollRxLoop
  simp only [lastUsedIdx, usedIdx, size, usedId, usedLen, descAddr, op_bind, ret_bind, Prog.run]
  refine run_if_pos hwait ?_
  simp only [run_bind, prints_uartPuts _ .rx, prints_uartB2x _ .rx, prints_uartPutc _ .rx, Prog.run]
  have hlt : ¬ s.usedElem.id ≥ (s.queues .rx).size := by
    rw [hsize]
    exact not_le.mpr hid
  refine run_if_neg hlt ?_
  have hrecycle : ∀ out, (recycle s.usedElem.id).run (Op.exec .rx) { s with out := out } =
      (⟨⟩, { s with out := out }.recycled s.usedElem.id []) := fun out => recycle_run hsize hid
  simp only [run_bind, Prog.run, Op.exec, prints_uartPuts _ .rx, prints_uartB2x _ .rx, prints_uartPutc _ .rx,
    prints_printFrame _ .rx]
  rw [← usedElem, hrecycle, hmin, ← buffer]
  unfold recycled foundText lengthText
  simp only [NetState.setQueue, List.append_assoc, List.append_nil, pure_eq, Prog.run]

/-! ## Which bytes the texts depend on -/

section Congr

variable {m m' : Mem} {a f n : ℕ}

lemma macText_congr (h : ∀ i < 6, m' (a + i) = m (a + i)) : macText m' a = macText m a := by
  unfold macText
  refine List.flatMap_congr fun i hi => ?_
  rw [h i (List.mem_range.mp hi)]

lemma ethType_congr (h : ∀ i < 14, m' (f + i) = m (f + i)) : ethType m' f = ethType m f := by
  rw [ethType, ethType, u16At_congr fun i hi => ?_]
  rw [Nat.add_assoc]
  exact h _ (by omega)

lemma ethText_congr (h : ∀ i < 14, m' (f + i) = m (f + i)) : ethText m' f = ethText m f := by
  unfold ethText
  rw [ethType_congr h, macText_congr fun i hi => h i (by omega), macText_congr fun i hi => ?_]
  rw [Nat.add_assoc]
  exact h _ (by omega)

lemma arpOper_congr (h : ∀ i < 8, m' (a + i) = m (a + i)) : arpOper m' a = arpOper m a := by
  rw [arpOper, arpOper, u16At_congr fun i hi => ?_]
  rw [Nat.add_assoc]
  exact h _ (by omega)

lemma ipv4Text_congr (h : ∀ i < 20, m' (a + i) = m (a + i)) : ipv4Text m' a = ipv4Text m a := by
  have hfield : ∀ off, off + 4 ≤ 20 → u32At m' (a + off) = u32At m (a + off) := by
    intro off hle
    refine u32At_congr fun i hi => ?_
    rw [Nat.add_assoc]
    exact h _ (by omega)
  unfold ipv4Text
  rw [hfield 12 (by omega), hfield 16 (by omega), h 9 (by omega)]

lemma arpText_congr (hoper : ∀ i < 8, m' (a + i) = m (a + i))
    (haddr : arpOper m a = 1 ∨ arpOper m a = 2 → ∀ i < 28, m' (a + i) = m (a + i)) :
    arpText m' a = arpText m a := by
  have hop := arpOper_congr hoper
  have hfield : (∀ i < 28, m' (a + i) = m (a + i)) → ∀ off, off + 4 ≤ 28 →
      u32At m' (a + off) = u32At m (a + off) := by
    intro h off hle
    refine u32At_congr fun i hi => ?_
    rw [Nat.add_assoc]
    exact h _ (by omega)
  unfold arpText
  rw [hop]
  by_cases h₁ : arpOper m a = 1
  · have h := hfield (haddr (.inl h₁))
    rw [if_pos h₁, if_pos h₁, h 24 (by omega), h 14 (by omega)]
  · by_cases h₂ : arpOper m a = 2
    · have h := hfield (haddr (.inr h₂))
      rw [if_neg h₁, if_neg h₁, if_pos h₂, if_pos h₂, h 24 (by omega), h 14 (by omega)]
    · rw [if_neg h₁, if_neg h₁, if_neg h₂, if_neg h₂]

end Congr

/-- The delivered bytes, `n` of the buffer at `b`, hold every header that is looked at. -/
def Covered (m : Mem) (b n : ℕ) : Prop :=
  26 ≤ n ∧ (ethType m (b + 12) = ethPIp → 46 ≤ n) ∧
    (ethType m (b + 12) = ethPArp →
      34 ≤ n ∧ (arpOper m (b + 26) = 1 ∨ arpOper m (b + 26) = 2 → 54 ≤ n))

/-- **Then the rest of the buffer does not matter.** -/
lemma Covered.frameText_eq {m m' : Mem} {b n : ℕ} (h : Covered m b n) (hm : ∀ i < n, m' (b + i) = m (b + i)) :
    frameText m' (b + 12) = frameText m (b + 12) := by
  rcases h with ⟨heth, hip, harp⟩
  have hbytes : ∀ off k, off + k ≤ n → ∀ i < k, m' (b + off + i) = m (b + off + i) := by
    intro off k hle i hi
    rw [Nat.add_assoc]
    exact hm _ (by omega)
  have hhdr : b + 12 + sizeofEthHdr = b + 26 := rfl
  unfold frameText
  rw [ethText_congr (hbytes 12 14 (by omega)), ethType_congr (hbytes 12 14 (by omega)), hhdr]
  by_cases h₁ : ethType m (b + 12) = ethPIp
  · have := hip h₁
    rw [if_pos h₁, if_pos h₁, ipv4Text_congr (hbytes 26 20 (by omega))]
  · by_cases h₂ : ethType m (b + 12) = ethPArp
    · rcases harp h₂ with ⟨hop, hfull⟩
      rw [if_neg h₁, if_neg h₁, if_pos h₂, if_pos h₂, arpText_congr (hbytes 26 8 (by omega)) fun ho =>
        hbytes 26 28 (by have := hfull ho; omega)]
    · rw [if_neg h₁, if_neg h₁, if_neg h₂, if_neg h₂]

/-! ## What shows in the text -/

section Visible

lemma b2xText_length (b : ℕ) : (b2xText b).length = 10 := by simp [b2xText]

lemma b2xDigit_injective : ∀ x < 16, ∀ y < 16, b2xDigit x = b2xDigit y → x = y := by decide

/-- The last digit. -/
lemma mod_eq_of_b2xText {a b : ℕ} (h : b2xText a = b2xText b) : a % 16 = b % 16 := by
  have hlast := congrArg List.getLast? h
  simp only [b2xText, List.flatMap_cons, List.flatMap_nil, List.append_nil, Nat.shiftRight_zero] at hlast
  have hdigit : b2xDigit (a &&& 0xF) = b2xDigit (b &&& 0xF) := by simpa using hlast
  rw [show 0xF = 2 ^ 4 - 1 from rfl, Nat.and_two_pow_sub_one_eq_mod, Nat.and_two_pow_sub_one_eq_mod] at hdigit
  exact b2xDigit_injective _ (Nat.mod_lt _ (by norm_num)) _ (Nat.mod_lt _ (by norm_num)) hdigit

lemma octetText_head (b : ℕ) : ∃ c l, octetText b = c :: l := by
  unfold octetText
  split_ifs <;> exact ⟨_, _, rfl⟩

/-- Every octet can be told from another one by its first digit. -/
lemma exists_octet (b : ℕ) : ∃ v : UInt8, ∀ r r', octetText v.toNat ++ r ≠ octetText b ++ r' := by
  obtain ⟨c, l, hc⟩ := octetText_head b
  have hone : octetText (1 : UInt8).toNat = ['1'] := by decide
  have htwo : octetText (2 : UInt8).toNat = ['2'] := by decide
  rcases eq_or_ne c '1' with rfl | hne
  · refine ⟨2, fun r r' heq => ?_⟩
    rw [htwo, hc] at heq
    exact absurd (List.cons.inj heq).1 (by decide)
  · refine ⟨1, fun r r' heq => ?_⟩
    rw [hone, hc] at heq
    exact hne (List.cons.inj heq).1.symm

/-- The first three octets of an address, with the dots, and the last one. -/
lemma ipText_u32At (m : Mem) (a : ℕ) : ∃ l, ipText (u32At m a) = l ++ octetText (m (a + 3)).toNat ∧
    ∀ m' : Mem, (∀ i < 3, m' (a + i) = m (a + i)) → ipText (u32At m' a) = l ++ octetText (m' (a + 3)).toNat := by
  have hoctet : ∀ (m : Mem) (i : ℕ), i < 4 → (u32At m a >>> (8 * i)) &&& 0xFF = (m (a + i)).toNat := by
    intro m i hi
    have h₀ := (m a).toNat_lt
    have h₁ := (m (a + 1)).toNat_lt
    have h₂ := (m (a + 2)).toNat_lt
    have h₃ := (m (a + 3)).toNat_lt
    have hsum : u32At m a = (m a).toNat + 2 ^ 8 * (m (a + 1)).toNat + 2 ^ 16 * (m (a + 2)).toNat +
        2 ^ 24 * (m (a + 3)).toNat := by
      rw [u32At, u16At, u16At, show a + 2 + 1 = a + 3 from rfl]
      omega
    rw [show 0xFF = 2 ^ 8 - 1 from rfl, Nat.and_two_pow_sub_one_eq_mod, Nat.shiftRight_eq_div_pow, hsum]
    have hcases : i = 0 ∨ i = 1 ∨ i = 2 ∨ i = 3 := by omega
    rcases hcases with rfl | rfl | rfl | rfl
    · simp only [Nat.add_zero, Nat.mul_zero, pow_zero, Nat.div_one]
      omega
    · omega
    · omega
    · omega
  have htext : ∀ m : Mem, ipText (u32At m a) = (octetText (m (a + 0)).toNat ++ ['.'] ++ (octetText (m (a + 1)).toNat ++
      ['.']) ++ (octetText (m (a + 2)).toNat ++ ['.'])) ++ octetText (m (a + 3)).toNat := by
    intro m
    simp only [ipText, List.range_succ, List.range_zero, List.nil_append, List.flatMap_append, List.flatMap_cons,
      List.flatMap_nil, List.append_nil, hoctet m 0 (by omega), hoctet m 1 (by omega), hoctet m 2 (by omega),
      hoctet m 3 (by omega)]
    simp
  refine ⟨_, htext m, fun m' h => ?_⟩
  rw [htext m', h 0 (by omega), h 1 (by omega), h 2 (by omega)]

/-! ## A byte that is missing shows -/

section Missing

variable {m : Mem} {b : ℕ}

/-- The second byte of the type, on every frame. -/
lemma ethType_shows (m : Mem) (b : ℕ) : ∃ v, frameText (write m (b + 25) v) (b + 12) ≠ frameText m (b + 12) := by
  refine ⟨m (b + 25) + 1, fun heq => ?_⟩
  set m' := write m (b + 25) (m (b + 25) + 1) with hm'
  have hbelow : ∀ i < 12, m' (b + 12 + i) = m (b + 12 + i) := by
    intro i hi
    exact write_of_ne m _ (by omega)
  have hmac : macText m' (b + 12 + 6) = macText m (b + 12 + 6) := by
    refine macText_congr fun i hi => ?_
    rw [Nat.add_assoc (b + 12)]
    exact hbelow _ (by omega)
  have htype : ∀ m : Mem, ethType m (b + 12) = 2 ^ 8 * (m (b + 24)).toNat + (m (b + 25)).toNat :=
    fun m => ntohs_u16At m (b + 24)
  unfold frameText ethText at heq
  rw [hmac, macText_congr fun i hi => hbelow i (by omega)] at heq
  simp only [List.append_assoc, List.append_cancel_left_eq] at heq
  have hdigits := (List.append_inj heq (by rw [b2xText_length, b2xText_length])).1
  have hmod := mod_eq_of_b2xText hdigits
  rw [htype, htype, hm', write_of_ne m _ (by omega), write_same, UInt8.toNat_add] at hmod
  have hone : (1 : UInt8).toNat = 1 := rfl
  omega

/-- Past the Ethernet header, only what follows the first line can change. -/
lemma frameText_write {v : UInt8} {x : ℕ} (hx : b + 26 ≤ x) (heq : frameText (write m x v) (b + 12) = frameText m (b + 12)) :
    (ethType m (b + 12) = ethPIp → ipv4Text (write m x v) (b + 26) = ipv4Text m (b + 26)) ∧
      (ethType m (b + 12) = ethPArp → arpText (write m x v) (b + 26) = arpText m (b + 26)) := by
  have hbelow : ∀ i < 14, write m x v (b + 12 + i) = m (b + 12 + i) := by
    intro i hi
    exact write_of_ne m v (by omega)
  unfold frameText at heq
  rw [ethText_congr hbelow, ethType_congr hbelow, List.append_cancel_left_eq] at heq
  refine ⟨fun h => ?_, fun h => ?_⟩
  · rw [if_pos h, if_pos h] at heq
    exact heq
  · have hne : ethType m (b + 12) ≠ ethPIp := by
      rw [h]
      decide
    rw [if_neg hne, if_neg hne, if_pos h, if_pos h, List.append_cancel_left_eq] at heq
    exact heq

/-- The last octet of an address, with more text after it. -/
lemma ipText_shows (m : Mem) (a : ℕ) : ∃ v, ∀ r r',
    ipText (u32At (write m (a + 3) v) a) ++ r ≠ ipText (u32At m a) ++ r' := by
  obtain ⟨l, hl, hl'⟩ := ipText_u32At m a
  obtain ⟨v, hv⟩ := exists_octet (m (a + 3)).toNat
  refine ⟨v, fun r r' heq => ?_⟩
  have hsame : ∀ i < 3, write m (a + 3) v (a + i) = m (a + i) := fun i hi => write_of_ne m v (by omega)
  rw [hl, hl' _ hsame, write_same, List.append_assoc, List.append_assoc, List.append_cancel_left_eq] at heq
  exact hv r r' heq

/-- The destination of an IPv4 packet. -/
lemma ipv4_shows (h : ethType m (b + 12) = ethPIp) :
    ∃ v, frameText (write m (b + 45) v) (b + 12) ≠ frameText m (b + 12) := by
  obtain ⟨v, hv⟩ := ipText_shows m (b + 42)
  refine ⟨v, fun heq => ?_⟩
  have htext := (frameText_write (by omega) heq).1 h
  have hsrc : u32At (write m (b + 45) v) (b + 26 + 12) = u32At m (b + 26 + 12) :=
    u32At_congr fun i hi => write_of_ne m v (by omega)
  unfold ipv4Text at htext
  rw [hsrc] at htext
  simp only [List.append_cancel_left_eq] at htext
  exact hv _ _ htext

/-- The target address of an ARP packet. -/
lemma arp_address_shows (h : ethType m (b + 12) = ethPArp) (ho : arpOper m (b + 26) = 1 ∨ arpOper m (b + 26) = 2) :
    ∃ v, frameText (write m (b + 53) v) (b + 12) ≠ frameText m (b + 12) := by
  obtain ⟨v, hv⟩ := ipText_shows m (b + 50)
  refine ⟨v, fun heq => ?_⟩
  have htext := (frameText_write (by omega) heq).2 h
  have hoper : arpOper (write m (b + 53) v) (b + 26) = arpOper m (b + 26) :=
    arpOper_congr fun i hi => write_of_ne m v (by omega)
  have hspa : u32At (write m (b + 53) v) (b + 26 + 14) = u32At m (b + 26 + 14) :=
    u32At_congr fun i hi => write_of_ne m v (by omega)
  unfold arpText at htext
  rw [hoper, hspa, List.append_cancel_left_eq] at htext
  rcases ho with ho | ho
  · rw [if_pos ho, if_pos ho, List.append_cancel_left_eq] at htext
    exact hv _ _ htext
  · have hne : arpOper m (b + 26) ≠ 1 := by omega
    rw [if_neg hne, if_neg hne, if_pos ho, if_pos ho] at htext
    simp only [List.append_cancel_left_eq] at htext
    exact hv _ _ htext

/-- An operation that `parse_arp` knows. -/
def arpKnown (o : ℕ) : Prop := o = 1 ∨ o = 2

/-- The first letter tells a known operation from an unknown one. -/
lemma arpText_known {m m' : Mem} {a : ℕ} (hk : arpKnown (arpOper m a)) (hu : ¬ arpKnown (arpOper m' a)) :
    arpText m' a ≠ arpText m a := by
  intro heq
  rw [arpKnown, not_or] at hu
  unfold arpText at heq
  rw [if_neg hu.1, if_neg hu.2, List.append_cancel_left_eq] at heq
  have hhead := congrArg List.head? heq
  rcases hk with hk | hk
  · rw [if_pos hk] at hhead
    exact absurd hhead (by simp)
  · rw [if_neg (by omega), if_pos hk] at hhead
    exact absurd hhead (by simp)

/-- The second byte of the operation of an ARP packet. -/
lemma arpOper_shows (h : ethType m (b + 12) = ethPArp) :
    ∃ v, frameText (write m (b + 33) v) (b + 12) ≠ frameText m (b + 12) := by
  have hop : ∀ m : Mem, arpOper m (b + 26) = 2 ^ 8 * (m (b + 32)).toNat + (m (b + 33)).toNat :=
    fun m => ntohs_u16At m (b + 32)
  have hwrite : ∀ v, arpOper (write m (b + 33) v) (b + 26) = 2 ^ 8 * (m (b + 32)).toNat + v.toNat := by
    intro v
    rw [hop, write_of_ne m v (by omega), write_same]
  by_cases hk : arpKnown (arpOper m (b + 26))
  · refine ⟨0, fun heq => ?_⟩
    have htext := (frameText_write (by omega) heq).2 h
    refine arpText_known hk ?_ htext
    rw [arpKnown, hwrite] at *
    rw [hop] at hk
    have := (m (b + 33)).toNat_lt
    have hzero : (0 : UInt8).toNat = 0 := rfl
    omega
  · refine ⟨m (b + 33) + 1, fun heq => ?_⟩
    have htext := (frameText_write (by omega) heq).2 h
    by_cases hk' : arpKnown (arpOper (write m (b + 33) (m (b + 33) + 1)) (b + 26))
    · exact arpText_known hk' hk htext.symm
    · rw [arpKnown, not_or] at hk hk'
      unfold arpText at htext
      rw [if_neg hk.1, if_neg hk.2, if_neg hk'.1, if_neg hk'.2] at htext
      simp only [List.append_cancel_left_eq, List.append_cancel_right_eq] at htext
      have hmod := mod_eq_of_b2xText htext
      rw [hwrite, hop, UInt8.toNat_add] at hmod
      have hone : (1 : UInt8).toNat = 1 := rfl
      omega

end Missing

end Visible

/-! ## The property -/

/-- The same state, but for memory from `lo` up to `hi`. -/
structure SameBut (s s' : NetState) (lo hi : ℕ) : Prop where
  mem : ∀ x, ¬ (lo ≤ x ∧ x < hi) → s'.heap.mem x = s.heap.mem x
  rest : s' = { s with heap := { s.heap with mem := s'.heap.mem } }

/-- **A poll sees the delivered bytes only**, and reports how many of them are the frame's. -/
structure NoStale (s : NetState) (length : ℕ) : Prop where
  same : ∀ s', SameBut s s' (s.buffer + s.delivered length) (s.buffer + queueBufSize) →
    ((pollRxOnce length).run (Op.exec .rx) s').2.out = ((pollRxOnce length).run (Op.exec .rx) s).2.out ∧
    ((pollRxOnce length).run (Op.exec .rx) s').2.queues = ((pollRxOnce length).run (Op.exec .rx) s).2.queues ∧
    ((pollRxOnce length).run (Op.exec .rx) s').2.notified = ((pollRxOnce length).run (Op.exec .rx) s).2.notified
  /-- the length is no wrapped value -/
  length : ∃ text n, ((pollRxOnce length).run (Op.exec .rx) s).2.out = text ++ lengthText n ∧ n < 2 ^ 32 ∧
    n + sizeofVirtioNetHdr = s.delivered length

section Property

variable {s s' : NetState} {length lo hi : ℕ}

lemma SameBut.queues (h : SameBut s s' lo hi) : s'.queues = s.queues := by rw [h.rest]

lemma SameBut.usedElem (h : SameBut s s' lo hi) : s'.usedElem = s.usedElem := by
  rw [NetState.usedElem, NetState.usedElem, h.queues]

lemma SameBut.buffer (h : SameBut s s' lo hi) : s'.buffer = s.buffer := by
  rw [NetState.buffer, NetState.buffer, h.usedElem, h.queues]

lemma SameBut.ready (h : SameBut s s' lo hi) (hs : s.RxReady) : s'.RxReady := by
  refine ⟨?_, ?_, ?_, ?_⟩
  · rw [h.queues]
    exact hs.size
  · rw [h.queues]
    exact hs.waiting
  · rw [h.usedElem]
    exact hs.id
  · rw [h.usedElem]
    exact hs.len

variable (length) in
/-- Two polls differ in what they print about the frame, if at all. -/
lemma SameBut.run_eq (h : SameBut s s' lo hi) (hs : s.RxReady) :
    ((pollRxOnce length).run (Op.exec .rx) s').2.queues = ((pollRxOnce length).run (Op.exec .rx) s).2.queues ∧
    ((pollRxOnce length).run (Op.exec .rx) s').2.notified = ((pollRxOnce length).run (Op.exec .rx) s).2.notified ∧
    (((pollRxOnce length).run (Op.exec .rx) s').2.out = ((pollRxOnce length).run (Op.exec .rx) s).2.out ↔
      frameText s'.heap.mem (s.buffer + 12) = frameText s.heap.mem (s.buffer + 12)) := by
  have hnot : s'.notified = s.notified := by rw [h.rest]
  have hout : s'.out = s.out := by rw [h.rest]
  have hdel : s'.delivered length = s.delivered length := by rw [delivered, delivered, h.usedElem]
  rw [pollRx_run length hs, pollRx_run length (h.ready hs), h.usedElem, h.buffer, h.queues, hdel]
  refine ⟨?_, ?_, ?_⟩
  · simp only [recycled, NetState.setQueue, h.queues]
  · simp only [recycled, hnot]
  · simp only [recycled, hout, List.append_cancel_left_eq, List.append_cancel_right_eq, sizeofVirtioNetHdr]

lemma Covered.noStale (h : Covered s.heap.mem s.buffer (s.delivered length)) (hs : s.RxReady) : NoStale s length where
  same := by
    intro s' hsame
    rcases hsame.run_eq length hs with ⟨hq, hn, hout⟩
    refine ⟨hout.mpr (h.frameText_eq fun i hi => hsame.mem _ ?_), hq, hn⟩
    omega
  length := by
    have hlt : s.delivered length < 2 ^ 32 := lt_of_le_of_lt (min_le_left ..) hs.len
    have hmin : 26 ≤ s.delivered length := h.1
    rw [pollRx_run length hs]
    refine ⟨s.out ++ (foundText (s.queues .rx).virtq.usedIdx ++ frameText s.heap.mem (s.buffer + sizeofVirtioNetHdr)),
      sub32 (s.delivered length) sizeofVirtioNetHdr, ?_, ?_, ?_⟩
    · simp only [recycled, List.append_assoc]
    · exact Nat.mod_lt _ (by norm_num)
    · simp only [sub32, sizeofVirtioNetHdr]
      omega

/-- A byte that was not delivered, and shows. -/
lemma NoStale.not_shown (h : NoStale s length) (hs : s.RxReady) {off : ℕ} {v : UInt8}
    (hoff : s.delivered length ≤ off) (hlt : off < queueBufSize) :
    frameText (write s.heap.mem (s.buffer + off) v) (s.buffer + 12) = frameText s.heap.mem (s.buffer + 12) := by
  let s' : NetState := { s with heap := { s.heap with mem := write s.heap.mem (s.buffer + off) v } }
  have hsame : SameBut s s' (s.buffer + s.delivered length) (s.buffer + queueBufSize) := by
    refine ⟨fun x hx => write_of_ne _ v ?_, rfl⟩
    omega
  exact (hsame.run_eq length hs).2.2.mp (h.same s' hsame).1

lemma NoStale.covered (h : NoStale s length) (hs : s.RxReady) :
    Covered s.heap.mem s.buffer (s.delivered length) := by
  have hshows : ∀ off < queueBufSize,
      (∃ v, frameText (write s.heap.mem (s.buffer + off) v) (s.buffer + 12) ≠ frameText s.heap.mem (s.buffer + 12)) →
        off + 1 ≤ s.delivered length := by
    rintro off hoff ⟨v, hv⟩
    by_contra hlt
    exact hv (h.not_shown hs (by omega) hoff)
  refine ⟨hshows 25 (by decide) (ethType_shows ..), fun hip => hshows 45 (by decide) (ipv4_shows hip), fun harp =>
    ⟨hshows 33 (by decide) (arpOper_shows harp), fun ho => hshows 53 (by decide) (arp_address_shows harp ho)⟩⟩

end Property

/-- **Stale bytes stay out of a poll exactly if the frame is long enough** for every header that is looked at. -/
theorem poll_rx_no_stale {s : NetState} (length : ℕ) (h : s.RxReady) :
    NoStale s length ↔ Covered s.heap.mem s.buffer (s.delivered length) :=
  ⟨fun hstale => hstale.covered h, fun hcov => hcov.noStale h⟩

/-- Right after initialisation, the device completes descriptor 0 with a length. -/
def firstCompletion (s : NetState) (len : ℕ) : NetState :=
  s.setVirtq .rx { (s.queues .rx).virtq with usedIdx := 1, usedRing := fun _ => ⟨0, len⟩ }

lemma firstCompletion_ready : ∃ limit s,
    virtMmioNetVirtqInit limit (.boot (queueLayout.boot (fun _ => 0) true)) = some (s, true) ∧
      ∀ len < 2 ^ 32, (firstCompletion s len).RxReady ∧ (firstCompletion s len).usedElem.len = len := by
  rcases queueLayout_init with ⟨limit, s, hinit⟩
  have hsplit : (NetState.boot (queueLayout.boot (fun _ => 0) true)).heap.Split _ _ :=
    queueLayout.boot_split (fun _ => 0) true
  rcases virtMmioNetVirtqInit_spec hsplit hinit with ⟨⟨-, -, -, hsize, hlast, -⟩, -⟩
  refine ⟨limit, s, hinit, fun len hlen => ⟨⟨?_, ?_, ?_, ?_⟩, ?_⟩⟩
  · simpa [firstCompletion] using hsize
  · simp [firstCompletion, hlast]
  · simp [firstCompletion, usedElem]
  · simpa [firstCompletion, usedElem] using hlen
  · simp [firstCompletion, usedElem]

/-- A frame of 60 bytes, with its header. -/
theorem poll_rx_no_stale_longFrame : ∃ s : NetState, s.RxReady ∧ s.delivered 2048 = 72 ∧ NoStale s 2048 := by
  rcases firstCompletion_ready with ⟨_, s, _, hs⟩
  rcases hs 72 (by norm_num) with ⟨hready, hlen⟩
  have hdel : (firstCompletion s 72).delivered 2048 = 72 := by
    rw [delivered, hlen]
    rfl
  refine ⟨_, hready, hdel, (poll_rx_no_stale 2048 hready).mpr ?_⟩
  rw [hdel]
  exact ⟨by norm_num, fun _ => by norm_num, fun _ => ⟨by norm_num, fun _ => by norm_num⟩⟩

/-- A completion of length 0: the headers of an earlier frame are printed as its own. -/
theorem poll_rx_stale : ∃ limit s,
    virtMmioNetVirtqInit limit (.boot (queueLayout.boot (fun _ => 0) true)) = some (s, true) ∧
      (firstCompletion s 0).RxReady ∧ ¬ NoStale (firstCompletion s 0) 2048 := by
  rcases firstCompletion_ready with ⟨limit, s, hinit, hs⟩
  rcases hs 0 (by norm_num) with ⟨hready, hlen⟩
  refine ⟨limit, s, hinit, hready, fun hstale => ?_⟩
  have hmin : 26 ≤ (firstCompletion s 0).delivered 2048 := (hstale.covered hready).1
  rw [delivered, hlen] at hmin
  exact absurd hmin (by decide)

end NetStack
