import NetStack.Virtio.Leak
import NetStack.Virtio.Output

/-!
# The packet `virt_mmio_net_tx` builds

`virt_mmio_net_tx` writes a virtio header, an Ethernet header and an ARP reply into the memory it has
allocated, with the payload behind.  `stores` is the list of the bytes a piece of the driver writes;
the two frame helpers are characterised by theirs, and a field is read back because the addresses in the
list are all different.

The frame helpers are right (`frame_round_trip`).  Their caller is not: it gives the frame the Ethernet type of
IPv4 (`packet_decodes`), and it computes the size of the packet in 32 bits (`packet_in_allocation`).
-/

namespace NetStack

open ByteMem Concurrent

/-! ## What is written -/

/-- The byte an access writes. -/
def Op.stored : Op → List (ℕ × UInt8)
  | .setByte a v => [(a, v)]
  | _ => []

/-- The bytes a piece of the driver writes when nothing interferes, in order. -/
def stores {α : Type} : Driver α → NetState → List (ℕ × UInt8)
  | .ret _, _ => []
  | .op o k, s => o.stored ++ stores (k (o.exec .tx s).1) (o.exec .tx s).2

/-- The state it leaves. -/
def after {α : Type} (p : Driver α) (s : NetState) : NetState := (p.run (Op.exec .tx) s).2

/-- The memory it leaves. -/
def memAfter {α : Type} (p : Driver α) (s : NetState) : Mem := (after p s).heap.mem

section Stores

variable {α β : Type} {s : NetState}

lemma stores_bind (f : α → Driver β) : ∀ (p : Driver α) (s : NetState),
    stores (p >>= f) s = stores p s ++ stores (f (p.run (Op.exec .tx) s).1) (after p s)
  | .ret _, _ => rfl
  | .op o k, s => by
      have ih := stores_bind f (k (o.exec .tx s).1) (o.exec .tx s).2
      rw [op_bind, stores, stores, ih, List.append_assoc]
      rfl

lemma memAfter_bind (f : α → Driver β) (p : Driver α) (s : NetState) :
    memAfter (p >>= f) s = memAfter (f (p.run (Op.exec .tx) s).1) (after p s) := by
  rw [memAfter, after, run_bind]
  rfl

/-- Memory changes by what is stored. -/
lemma memAfter_eq : ∀ (p : Driver α) (s : NetState), memAfter p s = writes s.heap.mem (stores p s)
  | .ret _, _ => rfl
  | .op o k, s => by
      have ih := memAfter_eq (k (o.exec .tx s).1) (o.exec .tx s).2
      have hone : (o.exec .tx s).2.heap.mem = writes s.heap.mem o.stored := by cases o <;> rfl
      rw [stores, writes_append, ← hone, ← ih]
      rfl

lemma memAfter_outside {p : Driver α} {x : ℕ} (hx : x ∉ (stores p s).map Prod.fst) : memAfter p s x = s.heap.mem x := by
  rw [memAfter_eq, writes_outside hx]

/-- An access to memory. -/
def MemOp (o : Op) : Prop := (∃ a, o = .byte a) ∨ ∃ a v, o = .setByte a v

/-- A program that only accesses memory changes nothing else. -/
lemma after_of_memOp {p : Driver α} (h : Only MemOp p) :
    after p s = { s with heap := { s.heap with mem := memAfter p s } } := by
  have hmem : ∃ m, after p s = { s with heap := { s.heap with mem := m } } := by
    refine h.run (P := fun t => ∃ m, t = { s with heap := { s.heap with mem := m } }) ?_ ⟨s.heap.mem, rfl⟩
    rintro o (⟨a, rfl⟩ | ⟨a, v, rfl⟩) t ⟨m, rfl⟩
    · exact ⟨m, rfl⟩
    · exact ⟨write m a v, rfl⟩
  obtain ⟨m, hm⟩ := hmem
  rw [memAfter, hm]

end Stores

/-! ## Copying -/

/-- The body of `mem_copy`. -/
abbrev copyByte (dest src i : ℕ) : Driver PUnit := do
  setByte (dest + i) (← byte (src + i))

/-- A copy writes its target, in order. -/
lemma memCopy_addrs (dest src : ℕ) : ∀ (l : List ℕ) (s : NetState),
    (stores (l.forM (copyByte dest src)) s).map Prod.fst = l.map (dest + ·)
  | [], _ => rfl
  | i :: l, s => by
      have ih := memCopy_addrs dest src l (Op.exec .tx (.setByte (dest + i) (s.heap.mem (src + i))) s).2
      rw [List.map_cons, ← ih]
      rfl

/-- A copy to elsewhere writes what was there. -/
lemma memCopy_values (dest src : ℕ) : ∀ (l : List ℕ) (s : NetState), (∀ i ∈ l, ∀ j ∈ l, src + j ≠ dest + i) →
    stores (l.forM (copyByte dest src)) s = l.map fun i => (dest + i, s.heap.mem (src + i))
  | [], _, _ => rfl
  | i :: l, s, h => by
      have ih := memCopy_values dest src l (Op.exec .tx (.setByte (dest + i) (s.heap.mem (src + i))) s).2
        fun i hi j hj => h i (List.mem_cons_of_mem _ hi) j (List.mem_cons_of_mem _ hj)
      have hrest : (l.map fun j => (dest + j, write s.heap.mem (dest + i) (s.heap.mem (src + i)) (src + j))) =
          l.map fun j => (dest + j, s.heap.mem (src + j)) := by
        refine List.map_congr_left fun j hj => ?_
        rw [write_of_ne _ _ (h i List.mem_cons_self j (List.mem_cons_of_mem _ hj))]
      rw [List.map_cons, ← hrest]
      exact congrArg _ ih

lemma stores_memCopy {dest src n : ℕ} {s : NetState} (h : src + n ≤ dest ∨ dest + n ≤ src) :
    stores (memCopy dest src n) s = (List.range n).map fun i => (dest + i, s.heap.mem (src + i)) := by
  refine memCopy_values dest src (List.range n) s fun i hi j hj => ?_
  rw [List.mem_range] at hi hj
  omega

lemma mem_stores_memCopy {dest src n x : ℕ} {s : NetState} :
    x ∈ (stores (memCopy dest src n) s).map Prod.fst ↔ dest ≤ x ∧ x < dest + n := by
  rw [show stores (memCopy dest src n) s = stores ((List.range n).forM (copyByte dest src)) s from rfl, memCopy_addrs,
    List.mem_map]
  constructor
  · rintro ⟨i, hi, rfl⟩
    have hlt := List.mem_range.mp hi
    omega
  · rintro ⟨hlo, hhi⟩
    exact ⟨x - dest, List.mem_range.mpr (by omega), by omega⟩

lemma only_memCopy (dest src n : ℕ) : Only MemOp (memCopy dest src n) :=
  Only.forM fun _ _ => ⟨.inl ⟨_, rfl⟩, fun _ => ⟨.inr ⟨_, _, rfl⟩, fun _ => trivial⟩⟩

/-! ## The frame helpers -/

/-- A `uint16_t` field. -/
def u16Stores (a v : ℕ) : List (ℕ × UInt8) := [(a, UInt8.ofNat v), (a + 1, UInt8.ofNat (v >>> 8))]

/-- The stores of the header part of `build_eth_frame`. -/
def ethStores (buffer : ℕ) (dstMac srcMac : List UInt8) (ethType : ℕ) : List (ℕ × UInt8) :=
  ((List.range 6).flatMap fun i => [(buffer + i, dstMac.getD i 0), (buffer + 6 + i, srcMac.getD i 0)]) ++
    u16Stores (buffer + 12) (ntohs ethType)

/-- The stores of `build_arp_response`. -/
def arpStores (buffer : ℕ) (srcMac : List UInt8) (srcIp : ℕ) (dstMac : List UInt8) (dstIp : ℕ) : List (ℕ × UInt8) :=
  u16Stores buffer (ntohs 1) ++ u16Stores (buffer + 2) (ntohs ethPIp) ++ [(buffer + 4, (6 : UInt8)), (buffer + 5, 4)] ++
    u16Stores (buffer + 6) (ntohs 2) ++
    ((List.range 6).flatMap fun i => [(buffer + 8 + i, srcMac.getD i 0), (buffer + 18 + i, dstMac.getD i 0)]) ++
    u16Stores (buffer + 14) srcIp ++ u16Stores (buffer + 16) (srcIp >>> 16) ++
    u16Stores (buffer + 24) dstIp ++ u16Stores (buffer + 26) (dstIp >>> 16)

/-- `build_eth_frame` up to its copy. -/
def buildEthHdr (buffer : ℕ) (dstMac srcMac : List UInt8) (ethType : ℕ) : Driver PUnit := do
  (List.range 6).forM fun i => do
    setByte (buffer + i) (dstMac.getD i 0)
    setByte (buffer + 6 + i) (srcMac.getD i 0)
  setU16 (buffer + 12) (ntohs ethType)

lemma buildEthFrame_eq (buffer : ℕ) (dstMac srcMac : List UInt8) (ethType payload payloadLen : ℕ) :
    buildEthFrame buffer dstMac srcMac ethType payload payloadLen =
      buildEthHdr buffer dstMac srcMac ethType >>= fun _ =>
        memCopy (buffer + sizeofEthHdr) payload (payloadLen % 2 ^ 16) := rfl

lemma stores_buildEthHdr (buffer : ℕ) (dstMac srcMac : List UInt8) (ethType : ℕ) (s : NetState) :
    stores (buildEthHdr buffer dstMac srcMac ethType) s = ethStores buffer dstMac srcMac ethType := rfl

lemma stores_buildArpResponse (buffer : ℕ) (srcMac : List UInt8) (srcIp : ℕ) (dstMac : List UInt8) (dstIp : ℕ)
    (s : NetState) : stores (buildArpResponse buffer srcMac srcIp dstMac dstIp) s =
      arpStores buffer srcMac srcIp dstMac dstIp := rfl

lemma ethStores_addrs (buffer : ℕ) (dstMac srcMac : List UInt8) (ethType : ℕ) :
    (ethStores buffer dstMac srcMac ethType).map Prod.fst =
      [0, 6, 1, 7, 2, 8, 3, 9, 4, 10, 5, 11, 12, 13].map (buffer + ·) := rfl

lemma arpStores_addrs (buffer : ℕ) (srcMac : List UInt8) (srcIp : ℕ) (dstMac : List UInt8) (dstIp : ℕ) :
    (arpStores buffer srcMac srcIp dstMac dstIp).map Prod.fst =
      [0, 1, 2, 3, 4, 5, 6, 7, 8, 18, 9, 19, 10, 20, 11, 21, 12, 22, 13, 23, 14, 15, 16, 17, 24, 25, 26, 27].map
        (buffer + ·) := rfl

/-- Offsets that are `0` to `n - 1` in some order. -/
lemma mem_shift {offs : List ℕ} {n a x : ℕ} (h : offs.Perm (List.range n)) :
    x ∈ offs.map (a + ·) ↔ a ≤ x ∧ x < a + n := by
  rw [List.mem_map]
  constructor
  · rintro ⟨o, ho, rfl⟩
    have hlt := List.mem_range.mp (h.subset ho)
    omega
  · rintro ⟨hlo, hhi⟩
    exact ⟨x - a, h.mem_iff.mpr (List.mem_range.mpr (by omega)), by omega⟩

lemma nodup_shift {offs : List ℕ} {n : ℕ} (h : offs.Perm (List.range n)) (a : ℕ) : (offs.map (a + ·)).Nodup :=
  (h.nodup_iff.mpr List.nodup_range).map (add_right_injective a)

/-- The offsets of an ARP reply. -/
lemma arpOffsets_perm :
    [0, 1, 2, 3, 4, 5, 6, 7, 8, 18, 9, 19, 10, 20, 11, 21, 12, 22, 13, 23, 14, 15, 16, 17, 24, 25, 26, 27].Perm
      (List.range 28) := by decide

/-- The offsets of a frame with `n` bytes of payload. -/
lemma ethOffsets_perm (n : ℕ) : ([0, 6, 1, 7, 2, 8, 3, 9, 4, 10, 5, 11, 12, 13] ++ (List.range n).map (14 + ·)).Perm
    (List.range (14 + n)) := by
  rw [List.range_add]
  exact List.Perm.append_right _ (by decide)

lemma stores_buildEthFrame {buffer payload len : ℕ} {dstMac srcMac : List UInt8} {ethType : ℕ} {s : NetState}
    (hlen : len < 2 ^ 16) (hoff : payload + len ≤ buffer ∨ buffer + 14 + len ≤ payload) :
    stores (buildEthFrame buffer dstMac srcMac ethType payload len) s = ethStores buffer dstMac srcMac ethType ++
      (List.range len).map fun i => (buffer + 14 + i, s.heap.mem (payload + i)) := by
  rw [buildEthFrame_eq, stores_bind, stores_buildEthHdr, Nat.mod_eq_of_lt hlen]
  refine congrArg _ ?_
  have hcopy : payload + len ≤ buffer + sizeofEthHdr ∨ buffer + sizeofEthHdr + len ≤ payload := by
    simp only [sizeofEthHdr]
    omega
  rw [stores_memCopy hcopy]
  refine List.map_congr_left fun i hi => ?_
  -- the header is not where the payload is
  have hkept := memAfter_outside (p := buildEthHdr buffer dstMac srcMac ethType) (s := s) (x := payload + i) ?_
  · exact congrArg _ hkept
  · rw [stores_buildEthHdr, ethStores_addrs, mem_shift (n := 14) (by decide)]
    have hlt := List.mem_range.mp hi
    omega

/-! ## Reading it back -/

section Fields

variable {m : Mem} {ws : List (ℕ × UInt8)} {a v : ℕ}

lemma u16At_writes (hnd : (ws.map Prod.fst).Nodup) (h : u16Stores a v ⊆ ws) : u16At (writes m ws) a = v % 2 ^ 16 := by
  have h₀ : writes m ws a = UInt8.ofNat v := writes_apply hnd (h (by simp [u16Stores]))
  have h₁ : writes m ws (a + 1) = UInt8.ofNat (v >>> 8) := writes_apply hnd (h (by simp [u16Stores]))
  rw [u16At, h₀, h₁, UInt8.toNat_ofNat', UInt8.toNat_ofNat', Nat.shiftRight_eq_div_pow]
  omega

lemma u32At_writes (hnd : (ws.map Prod.fst).Nodup) (hlo : u16Stores a v ⊆ ws) (hhi : u16Stores (a + 2) (v >>> 16) ⊆ ws)
    (hv : v < 2 ^ 32) : u32At (writes m ws) a = v := by
  rw [u32At, u16At_writes hnd hlo, u16At_writes hnd hhi, Nat.shiftRight_eq_div_pow]
  omega

lemma bytesAt_writes {l : List UInt8} {n : ℕ} (hnd : (ws.map Prod.fst).Nodup) (hl : l.length = n)
    (h : ∀ i < n, (a + i, l.getD i 0) ∈ ws) : bytesAt (writes m ws) a n = l := by
  refine List.ext_getElem (by simp [bytesAt, hl]) fun i hi hi' => ?_
  have hget : (bytesAt (writes m ws) a n)[i] = writes m ws (a + i) := by simp [bytesAt]
  rw [hget, writes_apply hnd (h i (hl ▸ hi')), List.getD_eq_getElem _ _ hi']

lemma u16At_lt (m : Mem) (a : ℕ) : u16At m a < 2 ^ 16 := by
  have h₀ := (m a).toNat_lt
  have h₁ := (m (a + 1)).toNat_lt
  rw [u16At]
  omega

lemma ntohs_lt (n : ℕ) : ntohs n < 2 ^ 16 := Nat.mod_lt _ (by decide)

/-- Swapping twice. -/
lemma ntohs_ntohs {n : ℕ} (h : n < 2 ^ 16) : ntohs (ntohs n) = n := by
  have hswap : ∀ k < 2 ^ 16, ntohs k = 2 ^ 8 * (k % 2 ^ 8) + k / 2 ^ 8 := by
    intro k hk
    have hhigh : k >>> 8 < 2 ^ 8 := by
      rw [Nat.shiftRight_eq_div_pow]
      omega
    rw [ntohs, ← Nat.shiftLeft_add_eq_or_of_lt hhigh, Nat.shiftLeft_eq, Nat.shiftRight_eq_div_pow]
    omega
  rw [hswap _ (ntohs_lt n), hswap n h]
  omega

end Fields

/-- `struct eth_hdr`. -/
structure EthHdr where
  dst : List UInt8
  src : List UInt8
  type : ℕ
  deriving DecidableEq, Repr

/-- `struct arp_hdr`. -/
structure ArpHdr where
  htype : ℕ
  ptype : ℕ
  hlen : UInt8
  plen : UInt8
  oper : ℕ
  sha : List UInt8
  spa : ℕ
  tha : List UInt8
  tpa : ℕ
  deriving DecidableEq, Repr

/-- The structures at an address; they are packed. -/
def ethHdrAt (m : Mem) (a : ℕ) : EthHdr := ⟨bytesAt m a 6, bytesAt m (a + 6) 6, u16At m (a + 12)⟩

def arpHdrAt (m : Mem) (a : ℕ) : ArpHdr :=
  ⟨u16At m a, u16At m (a + 2), m (a + 4), m (a + 5), u16At m (a + 6), bytesAt m (a + 8) 6, u32At m (a + 14),
    bytesAt m (a + 18) 6, u32At m (a + 24)⟩

/-- `p` writes the `n` bytes from `a` on, all of them and no others, and does nothing else. -/
structure WritesExactly (p : Driver PUnit) (s : NetState) (a n : ℕ) : Prop where
  stored : ∀ x, x ∈ (stores p s).map Prod.fst ↔ a ≤ x ∧ x < a + n
  kept : ∀ x, ¬ (a ≤ x ∧ x < a + n) → memAfter p s x = s.heap.mem x
  rest : after p s = { s with heap := { s.heap with mem := memAfter p s } }

/-- A frame in memory, with the payload `body`. -/
structure EthFrameAt (m : Mem) (buffer : ℕ) (dstMac srcMac : List UInt8) (ethType : ℕ) (body : ℕ → UInt8) (len : ℕ) :
    Prop where
  dst : (ethHdrAt m buffer).dst = dstMac
  src : (ethHdrAt m buffer).src = srcMac
  type : ntohs (ethHdrAt m buffer).type = ethType
  payload : ∀ i < len, m (buffer + 14 + i) = body i

/-- An ARP reply in memory. -/
structure ArpReplyAt (m : Mem) (buffer : ℕ) (srcMac : List UInt8) (srcIp : ℕ) (dstMac : List UInt8) (dstIp : ℕ) :
    Prop where
  htype : ntohs (arpHdrAt m buffer).htype = 1
  ptype : ntohs (arpHdrAt m buffer).ptype = 0x0800
  oper : ntohs (arpHdrAt m buffer).oper = 2
  sha : (arpHdrAt m buffer).sha = srcMac
  tha : (arpHdrAt m buffer).tha = dstMac
  spa : (arpHdrAt m buffer).spa = srcIp
  tpa : (arpHdrAt m buffer).tpa = dstIp

/-- A program whose stores are at the shifted offsets `0` to `n - 1`. -/
lemma WritesExactly.of_offsets {p : Driver PUnit} {s : NetState} {a n : ℕ} {offs : List ℕ} (hp : Only MemOp p)
    (haddr : (stores p s).map Prod.fst = offs.map (a + ·)) (h : offs.Perm (List.range n)) : WritesExactly p s a n where
  stored x := by rw [haddr, mem_shift h]
  kept x hx := memAfter_outside fun hmem => hx ((mem_shift h).mp (haddr ▸ hmem))
  rest := after_of_memOp hp

section Helpers

variable {s : NetState} {buffer payload len ethType srcIp dstIp : ℕ} {dstMac srcMac : List UInt8}

lemma memOp_setByte (a : ℕ) (v : UInt8) : MemOp (.setByte a v) := .inr ⟨a, v, rfl⟩

lemma only_setU16 {A : Op → Prop} (hA : ∀ a v, A (.setByte a v)) (a v : ℕ) : Only A (setU16 a v) :=
  ⟨hA _ _, fun _ => ⟨hA _ _, fun _ => trivial⟩⟩

/-- The loop over two addresses. -/
lemma only_setMacs {A : Op → Prop} (hA : ∀ a v, A (.setByte a v)) (a b : ℕ) (u v : List UInt8) :
    Only A ((List.range 6).forM fun i => do
      setByte (a + i) (u.getD i 0)
      setByte (b + i) (v.getD i 0)) :=
  Only.forM fun _ _ => ⟨hA _ _, fun _ => ⟨hA _ _, fun _ => trivial⟩⟩

lemma only_buildEthFrame (buffer : ℕ) (dstMac srcMac : List UInt8) (ethType payload len : ℕ) :
    Only MemOp (buildEthFrame buffer dstMac srcMac ethType payload len) :=
  (only_setMacs memOp_setByte ..).bind fun _ => (only_setU16 memOp_setByte ..).bind fun _ =>
    only_memCopy _ _ _

lemma only_buildArpResponse (buffer : ℕ) (srcMac : List UInt8) (srcIp : ℕ) (dstMac : List UInt8) (dstIp : ℕ) :
    Only MemOp (buildArpResponse buffer srcMac srcIp dstMac dstIp) := by
  have hset := memOp_setByte
  have hu16 := fun a v => only_setU16 hset a v
  refine (hu16 _ _).bind fun _ => (hu16 _ _).bind fun _ => ⟨hset _ _, fun _ => ⟨hset _ _, fun _ => ?_⟩⟩
  refine (hu16 _ _).bind fun _ => (only_setMacs hset ..).bind fun _ => ?_
  exact ((hu16 _ _).bind fun _ => hu16 _ _).bind fun _ => (hu16 _ _).bind fun _ => hu16 _ _

/-- **`build_eth_frame`.** -/
lemma buildEthFrame_spec (hdst : dstMac.length = 6) (hsrc : srcMac.length = 6) (htype : ethType < 2 ^ 16)
    (hlen : len < 2 ^ 16) (hoff : payload + len ≤ buffer ∨ buffer + 14 + len ≤ payload) :
    EthFrameAt (memAfter (buildEthFrame buffer dstMac srcMac ethType payload len) s) buffer dstMac srcMac ethType
        (fun i => s.heap.mem (payload + i)) len ∧
      WritesExactly (buildEthFrame buffer dstMac srcMac ethType payload len) s buffer (14 + len) := by
  have hst : stores (buildEthFrame buffer dstMac srcMac ethType payload len) s = _ := stores_buildEthFrame hlen hoff
  have haddr : (stores (buildEthFrame buffer dstMac srcMac ethType payload len) s).map Prod.fst =
      ([0, 6, 1, 7, 2, 8, 3, 9, 4, 10, 5, 11, 12, 13] ++ (List.range len).map (14 + ·)).map (buffer + ·) := by
    rw [hst, List.map_append, ethStores_addrs, List.map_append, List.map_map, List.map_map]
    exact congrArg _ (List.map_congr_left fun i _ => Nat.add_assoc ..)
  have hnd := haddr ▸ nodup_shift (ethOffsets_perm len) buffer
  refine ⟨?_, .of_offsets (only_buildEthFrame ..) haddr (ethOffsets_perm len)⟩
  rw [memAfter_eq]
  rw [hst] at hnd ⊢
  have hhead : ethStores buffer dstMac srcMac ethType ⊆ _ := List.subset_append_left _
    ((List.range len).map fun i => (buffer + 14 + i, s.heap.mem (payload + i)))
  refine ⟨bytesAt_writes hnd hdst fun i hi => hhead ?_, bytesAt_writes hnd hsrc fun i hi => hhead ?_, ?_,
    fun i hi => ?_⟩
  · simp only [ethStores, List.mem_append, List.mem_flatMap]
    exact .inl ⟨i, List.mem_range.mpr hi, List.mem_cons_self⟩
  · simp only [ethStores, List.mem_append, List.mem_flatMap]
    exact .inl ⟨i, List.mem_range.mpr hi, List.mem_cons_of_mem _ (List.mem_singleton_self _)⟩
  · have hfield : u16Stores (buffer + 12) (ntohs ethType) ⊆ ethStores buffer dstMac srcMac ethType :=
      List.subset_append_right ..
    rw [ethHdrAt, u16At_writes hnd (List.Subset.trans hfield hhead), Nat.mod_eq_of_lt (ntohs_lt ethType),
      ntohs_ntohs htype]
  · exact writes_apply hnd (List.mem_append_right _ (List.mem_map.mpr ⟨i, List.mem_range.mpr hi, rfl⟩))

/-- **`build_arp_response`.** -/
lemma buildArpResponse_spec (hsrc : srcMac.length = 6) (hdst : dstMac.length = 6) (hsrcIp : srcIp < 2 ^ 32)
    (hdstIp : dstIp < 2 ^ 32) :
    ArpReplyAt (memAfter (buildArpResponse buffer srcMac srcIp dstMac dstIp) s) buffer srcMac srcIp dstMac dstIp ∧
      WritesExactly (buildArpResponse buffer srcMac srcIp dstMac dstIp) s buffer 28 := by
  have hst := stores_buildArpResponse buffer srcMac srcIp dstMac dstIp s
  have haddr := arpStores_addrs buffer srcMac srcIp dstMac dstIp
  have hnd : ((arpStores buffer srcMac srcIp dstMac dstIp).map Prod.fst).Nodup := by
    rw [haddr]
    exact nodup_shift arpOffsets_perm buffer
  refine ⟨?_, .of_offsets (only_buildArpResponse ..) (hst ▸ haddr) arpOffsets_perm⟩
  rw [memAfter_eq, hst]
  have hu16 : ∀ {a v}, u16Stores (buffer + a) v ⊆ arpStores buffer srcMac srcIp dstMac dstIp →
      v < 2 ^ 16 → u16At (writes s.heap.mem (arpStores buffer srcMac srcIp dstMac dstIp)) (buffer + a) = v :=
    fun hsub hv => (u16At_writes hnd hsub).trans (Nat.mod_eq_of_lt hv)
  refine ⟨?_, ?_, ?_, bytesAt_writes hnd hsrc fun i hi => ?_, bytesAt_writes hnd hdst fun i hi => ?_,
    u32At_writes hnd ?_ ?_ hsrcIp, u32At_writes hnd ?_ ?_ hdstIp⟩
  · have hfield := hu16 (a := 0) (v := ntohs 1) (by simp [arpStores, u16Stores]) (by decide)
    exact congrArg ntohs hfield
  · have hfield := hu16 (a := 2) (v := ntohs ethPIp) (by simp [arpStores, u16Stores]) (by decide)
    exact congrArg ntohs hfield
  · have hfield := hu16 (a := 6) (v := ntohs 2) (by simp [arpStores, u16Stores]) (by decide)
    exact congrArg ntohs hfield
  · simp only [arpStores, List.mem_append, List.mem_flatMap]
    have hmem : ∃ j ∈ List.range 6, (buffer + 8 + i, srcMac.getD i 0) ∈
        [(buffer + 8 + j, srcMac.getD j 0), (buffer + 18 + j, dstMac.getD j 0)] :=
      ⟨i, List.mem_range.mpr hi, List.mem_cons_self⟩
    exact .inl (.inl (.inl (.inl (.inr hmem))))
  · simp only [arpStores, List.mem_append, List.mem_flatMap]
    have hmem : ∃ j ∈ List.range 6, (buffer + 18 + i, dstMac.getD i 0) ∈
        [(buffer + 8 + j, srcMac.getD j 0), (buffer + 18 + j, dstMac.getD j 0)] :=
      ⟨i, List.mem_range.mpr hi, List.mem_cons_of_mem _ (List.mem_singleton_self _)⟩
    exact .inl (.inl (.inl (.inl (.inr hmem))))
  all_goals simp [arpStores, u16Stores]

end Helpers

/-- **The frame helpers round-trip.**  Whatever is asked of `build_eth_frame` and `build_arp_response` is read
back through the structures, and each writes its own bytes, all of them, and nothing else. -/
theorem frame_round_trip (s : NetState) (buffer payload len ethType srcIp dstIp : ℕ) (dstMac srcMac : List UInt8)
    (hdst : dstMac.length = 6) (hsrc : srcMac.length = 6) (htype : ethType < 2 ^ 16) (hlen : len ≤ 65535)
    (hoff : payload + len ≤ buffer ∨ buffer + 14 + len ≤ payload) (hsrcIp : srcIp < 2 ^ 32) (hdstIp : dstIp < 2 ^ 32) :
    (EthFrameAt (memAfter (buildEthFrame buffer dstMac srcMac ethType payload len) s) buffer dstMac srcMac ethType
        (fun i => s.heap.mem (payload + i)) len ∧
      WritesExactly (buildEthFrame buffer dstMac srcMac ethType payload len) s buffer (14 + len)) ∧
    ArpReplyAt (memAfter (buildArpResponse buffer srcMac srcIp dstMac dstIp) s) buffer srcMac srcIp dstMac dstIp ∧
      WritesExactly (buildArpResponse buffer srcMac srcIp dstMac dstIp) s buffer 28 :=
  ⟨buildEthFrame_spec hdst hsrc htype (Nat.lt_succ_of_le hlen) hoff, buildArpResponse_spec hsrc hdst hsrcIp hdstIp⟩

/-- The addresses `virt_mmio_net_tx` uses, and a payload of two bytes. -/
theorem frame_round_trip_broadcast : ∃ s : NetState, s.out = [] ∧
    EthFrameAt (memAfter (buildEthFrame 0x80001000 broadcastMac ownMac ethPIp 0x80002000 2) s) 0x80001000 broadcastMac
      ownMac ethPIp (fun i => s.heap.mem (0x80002000 + i)) 2 := by
  refine ⟨NetState.boot (twoPageLayout.boot (fun _ => 0) true), rfl, ?_⟩
  generalize NetState.boot (twoPageLayout.boot (fun _ => 0) true) = s
  exact (frame_round_trip s 0x80001000 0x80002000 2 ethPIp myIp 0 broadcastMac ownMac rfl rfl (by decide) (by decide)
    (by decide) (by decide) (by decide)).1.1

/-! ## The whole packet -/

/-- The part of `virt_mmio_net_tx` that builds the packet; `ip` is `*(uint32_t*)my_ip`. -/
def buildTxPacket (ip packet data length : ℕ) : Driver PUnit := do
  buildVirtioNetHdr packet 0 0 0 0 0 0
  let p := packet + sizeofVirtioNetHdr
  buildEthFrame p broadcastMac ownMac ethPIp data length
  let p := p + sizeofEthHdr
  buildArpResponse p ownMac (ntohl ip) broadcastMac 0
  memCopy (p + sizeofArpHdr) data length

lemma virtMmioNetTx_eq (packet data length : ℕ) : virtMmioNetTx packet data length =
    buildTxPacket myIp packet data length >>= fun _ => virtMmioNetSend data length >>= fun _ =>
      uartPuts "Data sent, waiting for completion...\n" >>= fun _ => pure false := by
  simp only [buildTxPacket, bind_bind]
  rfl

/-- What follows the Ethernet header. -/
def buildTxRest (ip packet data length : ℕ) : Driver PUnit := do
  memCopy (packet + 26) data (length % 2 ^ 16)
  buildArpResponse (packet + 26) ownMac (ntohl ip) broadcastMac 0
  memCopy (packet + 54) data length

lemma buildTxPacket_eq (ip packet data length : ℕ) : buildTxPacket ip packet data length =
    buildVirtioNetHdr packet 0 0 0 0 0 0 >>= fun _ => buildEthHdr (packet + 12) broadcastMac ownMac ethPIp >>= fun _ =>
      buildTxRest ip packet data length := by
  simp only [buildTxPacket, buildEthFrame_eq, bind_bind]
  rfl

lemma only_buildTxPacket (ip packet data length : ℕ) : Only MemOp (buildTxPacket ip packet data length) := by
  have hu16 := fun a v => only_setU16 memOp_setByte a v
  have hhdr : Only MemOp (buildVirtioNetHdr packet 0 0 0 0 0 0) :=
    ⟨memOp_setByte _ _, fun _ => ⟨memOp_setByte _ _, fun _ => (hu16 _ _).bind fun _ => (hu16 _ _).bind fun _ =>
      (hu16 _ _).bind fun _ => hu16 _ _⟩⟩
  exact hhdr.bind fun _ => (only_buildEthFrame ..).bind fun _ => (only_buildArpResponse ..).bind fun _ =>
    only_memCopy _ _ _

lemma virtioNetHdr_addrs (packet : ℕ) (s : NetState) : (stores (buildVirtioNetHdr packet 0 0 0 0 0 0) s).map Prod.fst =
    (List.range 10).map (packet + ·) := rfl

section Packet

variable {s : NetState} {ip packet data length x : ℕ}

lemma mem_stores_rest : x ∈ (stores (buildTxRest ip packet data length) s).map Prod.fst ↔
    packet + 26 ≤ x ∧ x < packet + 26 + length % 2 ^ 16 ∨ packet + 26 ≤ x ∧ x < packet + 54 + length := by
  rw [buildTxRest, stores_bind, stores_bind, stores_buildArpResponse, List.map_append, List.map_append, List.mem_append,
    List.mem_append, mem_stores_memCopy, mem_stores_memCopy, arpStores_addrs, mem_shift arpOffsets_perm]
  omega

/-- **The bytes that are written**: all of the packet but the last two of the virtio header, and whatever the
first copy of the payload covers. -/
lemma mem_stores_packet : x ∈ (stores (buildTxPacket ip packet data length) s).map Prod.fst ↔
    packet ≤ x ∧ x < packet + 10 ∨ packet + 12 ≤ x ∧ x < packet + 26 + length % 2 ^ 16 ∨
      packet + 12 ≤ x ∧ x < packet + 54 + length := by
  rw [buildTxPacket_eq, stores_bind, stores_bind, List.map_append, List.map_append, List.mem_append, List.mem_append,
    virtioNetHdr_addrs, stores_buildEthHdr, ethStores_addrs, mem_stores_rest, mem_shift (.refl _),
    mem_shift (n := 14) (by decide)]
  omega

/-- **The Ethernet type** is that of IPv4. -/
lemma ethType_packet : ethType (memAfter (buildTxPacket ip packet data length) s) (packet + 12) = ethPIp := by
  have hnd : ((ethStores (packet + 12) broadcastMac ownMac ethPIp).map Prod.fst).Nodup := by
    rw [ethStores_addrs]
    exact nodup_shift (n := 14) (by decide) _
  have hrest : ∀ x < packet + 26, memAfter (buildTxPacket ip packet data length) s x =
      writes (memAfter (buildVirtioNetHdr packet 0 0 0 0 0 0) s) (ethStores (packet + 12) broadcastMac ownMac ethPIp) x := by
    intro x hx
    rw [memAfter_eq, buildTxPacket_eq, stores_bind, stores_bind, stores_buildEthHdr, writes_append, writes_append,
      writes_outside, ← memAfter_eq]
    rw [mem_stores_rest]
    omega
  have hfield : u16Stores (packet + 12 + 12) (ntohs ethPIp) ⊆ ethStores (packet + 12) broadcastMac ownMac ethPIp :=
    List.subset_append_right ..
  have hread := u16At_writes (m := memAfter (buildVirtioNetHdr packet 0 0 0 0 0 0) s) hnd hfield
  rw [ethType, u16At, hrest _ (by omega), hrest _ (by omega)]
  exact (congrArg ntohs hread).trans (by decide)

end Packet

/-- The `uint32_t` whose bytes in memory are these. -/
def ipWord (b₀ b₁ b₂ b₃ : UInt8) : ℕ := b₀.toNat + 2 ^ 8 * b₁.toNat + 2 ^ 16 * b₂.toNat + 2 ^ 24 * b₃.toNat

/-- A received packet that is an ARP reply from `myIp` with `body` behind it, as `virt_mmio_net_poll_rx` and
`parse_arp` read it. -/
structure DecodesAsReply (m : Mem) (packet : ℕ) (myIp : List UInt8) (body : ℕ → UInt8) (length : ℕ) : Prop where
  arp : ethType m (packet + sizeofVirtioNetHdr) = ethPArp
  reply : arpOper m (packet + sizeofVirtioNetHdr + sizeofEthHdr) = 2
  sha : (arpHdrAt m (packet + sizeofVirtioNetHdr + sizeofEthHdr)).sha = (ethHdrAt m (packet + sizeofVirtioNetHdr)).src
  spa : ((List.range 4).map fun i =>
    ((arpHdrAt m (packet + sizeofVirtioNetHdr + sizeofEthHdr)).spa >>> (8 * i)) &&& 0xFF) = myIp.map UInt8.toNat
  data : ∀ i < length, m (packet + sizeofVirtioNetHdr + sizeofEthHdr + sizeofArpHdr + i) = body i

/-- **The packet never decodes to an ARP reply**, whatever the address and the payload. -/
theorem packet_decodes (s : NetState) (b₀ b₁ b₂ b₃ : UInt8) (packet data length : ℕ) :
    ¬ DecodesAsReply (memAfter (buildTxPacket (ipWord b₀ b₁ b₂ b₃) packet data length) s) packet [b₀, b₁, b₂, b₃]
      (fun i => s.heap.mem (data + i)) length := by
  intro h
  have harp := h.arp
  rw [sizeofVirtioNetHdr, ethType_packet] at harp
  exact absurd harp (by decide)

/-- A packet whose type field says IPv4. -/
theorem packet_decodes_ipv4 : ∃ s packet, ethType (memAfter (buildTxPacket (ipWord 10 0 2 15) packet 0x80004000 4) s)
      (packet + sizeofVirtioNetHdr) = ethPIp ∧
    ¬ DecodesAsReply (memAfter (buildTxPacket (ipWord 10 0 2 15) packet 0x80004000 4) s) packet [10, 0, 2, 15]
      (fun i => s.heap.mem (0x80004000 + i)) 4 := by
  refine ⟨NetState.boot (twoPageLayout.boot (fun _ => 0) true), 0x87FFA000, ethType_packet, fun h => ?_⟩
  have harp := h.arp
  rw [sizeofVirtioNetHdr, ethType_packet] at harp
  exact absurd harp (by decide)

/-! ### What is in it -/

section Contents

variable {m m' : Mem} {a : ℕ}

/-- A structure depends on its own bytes. -/
lemma ethHdrAt_congr (h : ∀ x, a ≤ x → x < a + 14 → m x = m' x) : ethHdrAt m a = ethHdrAt m' a := by
  have hdst : bytesAt m a 6 = bytesAt m' a 6 := bytesAt_congr fun i hi => h _ (by omega) (by omega)
  have hsrc : bytesAt m (a + 6) 6 = bytesAt m' (a + 6) 6 := bytesAt_congr fun i hi => h _ (by omega) (by omega)
  have htype : u16At m (a + 12) = u16At m' (a + 12) := u16At_congr fun i hi => h _ (by omega) (by omega)
  rw [ethHdrAt, ethHdrAt, hdst, hsrc, htype]

lemma arpHdrAt_congr (h : ∀ x, a ≤ x → x < a + 28 → m x = m' x) : arpHdrAt m a = arpHdrAt m' a := by
  have hu16 : ∀ {o}, o + 2 ≤ 28 → u16At m (a + o) = u16At m' (a + o) :=
    fun ho => u16At_congr fun i hi => h _ (by omega) (by omega)
  have hu32 : ∀ {o}, o + 4 ≤ 28 → u32At m (a + o) = u32At m' (a + o) :=
    fun ho => u32At_congr fun i hi => h _ (by omega) (by omega)
  have hbytes : ∀ {o}, o + 6 ≤ 28 → bytesAt m (a + o) 6 = bytesAt m' (a + o) 6 :=
    fun ho => bytesAt_congr fun i hi => h _ (by omega) (by omega)
  have htype : u16At m a = u16At m' a := u16At_congr fun i hi => h _ (by omega) (by omega)
  rw [arpHdrAt, arpHdrAt, htype, hu16 (by decide), hu16 (by decide), hu32 (by decide), hu32 (by decide),
    hbytes (by decide), hbytes (by decide), h (a + 4) (by omega) (by omega), h (a + 5) (by omega) (by omega)]

lemma ArpReplyAt.congr {srcMac dstMac : List UInt8} {srcIp dstIp : ℕ} (hr : ArpReplyAt m' a srcMac srcIp dstMac dstIp)
    (h : ∀ x, a ≤ x → x < a + 28 → m x = m' x) : ArpReplyAt m a srcMac srcIp dstMac dstIp := by
  have heq := arpHdrAt_congr h
  refine ⟨?_, ?_, ?_, ?_, ?_, ?_, ?_⟩ <;> rw [heq]
  · exact hr.htype
  · exact hr.ptype
  · exact hr.oper
  · exact hr.sha
  · exact hr.tha
  · exact hr.spa
  · exact hr.tpa

end Contents

lemma ipWord_lt (b₀ b₁ b₂ b₃ : UInt8) : ipWord b₀ b₁ b₂ b₃ < 2 ^ 32 := by
  have h₀ := b₀.toNat_lt
  have h₁ := b₁.toNat_lt
  have h₂ := b₂.toNat_lt
  have h₃ := b₃.toNat_lt
  rw [ipWord]
  omega

/-- `ntohl` turns the four bytes round. -/
lemma ntohl_ipWord (b₀ b₁ b₂ b₃ : UInt8) : ntohl (ipWord b₀ b₁ b₂ b₃) = ipWord b₃ b₂ b₁ b₀ := by
  have h₀ := b₀.toNat_lt
  have h₁ := b₁.toNat_lt
  have h₂ := b₂.toNat_lt
  have h₃ := b₃.toNat_lt
  have hand : ∀ k, k &&& 0xFF = k % 2 ^ 8 := fun k => Nat.and_two_pow_sub_one_eq_mod k 8
  have hor : ∀ {x y k}, x < 2 ^ k → x ||| (y <<< k) = x + 2 ^ k * y := by
    intro x y k hx
    rw [Nat.or_comm, ← Nat.shiftLeft_add_eq_or_of_lt hx, Nat.shiftLeft_eq, Nat.mul_comm, Nat.add_comm]
  simp only [ntohl, hand, Nat.shiftRight_eq_div_pow]
  rw [hor (k := 8) (by omega), hor (k := 16) (by omega), hor (k := 24) (by omega), ipWord, ipWord]
  omega

/-- **What the packet holds**, if it does not overlap the payload: a broadcast frame of type IPv4, an ARP reply in
which the sender's address stands backwards, and the payload. -/
theorem packet_contents (s : NetState) (b₀ b₁ b₂ b₃ : UInt8) (packet data length : ℕ) (hlen : length ≤ 65535)
    (hoff : data + length ≤ packet ∨ packet + 54 + length ≤ data) {m : Mem}
    (hm : m = memAfter (buildTxPacket (ipWord b₀ b₁ b₂ b₃) packet data length) s) :
    ethHdrAt m (packet + 12) = ⟨broadcastMac, ownMac, ntohs ethPIp⟩ ∧
      ArpReplyAt m (packet + 26) ownMac (ipWord b₃ b₂ b₁ b₀) broadcastMac 0 ∧
      ∀ i < length, m (packet + 54 + i) = s.heap.mem (data + i) := by
  rw [buildTxPacket, memAfter_bind, memAfter_bind, memAfter_bind, ntohl_ipWord] at hm
  have hhdr : ∀ x, packet + 12 ≤ x ∨ x < packet → memAfter (buildVirtioNetHdr packet 0 0 0 0 0 0) s x = s.heap.mem x := by
    intro x hx
    refine memAfter_outside ?_
    rw [virtioNetHdr_addrs, mem_shift (.refl _)]
    omega
  rw [memAfter] at hhdr
  generalize after (buildVirtioNetHdr packet 0 0 0 0 0 0) s = s₁ at hm hhdr
  obtain ⟨heth, hweth⟩ : EthFrameAt (memAfter (buildEthFrame (packet + 12) broadcastMac ownMac ethPIp data length) s₁) _ _
      _ _ _ _ ∧ WritesExactly _ s₁ _ _ :=
    buildEthFrame_spec rfl rfl (by decide) (by omega) (by omega)
  have hkept₁ := hweth.kept
  rw [memAfter] at heth hkept₁
  change m = memAfter _ (after _ (after (buildEthFrame (packet + 12) broadcastMac ownMac ethPIp data length) s₁)) at hm
  generalize after (buildEthFrame (packet + 12) broadcastMac ownMac ethPIp data length) s₁ = s₂ at hm heth hkept₁
  obtain ⟨harp, hwarp⟩ : ArpReplyAt (memAfter (buildArpResponse (packet + 26) ownMac (ipWord b₃ b₂ b₁ b₀) broadcastMac 0)
      s₂) _ _ _ _ _ ∧ WritesExactly _ s₂ _ _ :=
    buildArpResponse_spec rfl rfl (ipWord_lt b₃ b₂ b₁ b₀) (by decide)
  have hkept₂ := hwarp.kept
  rw [memAfter] at harp hkept₂
  change m = memAfter (memCopy (packet + 54) data length)
    (after (buildArpResponse (packet + 26) ownMac (ipWord b₃ b₂ b₁ b₀) broadcastMac 0) s₂) at hm
  generalize after (buildArpResponse (packet + 26) ownMac (ipWord b₃ b₂ b₁ b₀) broadcastMac 0) s₂ = s₃ at hm harp hkept₂
  -- the second copy is behind the headers
  have hkept₃ : ∀ x < packet + 54, m x = s₃.heap.mem x := by
    intro x hx
    rw [hm, memAfter_outside]
    rw [mem_stores_memCopy]
    omega
  refine ⟨?_, harp.congr fun x _ hx => hkept₃ x (by omega), fun i hi => ?_⟩
  · have heq : ethHdrAt m (packet + 12) = ethHdrAt s₂.heap.mem (packet + 12) := ethHdrAt_congr fun x _ hx => by
      rw [hkept₃ x (by omega), hkept₂ x (by omega)]
    have hlt : (ethHdrAt s₂.heap.mem (packet + 12)).type < 2 ^ 16 := u16At_lt ..
    have htype : (ethHdrAt s₂.heap.mem (packet + 12)).type = ntohs ethPIp := by
      rw [← heth.type, ntohs_ntohs hlt]
    rw [heq, ← heth.dst, ← heth.src, ← htype]
  · have hcopy : data + length ≤ packet + 54 ∨ packet + 54 + length ≤ data := by omega
    have hnd : ((stores (memCopy (packet + 54) data length) s₃).map Prod.fst).Nodup := by
      rw [stores_memCopy hcopy, List.map_map]
      exact nodup_shift (.refl _) (packet + 54)
    have hmem : (packet + 54 + i, s₃.heap.mem (data + i)) ∈ stores (memCopy (packet + 54) data length) s₃ := by
      rw [stores_memCopy hcopy]
      exact List.mem_map.mpr ⟨i, List.mem_range.mpr hi, rfl⟩
    rw [hm, memAfter_eq, writes_apply hnd hmem, hkept₂ _ (by omega), hkept₁ _ (by omega), hhdr _ (by omega)]

/-! ## Its size -/

lemma pageFloor_mem_blockPages_iff {a n x : ℕ} (ha : a % 4096 = 0) :
    pageFloor x ∈ blockPages a n ↔ a ≤ x ∧ x < a + n * 4096 := by
  refine ⟨fun h => ?_, fun h => pageFloor_mem_blockPages ha h.1 h.2⟩
  have hin := of_decide_eq_true ((mem_blockPages ha).mp h).2
  simp only [pageFloor, pageSize_eq] at hin
  omega

/-- **When the packet stays inside its allocation.**  On any heap in order and for any 32-bit length, whenever the
allocation succeeds: every byte that is written lies in the pages `mem_alloc` returned if and only if the size
does not wrap. -/
theorem packet_in_allocation (s : NetState) (l owned : List ℕ) (hs : s.heap.Split l owned) (ip data length : ℕ)
    (hlength : length < 2 ^ 32) (h' : Heap) (packet : ℕ) (halloc : MemAllocReturns s.heap (txSize length) (h', packet))
    (hp : packet ≠ 0) :
    (∀ x ∈ (stores (buildTxPacket ip packet data length) { s with heap := h' }).map Prod.fst,
      pageFloor x ∈ blockPages packet (pageCount (txSize length))) ↔ length + 54 < 2 ^ 32 := by
  have hsize : txSize length = (length + 54) % 2 ^ 32 := rfl
  have hlt : txSize length < 2 ^ 32 := Nat.mod_lt _ (by decide)
  have hpos : 0 < txSize length := by
    refine Nat.pos_of_ne_zero fun hzero => ?_
    rw [hzero] at halloc
    exact hp (Prod.mk.inj (halloc.unique ⟨0, memAlloc_zero 0 _⟩)).2
  have hcount := pageCount_eq hlt
  rcases hs.alloc_returns halloc with ⟨h0, -⟩ | ⟨-, -, l', hs'⟩
  · exact absurd h0 hp
  have hal := (hs'.block_bounds (by omega) (List.subset_append_left ..)).1
  constructor
  · intro hall
    by_contra hwrap
    -- one page for a packet of almost four gigabytes
    have hpage := hall (packet + 4096) (mem_stores_packet.mpr (.inr (.inr (by omega))))
    rw [pageFloor_mem_blockPages_iff hal] at hpage
    omega
  · intro hfit x hx
    rw [mem_stores_packet] at hx
    refine pageFloor_mem_blockPages hal ?_ ?_ <;> omega

lemma twoPageLayout_alloc (size : ℕ) (hpos : 0 < size) (hone : pageCount size = 1) :
    ∃ h', MemAllocReturns (twoPageLayout.boot (fun _ => 0) true) size (h', 0x87FFA000) := by
  obtain ⟨hhead, hfree⟩ := twoPageLayout_boot (fun _ => 0) true
  have hret := memAlloc_one hpos hone (by omega : 0 < (twoPageLayout.boot (fun _ => 0) true).freePageCount)
  rw [hhead] at hret
  exact ⟨_, 0, hret 0⟩

/-- A packet of one page. -/
theorem packet_in_allocation_page : ∃ (s : NetState) (h' : Heap), MemAllocReturns s.heap (txSize 60) (h', 0x87FFA000) ∧
    ∀ x ∈ (stores (buildTxPacket myIp 0x87FFA000 0x80004000 60) { s with heap := h' }).map Prod.fst,
      pageFloor x ∈ blockPages 0x87FFA000 (pageCount (txSize 60)) := by
  obtain ⟨h', hret⟩ := twoPageLayout_alloc (txSize 60) (by decide) (by decide)
  have hs := twoPageLayout.boot_split (fun _ => 0) true
  generalize twoPageLayout.boot (fun _ => 0) true = h at *
  exact ⟨NetState.boot h, h', hret, (packet_in_allocation (NetState.boot h) _ [] hs myIp 0x80004000 60 (by decide) h' _
    hret (by decide)).mpr (by decide)⟩

/-- **A length that wraps.**  The request is for one byte, and a page away from it the packet goes on. -/
theorem packet_wraps : ∃ (s : NetState) (h' : Heap) (x : ℕ), MemAllocReturns s.heap (txSize 0xFFFFFFCB) (h', 0x87FFA000) ∧
    x ∈ (stores (buildTxPacket myIp 0x87FFA000 0x80004000 0xFFFFFFCB) { s with heap := h' }).map Prod.fst ∧
      pageFloor x ∉ blockPages 0x87FFA000 (pageCount (txSize 0xFFFFFFCB)) := by
  obtain ⟨h', hret⟩ := twoPageLayout_alloc (txSize 0xFFFFFFCB) (by decide) (by decide)
  refine ⟨NetState.boot (twoPageLayout.boot (fun _ => 0) true), h', 0x87FFA000 + 4096, hret,
    mem_stores_packet.mpr (.inr (.inr (by decide))), ?_⟩
  rw [pageFloor_mem_blockPages_iff (by decide)]
  decide

end NetStack
