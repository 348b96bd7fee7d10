import NetStack.Lib.Privilege
import NetStack.Process.MachineTrap

/-!
# The third way through `mtrap_vector`

`MachineTrap` has the two traps that return.  Every other one goes to `m_panic`, which writes its text to the UART a
byte at a time and does not wait for anything, and then to the loop behind it.

`mtrap_ends` is the whole of `mtrap.S`: for every cause the listing comes to one of its three ends, it is not
interrupted on the way, and `MPanic\n` is written once, at one of them only.
-/

namespace NetStack

open ByteMem Riscv

/-- `UART_THR`. -/
def uartThr : ℕ := 0x10000000

/-- The text of `m_panic`. -/
def panicText : List Char := ['M', 'P', 'a', 'n', 'i', 'c', '\n']

/-- The stores that put it into `UART_THR`. -/
def panicStores : List (ℕ × UInt8) := panicText.map fun c => (uartThr, UInt8.ofNat c.toNat)

variable {L : MLayout} {h g : MHart} {cause : BitVec 64}

/-! ## `m_panic` -/

/-- A character is loaded and stored. -/
def putOps (c : Char) : List MOp := [.li .t2 (BitVec.ofNat 64 c.toNat), .sb .t2 0 .t1]

lemma mPanicText_eq : mPanicText = .li .t1 0x10000000 :: panicText.flatMap putOps := rfl

lemma opStores_puts : ∀ (text : List Char) (g : MHart), (∀ c ∈ text, c.toNat < 256) → g.reg .t1 = 0x10000000 →
    opStores (text.flatMap putOps) g = text.map fun c => (uartThr, UInt8.ofNat c.toNat)
  | [], _, _, _ => rfl
  | c :: text, g, hchar, ht1 => by
      have hbase : (g.set .t2 (BitVec.ofNat 64 c.toNat)).reg .t1 = 0x10000000 := by
        rw [MHart.set_reg, Function.update_of_ne (by decide), ht1]
      have hval : ((g.set .t2 (BitVec.ofNat 64 c.toNat)).reg .t2).toNat = c.toNat := by
        have hlt := hchar c List.mem_cons_self
        rw [MHart.set_reg, Function.update_self, BitVec.toNat_ofNat, Nat.mod_eq_of_lt (by omega)]
      have haddr : (g.set .t2 (BitVec.ofNat 64 c.toNat)).addr .t1 0 = uartThr := by
        rw [Machine.addr, hbase]
        decide
      have ih := opStores_puts text ((MOp.sb .t2 0 .t1).step (g.set .t2 (BitVec.ofNat 64 c.toNat)))
        (fun c' hc' => hchar c' (List.mem_cons_of_mem c hc')) (by rw [MOp.step_sb_reg, hbase])
      have hput : (MOp.sb .t2 0 .t1).byteStore (g.set .t2 (BitVec.ofNat 64 c.toNat)) =
          [(uartThr, UInt8.ofNat c.toNat)] := by rw [MOp.byteStore, haddr, hval]
      calc opStores ((c :: text).flatMap putOps) g
          = (MOp.sb .t2 0 .t1).byteStore (g.set .t2 (BitVec.ofNat 64 c.toNat)) ++ opStores (text.flatMap putOps)
              ((MOp.sb .t2 0 .t1).step (g.set .t2 (BitVec.ofNat 64 c.toNat))) := rfl
        _ = _ := by rw [hput, ih, List.map_cons, List.singleton_append]

/-- **The text**, whatever the registers hold. -/
lemma opStores_mPanicText (g : MHart) : opStores mPanicText g = panicStores := by
  have hstart : opStores (.li .t1 0x10000000 :: panicText.flatMap putOps) g =
      opStores (panicText.flatMap putOps) (g.set .t1 0x10000000) := rfl
  rw [mPanicText_eq, hstart, opStores_puts _ _ (by simp [panicText]) (by rw [MHart.set_reg, Function.update_self]), panicStores]

/-- **The end of `m_panic`.** -/
lemma stores_mPanic (g : MHart) : ∃ n, ∀ m, byteStores mtrap (n + m) (mPanicCode, g) = panicStores := by
  have hlabel : Stores mtrap ([.label .mPanicLoop, .j .mPanicLoop], execOps mPanicText g) []
      ([.j .mPanicLoop], execOps mPanicText g) := stores_next rfl rfl
  have hops : Stores mtrap (mPanicCode, g) (opStores mPanicText g)
      ([.label .mPanicLoop, .j .mPanicLoop], execOps mPanicText g) := stores_ops mPanicText g
  obtain ⟨n, hn⟩ := hops.trans hlabel
  refine ⟨n, fun m => ?_⟩
  rw [hn, byteStores_j rfl, opStores_mPanicText, List.append_nil, List.append_nil]

/-! ## The branches -/

/-- The two ends of the listing: `mret` if the trap is one that it knows, and `m_panic` otherwise. -/
structure TrapEnds (known : Prop) (p : List (Line MLabel) × MHart) : Prop where
  mret : known → ∃ rest, p.1 = .mret :: rest
  panic : ¬ known → p.1 = mPanicCode

lemma TrapEnds.known {known : Prop} {rest : List (Line MLabel)} (hknown : known) : TrapEnds known (.mret :: rest, g) :=
  ⟨fun _ => ⟨rest, rfl⟩, fun hnot => absurd hknown hnot⟩

lemma TrapEnds.unknown {known : Prop} (hnot : ¬ known) : TrapEnds known (mPanicCode, g) :=
  ⟨fun hknown => absurd hknown hnot, fun _ => rfl⟩

lemma leads_congr {known known' : Prop} {p : List (Line MLabel) × MHart} (hp : Leads mtrap (TrapEnds known) p)
    (hiff : known ↔ known') : Leads mtrap (TrapEnds known') p := propext hiff ▸ hp

/-- A check of the listing: another value leads to `m_panic`. -/
lemma leads_check {T : List (Line MLabel) × MHart → Prop} {rs rt : Reg} {rest : List (Line MLabel)}
    (hne : g.reg rs ≠ g.reg rt → T (mPanicCode, g)) (heq : g.reg rs = g.reg rt → Leads mtrap T (rest, g)) :
    Leads mtrap T (.bne rs rt .mPanic :: rest, g) := by
  refine leads_bne ?_
  rw [following_mPanic]
  split_ifs with h
  · exact leads_refl (hne h)
  · exact heq (not_not.mp h)

lemma mException_ends (g : MHart) :
    Leads mtrap (TrapEnds (g.reg .t1 = 9 ∧ g.reg .a7 = 0)) (mExceptionCode, g) := by
  refine leads_ops [.li .t2 9] rfl (leads_check (fun hne => ?_) fun h9 => ?_)
  · exact .unknown fun hboth => hne hboth.1
  · refine leads_ops [.li .t2 0] rfl (leads_check (fun hne => ?_) fun h0 => ?_)
    · exact .unknown fun hboth => hne hboth.2
    · exact leads_ops mSetTimer rfl (leads_ops mRestore rfl (leads_refl (.known ⟨h9, h0⟩)))

lemma mInterrupt_ends (g : MHart) :
    Leads mtrap (TrapEnds (g.reg .t1 <<< 1 >>> 1 = 7)) (handleMInterruptCode, g) := by
  refine leads_ops [.slli .t1 .t1 1, .srli .t1 .t1 1, .li .t2 7] rfl
    (leads_check (fun hne => ?_) fun h7 => ?_)
  · exact .unknown hne
  · exact leads_ops mTimer rfl (leads_ops mRestore rfl (leads_refl (.known h7)))

/-- The two traps that the listing knows. -/
def Handled (h : MHart) (cause : BitVec 64) : Prop := cause = causeEcall ∧ h.reg .a7 = 0 ∨ cause = causeTimer

/-- **Where a trap ends.** -/
lemma mtrap_leads (cause : BitVec 64) (hscratch : h.mcsr .mscratch = BitVec.ofNat 64 L.mStackTop) :
    Leads mtrap (TrapEnds (Handled h cause)) (mtrap, h.trap cause) := by
  obtain ⟨hlo, hhi, -⟩ := L.bounds
  obtain ⟨hg, ht1, -, -⟩ := mSave_spec (h := h.trap cause) hscratch hlo hhi
  have hcause : (execOps mSave (h.trap cause)).reg .t1 = cause := ht1
  have ha7 : (execOps mSave (h.trap cause)).reg .a7 = h.reg .a7 := hg.kept .a7 (by decide) (by decide) (by decide)
  have hecall : causeEcall.slt 0 = false := by decide
  refine leads_label (leads_ops mSave rfl (leads_bltz ?_))
  rw [following_handleMInterrupt, hcause]
  split_ifs with hneg
  · refine leads_congr (mInterrupt_ends _) ?_
    rw [hcause]
    constructor
    · exact fun hseven => .inr (causeTimer_iff.mp ⟨hneg, hseven⟩)
    · rintro (⟨rfl, -⟩ | htimer)
      · exact absurd hneg (by rw [hecall]; decide)
      · exact (causeTimer_iff.mpr htimer).2
  · refine leads_congr (mException_ends _) ?_
    rw [hcause, ha7]
    constructor
    · exact fun hcall => .inl hcall
    · rintro (hcall | htimer)
      · exact hcall
      · exact absurd (causeTimer_iff.mpr htimer).1 hneg

/-- No line of `mtrap.S` writes what decides which traps are taken. -/
lemma keeps_mtrap {c : MCsr} (hc : c ∈ [MCsr.mstatus, .mtvec, .medeleg, .mideleg]) : Keeps c mtrap := by
  fin_cases hc <;> decide

/-- What `mret` gives back of a trap has the CSRs that no line writes. -/
lemma mtrap_mcsr {h' : MHart} {c : MCsr} (hret : Returns mtrap (h.trap cause) h') (hc : c ∈ [MCsr.medeleg, .mideleg]) :
    h'.mcsr c = h.mcsr c := by
  have hkept : c ∈ [MCsr.mstatus, .mtvec, .medeleg, .mideleg] := by fin_cases hc <;> decide
  have hne : c ≠ .mstatus := by fin_cases hc <;> decide
  rw [hret.mcsr (keeps_mtrap hkept) hne]
  fin_cases hc <;> rfl

/-- What a trap to `mtrap_vector` comes to. -/
inductive MEnd (L : MLayout) (h : MHart) (cause : BitVec 64) : Prop
  | setTimer (hcause : cause = causeEcall) (ha7 : h.reg .a7 = 0) {h' : MHart} (hret : Returns mtrap (h.trap cause) h')
      (hdone : SetTimerDone L h h') (hsilent : ∀ n, byteStores mtrap n (mtrap, h.trap cause) = [])
  | timer (hcause : cause = causeTimer) {h' : MHart} (hret : Returns mtrap (h.trap cause) h') (hdone : TimerDone L h h')
      (hsilent : ∀ n, byteStores mtrap n (mtrap, h.trap cause) = [])
  | panic (hunknown : ¬ Handled h cause) (hnot : ∀ h', ¬ Returns mtrap (h.trap cause) h')
      (hwritten : ∀ n, byteStores mtrap n (mtrap, h.trap cause) <+: panicStores)
      (hend : ∃ n, ∀ m, byteStores mtrap (n + m) (mtrap, h.trap cause) = panicStores)

lemma silent_of_handled (hscratch : h.mcsr .mscratch = BitVec.ofNat 64 L.mStackTop) (hh : Handled h cause) (n : ℕ) :
    byteStores mtrap n (mtrap, h.trap cause) = [] := by
  obtain ⟨⟨rest, f⟩, hq, hends⟩ := mtrap_leads cause hscratch
  obtain ⟨rest', rfl⟩ := hends.mret hh
  exact List.prefix_nil.mp (hq.prefix_of_silent byteStores_mret n)

/-- **Every trap to machine mode comes to one of three ends.**  With `mscratch` as `Start.S` leaves it, and whatever
the cause: the trap is the `ecall` of `set_timer` or the timer interrupt, and returns with the effect of it and without
a byte to the UART; or it never returns, and exactly `MPanic\n` is written.  Nothing interrupts it on the way. -/
theorem mtrap_ends (L : MLayout) (h : MHart) (cause : BitVec 64)
    (hscratch : h.mcsr .mscratch = BitVec.ofNat 64 L.mStackTop) :
    MEnd L h cause ∧ ∀ p, Passes mtrap (mtrap, h.trap cause) p →
      ∀ i, ¬ p.2.InterruptsMachine i ∧ ¬ p.2.InterruptsSupervisor i := by
  refine ⟨?_, fun p hp => ?_⟩
  · by_cases hh : Handled h cause
    · have hsilent := silent_of_handled hscratch hh
      rcases hh with ⟨hcause, ha7⟩ | hcause
      · exact .setTimer hcause ha7 ((returns_iff hscratch).mpr (.inl ⟨hcause, ha7, rfl⟩)) (mSetTimerExit_done hscratch)
          hsilent
      · exact .timer hcause ((returns_iff hscratch).mpr (.inr ⟨hcause, rfl⟩)) (mTimerExit_done hscratch) hsilent
    · obtain ⟨⟨rest, f⟩, ⟨k, hk⟩, hends⟩ := mtrap_leads cause hscratch
      obtain rfl := hends.panic hh
      obtain ⟨n, hn⟩ := stores_mPanic f
      have hend : ∀ m, byteStores mtrap (k + n + m) (mtrap, h.trap cause) = panicStores := by
        intro m
        rw [Nat.add_assoc, hk, hn, List.nil_append]
      refine .panic hh (fun h' hret => hh ?_) (fun m => ?_) ⟨k + n, hend⟩
      · rcases (returns_iff hscratch).mp hret with ⟨hcause, ha7, -⟩ | ⟨hcause, -⟩
        · exact .inl ⟨hcause, ha7⟩
        · exact .inr hcause
      · have hpre : byteStores mtrap m (mtrap, h.trap cause) <+: byteStores mtrap (m + (k + n)) (mtrap, h.trap cause) :=
          byteStores_prefix m (k + n) _
        rwa [Nat.add_comm, hend] at hpre
  · exact (hp.closed (keeps_mtrap (by decide)) (List.Subset.refl _) (h.trap_closed cause)).not_interrupted

/-- An illegal instruction, right after `Start.S`. -/
theorem mtrap_ends_illegal : MEnd sampleMLayout (startHart sampleMLayout zeroHart) 2 ∧
    ∀ p, Passes mtrap (mtrap, (startHart sampleMLayout zeroHart).trap 2) p →
      ∀ i, ¬ p.2.InterruptsMachine i ∧ ¬ p.2.InterruptsSupervisor i :=
  mtrap_ends sampleMLayout (startHart sampleMLayout zeroHart) 2 (startHart_ready _ _).mscratch

end NetStack
