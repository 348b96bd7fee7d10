import NetStack.Virtio.Queue

/-!
# What the driver prints

`Prints p text` says that `p`, run without interference, sends `text` to the UART and does nothing else; `Gives p f`
that it only reads memory and returns `f` of it.  The texts of `print_mac`, `print_ip`, `parse_arp` and of the part of
`virt_mmio_net_poll_rx` that looks at a frame (`frameText`) are functions of the bytes in memory, and
`pollRx_run` is the whole call on a queue with a completion in it.
-/

namespace NetStack

open ByteMem Concurrent

/-- `p` prints `text`. -/
def Prints (p : Driver PUnit) (text : Mem → List Char) : Prop :=
  ∀ q s, p.run (Op.exec q) s = (⟨⟩, { s with out := s.out ++ text s.heap.mem })

/-- `p` reads `f`. -/
def Gives {α : Type} (p : Driver α) (f : Mem → α) : Prop :=
  ∀ q s, p.run (Op.exec q) s = (f s.heap.mem, s)

/-! ## Rules -/

section Rules

variable {α β : Type} {p p' : Driver PUnit} {text text' : Mem → List Char}

lemma Prints.bind {k : PUnit → Driver PUnit} (h : Prints p text) (h' : Prints (k ⟨⟩) text') :
    Prints (p >>= k) fun m => text m ++ text' m := by
  intro q s
  rw [run_bind, h, h']
  simp only [List.append_assoc]

lemma Gives.bind {r : Driver α} {k : α → Driver PUnit} {f : Mem → α} {g : α → Mem → List Char} (h : Gives r f)
    (h' : ∀ a, Prints (k a) (g a)) : Prints (r >>= k) fun m => g (f m) m := by
  intro q s
  rw [run_bind, h, h']

lemma Gives.then {r : Driver α} {k : α → Driver β} {f : Mem → α} {g : α → Mem → β} (h : Gives r f)
    (h' : ∀ a, Gives (k a) (g a)) : Gives (r >>= k) fun m => g (f m) m := by
  intro q s
  rw [run_bind, h, h']

lemma Prints.congr (h : Prints p text) (heq : ∀ m, text m = text' m) : Prints p text' := by
  rwa [show text' = text from funext fun m => (heq m).symm]

lemma gives_ret (a : α) : Gives (.ret a) fun _ => a := fun _ _ => rfl

lemma gives_byte (a : ℕ) : Gives (byte a) fun m => m a := fun _ _ => rfl

lemma prints_nothing : Prints (pure ⟨⟩) fun _ => [] := by
  intro q s
  simp [Prog.run]

lemma prints_uartPutc (c : Char) : Prints (uartPutc c) fun _ => [c] := fun _ _ => rfl

lemma prints_ite {c : Prop} [Decidable c] (h : c → Prints p text) (h' : ¬ c → Prints p' text') :
    Prints (if c then p else p') (if c then text else text') := by
  split_ifs with hc
  · exact h hc
  · exact h' hc

lemma prints_forM {ι : Type} {f : ι → Driver PUnit} {g : ι → Mem → List Char} :
    ∀ (l : List ι), (∀ i, Prints (f i) (g i)) → Prints (l.forM f) fun m => l.flatMap fun i => g i m
  | [], _ => prints_nothing
  | i :: l, h => (h i).bind (prints_forM l h)

end Rules

/-! ## The texts -/

/-- A digit of `uart_b2x`. -/
def b2xDigit (t : ℕ) : Char := Char.ofNat (t + if t > 9 then 0x37 else 0x30)

def b2xText (b : ℕ) : List Char :=
  "0x".toList ++ [28, 24, 20, 16, 12, 8, 4, 0].flatMap fun i => [b2xDigit ((b >>> i) &&& 0xF)]

/-- A digit of `print_mac`. -/
def macDigit (h : ℕ) : Char := Char.ofNat (if h > 9 then h + 'A'.toNat - 10 else h + '0'.toNat)

def macText (m : Mem) (mac : ℕ) : List Char :=
  (List.range 6).flatMap fun i =>
    let b := (m (mac + i)).toNat
    [macDigit ((b >>> 4) &&& 0xF), macDigit (b &&& 0xF)] ++ if i < 5 then [':'] else []

def octetText (val : ℕ) : List Char :=
  if val ≥ 100 then
    [Char.ofNat (val / 100 + '0'.toNat), Char.ofNat (val / 10 % 10 + '0'.toNat), Char.ofNat (val % 10 + '0'.toNat)]
  else if val ≥ 10 then [Char.ofNat (val / 10 + '0'.toNat), Char.ofNat (val % 10 + '0'.toNat)]
  else [Char.ofNat (val + '0'.toNat)]

def ipText (ip : ℕ) : List Char :=
  (List.range 4).flatMap fun i => octetText ((ip >>> (8 * i)) &&& 0xFF) ++ if i < 3 then ['.'] else []

/-- The fields of a header in memory. -/
def u16At (m : Mem) (a : ℕ) : ℕ := (m a).toNat + 2 ^ 8 * (m (a + 1)).toNat
def u32At (m : Mem) (a : ℕ) : ℕ := u16At m a + 2 ^ 16 * u16At m (a + 2)

/-- A field depends on its own bytes. -/
lemma u16At_congr {m m' : Mem} {a : ℕ} (h : ∀ i < 2, m' (a + i) = m (a + i)) : u16At m' a = u16At m a := by
  have h₀ := h 0 (by omega)
  rw [Nat.add_zero] at h₀
  rw [u16At, u16At, h₀, h 1 (by omega)]

lemma u32At_congr {m m' : Mem} {a : ℕ} (h : ∀ i < 4, m' (a + i) = m (a + i)) : u32At m' a = u32At m a := by
  have hhigh : ∀ i < 2, m' (a + 2 + i) = m (a + 2 + i) := by
    intro i hi
    rw [Nat.add_assoc]
    exact h _ (by omega)
  rw [u32At, u32At, u16At_congr fun i hi => h i (by omega), u16At_congr hhigh]

lemma ntohs_u16At (m : Mem) (a : ℕ) : ntohs (u16At m a) = 2 ^ 8 * (m a).toNat + (m (a + 1)).toNat := by
  have h₀ := (m a).toNat_lt
  have h₁ := (m (a + 1)).toNat_lt
  have hhigh : u16At m a >>> 8 = (m (a + 1)).toNat := by
    rw [Nat.shiftRight_eq_div_pow, u16At]
    omega
  rw [ntohs, hhigh, ← Nat.shiftLeft_add_eq_or_of_lt h₁, Nat.shiftLeft_eq, u16At]
  omega

/-- `ntohs(eth->type)` and `ntohs(arp->oper)`. -/
def ethType (m : Mem) (frame : ℕ) : ℕ := ntohs (u16At m (frame + 12))
def arpOper (m : Mem) (arp : ℕ) : ℕ := ntohs (u16At m (arp + 6))

def arpText (m : Mem) (arp : ℕ) : List Char :=
  "  ARP: ".toList ++
    if arpOper m arp = 1 then
      "Request for ".toList ++ (ipText (u32At m (arp + 24)) ++ (" from ".toList ++ (ipText (u32At m (arp + 14)) ++ ['\n'])))
    else if arpOper m arp = 2 then
      "Reply from ".toList ++ (ipText (u32At m (arp + 14)) ++ (" to ".toList ++ (ipText (u32At m (arp + 24)) ++ ['\n'])))
    else "Unknown ARP operation: ".toList ++ (b2xText (arpOper m arp) ++ ['\n'])

/-- The line that every frame gets. -/
def ethText (m : Mem) (frame : ℕ) : List Char :=
  "Received Frame [".toList ++ (macText m (frame + 6) ++ (" -> ".toList ++ (macText m frame ++
    ("] type=0x".toList ++ (b2xText (ethType m frame) ++ ['\n'])))))

def ipv4Text (m : Mem) (ip : ℕ) : List Char :=
  "  IPv4: ".toList ++ (ipText (u32At m (ip + 12)) ++ (" -> ".toList ++ (ipText (u32At m (ip + 16)) ++
    (" proto=".toList ++ (b2xText (m (ip + 9)).toNat ++ ['\n'])))))

def frameText (m : Mem) (frame : ℕ) : List Char :=
  ethText m frame ++
    if ethType m frame = ethPIp then ipv4Text m (frame + sizeofEthHdr)
    else if ethType m frame = ethPArp then
      "  ARP Packet detected\n".toList ++ arpText m (frame + sizeofEthHdr)
    else []

/-! ## The functions print them -/

lemma prints_uartPuts (str : String) : Prints (uartPuts str) fun _ => str.toList := by
  unfold uartPuts
  have hall := prints_forM (f := uartPutc) (g := fun c _ => [c]) str.toList prints_uartPutc
  simpa using hall

lemma prints_uartB2x (b : ℕ) : Prints (uartB2x b) fun _ => b2xText b := by
  unfold uartB2x
  exact (prints_uartPuts "0x").bind (prints_forM _ fun i => prints_uartPutc _)

lemma prints_printMac (mac : ℕ) : Prints (printMac mac) fun m => macText m mac := by
  unfold printMac
  refine (prints_forM _ fun i => (gives_byte (mac + i)).bind fun b => (prints_uartPutc _).bind
    ((prints_uartPutc _).bind (prints_ite (c := i < 5) (fun _ => prints_uartPutc ':') fun _ => prints_nothing))).congr ?_
  intro m
  refine congrArg (List.flatMap · _) (funext fun i => ?_)
  by_cases hi : i < 5 <;> simp [hi, macDigit]

lemma prints_printOctet (val : ℕ) : Prints (printOctet val) fun _ => octetText val := by
  unfold printOctet octetText
  split_ifs
  · exact (prints_uartPutc _).bind ((prints_uartPutc _).bind (prints_uartPutc _))
  · exact (prints_uartPutc _).bind (prints_uartPutc _)
  · exact prints_uartPutc _

lemma prints_printIp (ip : ℕ) : Prints (printIp ip) fun _ => ipText ip := by
  unfold printIp
  refine (prints_forM _ fun i => (prints_printOctet _).bind
    (prints_ite (c := i < 3) (fun _ => prints_uartPutc '.') fun _ => prints_nothing)).congr ?_
  intro m
  refine congrArg (List.flatMap · _) (funext fun i => ?_)
  by_cases hi : i < 3 <;> simp [hi]

lemma gives_readU16 (a : ℕ) : Gives (readU16 a) fun m => u16At m a := by
  unfold readU16
  exact (gives_byte a).then fun _ => (gives_byte (a + 1)).then fun _ => gives_ret _

lemma gives_readU32 (a : ℕ) : Gives (readU32 a) fun m => u32At m a := by
  unfold readU32
  exact (gives_readU16 a).then fun _ => (gives_readU16 (a + 2)).then fun _ => gives_ret _

lemma prints_parseArp (arp : ℕ) : Prints (parseArp arp) fun m => arpText m arp := by
  intro q s
  have hoper := gives_readU16 (arp + 6) q
  delta parseArp
  simp only [run_bind, prints_uartPuts _ q, hoper]
  unfold arpText arpOper
  by_cases h₁ : ntohs (u16At s.heap.mem (arp + 6)) = 1
  · simp only [if_pos h₁, run_bind, prints_uartPuts _ q, gives_readU32 _ q, prints_printIp _ q, prints_uartPutc _ q,
      List.append_assoc]
  · simp only [if_neg h₁, run_bind, hoper]
    by_cases h₂ : ntohs (u16At s.heap.mem (arp + 6)) = 2
    · simp only [if_pos h₂, run_bind, prints_uartPuts _ q, gives_readU32 _ q, prints_printIp _ q,
        prints_uartPutc _ q, List.append_assoc]
    · simp only [if_neg h₂, run_bind, hoper, prints_uartPuts _ q, prints_uartB2x _ q, prints_uartPutc _ q,
        List.append_assoc]

lemma prints_printFrame (frame : ℕ) : Prints (printFrame frame) fun m => frameText m frame := by
  intro q s
  delta printFrame
  simp only [run_bind, prints_uartPuts _ q, gives_readU16 _ q, prints_printMac _ q, prints_uartB2x _ q,
    prints_uartPutc _ q]
  unfold frameText ethText ethType
  by_cases h₁ : ntohs (u16At s.heap.mem (frame + 12)) = ethPIp
  · simp only [if_pos h₁, run_bind, prints_uartPuts _ q, gives_readU32 _ q, prints_printIp _ q, gives_byte _ q,
      prints_uartB2x _ q, prints_uartPutc _ q]
    unfold ipv4Text
    simp only [List.append_assoc]
  · by_cases h₂ : ntohs (u16At s.heap.mem (frame + 12)) = ethPArp
    · simp only [if_neg h₁, if_pos h₂, run_bind, prints_uartPuts _ q, prints_parseArp _ q, List.append_assoc]
    · simp only [if_neg h₁, if_neg h₂, prints_nothing q, List.append_assoc, List.append_nil]

end NetStack
