import NetStack.Dtb.Traverse
import NetStack.Lib.Trace

/-!
# What the device-tree walk reads

`Traverse` says what `fdt_traverse` computes; here every load of `dtb.c` and of the string functions it uses
is an operation of its own, so that a run has a trace.  The functions are the same ones, as programs:
`string_len`, `parse_dtb_unit_name`, `string_comp_l`, `dtb_callback`, `fdt_traverse`, in the source's order of
loads.  `fdtTraverse_run` says that the two readings agree.

An `int` index that is counted past its maximum is undefined in C.  The programs mark the place and count on.
-/

namespace NetStack

open ByteMem Concurrent

/-! ## Operations -/

/-- The string literals of `dtb_callback`. -/
inductive Compatible
  | ns16550a
  | virtioMmio
  deriving DecidableEq, Repr

/-- `"ns16550a"` and `"virtio,mmio"`, with the terminating `NUL`. -/
def Compatible.bytes : Compatible → List UInt8
  | .ns16550a => [110, 115, 49, 54, 53, 53, 48, 97, 0]
  | .virtioMmio => [118, 105, 114, 116, 105, 111, 44, 109, 109, 105, 111, 0]

/-- What the walk reads, and what else it does. -/
inductive DtbOp
  /-- a field of `struct fdt_header` -/
  | header (a : ℕ)
  /-- `token = *(uint32_t*)struct_ptr;` -/
  | token (a : ℕ)
  /-- another `uint32_t` of the structure block -/
  | word (a : ℕ)
  /-- a character of a name or of a value -/
  | byte (a : ℕ)
  /-- a character of a literal -/
  | literal (l : Compatible) (i : ℕ)
  /-- an `int` index goes past `INT_MAX` -/
  | overflow
  /-- `callback(p, n)`, for a callback that is left open -/
  | call (p n : ℕ)
  deriving DecidableEq, Repr

@[reducible] def DtbOp.Resp : DtbOp → Type
  | .header _ | .token _ | .word _ | .call _ _ => ℕ
  | .byte _ | .literal _ _ => UInt8
  | .overflow => PUnit

/-- What the operations see: the memory, what follows a literal in it, and what the callback returns. -/
structure DtbEnv where
  mem : Mem
  after : Compatible → ℕ → UInt8
  result : ℕ → ℕ → ℕ

/-- A character of a literal, or of what follows it. -/
def DtbEnv.literal (E : DtbEnv) (l : Compatible) (i : ℕ) : UInt8 := l.bytes.getD i (E.after l i)

def DtbOp.exec : (o : DtbOp) → DtbEnv → o.Resp × DtbEnv
  | .header a, E | .token a, E | .word a, E => (loadLE E.mem 4 a, E)
  | .byte a, E => (E.mem a, E)
  | .literal l i, E => (E.literal l i, E)
  | .overflow, E => (⟨⟩, E)
  | .call p n, E => (E.result p n, E)

/-- Nothing the walk does changes what it sees. -/
lemma run_snd {α : Type} : ∀ (p : Prog DtbOp DtbOp.Resp α) (E : DtbEnv), (p.run DtbOp.exec E).2 = E
  | .ret _, _ => rfl
  | .op o k, E => by
      have hE : (DtbOp.exec o E).2 = E := by cases o <;> rfl
      rw [Prog.run, run_snd, hE]

namespace Dtb

/-- A piece of the walk; it gives up when a loop runs out of its bound. -/
abbrev Walk : Type → Type := Bounded DtbOp DtbOp.Resp

def header (a : ℕ) : Walk ℕ := .op (.header a) fun v => .ret (some (be2le v))
def token (a : ℕ) : Walk ℕ := .op (.token a) fun v => .ret (some (be2le v))
def word (a : ℕ) : Walk ℕ := .op (.word a) fun v => .ret (some (be2le v))
def byte (a : ℕ) : Walk UInt8 := .op (.byte a) fun c => .ret (some c)
def literal (l : Compatible) (i : ℕ) : Walk UInt8 := .op (.literal l i) fun c => .ret (some c)

/-- `i++` on an `int`. -/
def increment (i : ℕ) : Walk ℕ :=
  if i + 1 < 2 ^ 31 then .ret (some (i + 1)) else .op .overflow fun _ => .ret (some (i + 1))

/-! ## The functions -/

/-- `string_len`. -/
def stringLen (str : ℕ) : (fuel i : ℕ) → Walk ℕ
  | 0, _ => failure
  | fuel + 1, i => do
      let c ← byte (str + i)
      if c = 0 ∨ c = 10 then pure i
      else
        let i ← increment i
        stringLen str fuel i

/-- `while (*p != '@' && *p != '\0') p++;` -/
def skipToAt : (fuel p : ℕ) → Walk ℕ
  | 0, _ => failure
  | fuel + 1, p => do
      let c ← byte p
      if c ≠ 64 ∧ c ≠ 0 then skipToAt fuel (p + 1) else pure p

/-- The value of a hexadecimal digit, in the order of the source's tests. -/
def hexDigit (c : ℕ) : Option ℕ :=
  if 48 ≤ c ∧ c ≤ 57 then some (c - 48)
  else if 97 ≤ c ∧ c ≤ 102 then some (c - 97 + 10)
  else if 65 ≤ c ∧ c ≤ 70 then some (c - 65 + 10)
  else none

/-- The loop over the digits. -/
def hexDigits (p : ℕ) : (fuel i addr : ℕ) → Walk ℕ
  | 0, _, _ => failure
  | fuel + 1, i, addr => do
      let c ← byte (p + i)
      if c = 0 then pure addr
      else
        let addr := (addr <<< 4) % 2 ^ 64
        match hexDigit c.toNat with
        | some d =>
            let i ← increment i
            hexDigits p fuel i ((addr + d) % 2 ^ 64)
        | none => pure addr

/-- `parse_dtb_unit_name`. -/
def parseDtbUnitName (limit unitName : ℕ) : Walk ℕ := do
  let p ← skipToAt limit unitName
  hexDigits (p + 1) limit 0 0

/-- The loop of `string_comp_l`, with `n` characters to go. -/
def stringCompFrom (str1 : ℕ) (str2 : Compatible) : (n i : ℕ) → Walk ℤ
  | 0, _ => pure 0
  | n + 1, i => do
      let c ← byte (str1 + i)
      let d ← literal str2 i
      if c > d then pure 1
      else if c < d then pure (-1)
      else stringCompFrom str1 str2 n (i + 1)

/-- `string_comp_l`, on a literal.  A negative `len` compares nothing. -/
def stringCompL (str1 : ℕ) (str2 : Compatible) (len : ℤ) : Walk ℤ := stringCompFrom str1 str2 len.toNat 0

/-- An `unsigned int` as an `int`. -/
def toInt (n : ℕ) : ℤ := if n < 2 ^ 31 then n else n - 2 ^ 32

/-- `dtb_callback`. -/
def dtbCallback (stringAddr propLen : ℕ) : Walk ℕ := do
  if (← stringCompL stringAddr .ns16550a (toInt propLen)) = 0 then pure 1
  else if (← stringCompL stringAddr .virtioMmio (toInt propLen)) = 0 then pure 2
  else pure 0

/-- A callback that is left open. -/
def anyCallback (p n : ℕ) : Walk ℕ := .op (.call p n) fun r => .ret (some r)

section

variable (limit : ℕ) (callback : ℕ → ℕ → Walk ℕ)

/-- What the loop body does after the token: the new `struct_ptr`, or `none` at an unknown token. -/
def fdtPiece (token structPtr : ℕ) : Walk (Option ℕ) :=
  if token = fdtNop then pure (some structPtr)
  else if token = fdtBeginNode then do
    let printLen ← stringLen structPtr limit 0
    let _addr ← parseDtbUnitName limit structPtr
    let structPtr := structPtr + printLen + 1
    pure (some (structPtr + alignMemOffset structPtr 4))
  else if token = fdtProp then do
    let propLen ← word structPtr
    let structPtr := structPtr + 8
    if propLen > 0 then do
      let _ret ← callback structPtr propLen
      let structPtr := structPtr + propLen
      pure (some (structPtr + alignMemOffset structPtr 4))
    else pure (some (structPtr + alignMemOffset structPtr 4))
  else if token = fdtEndNode then pure (some structPtr)
  else if token = fdtEnd then pure (some structPtr)
  else pure none

/-- The token loop.  Its condition reads `off_dt_struct` again each time. -/
def fdtLoop (fdt structSize : ℕ) : (fuel structPtr : ℕ) → Walk FdtExit
  | 0, _ => failure
  | fuel + 1, structPtr => do
      let off ← header (fdt + 8)
      if structPtr < fdt + off + structSize then
        let token ← token structPtr
        match ← fdtPiece limit callback token (structPtr + 4) with
        | none => pure (.badToken (structPtr + 4))
        | some structPtr => fdtLoop fdt structSize fuel structPtr
      else pure (.finished structPtr)

/-- `fdt_traverse`, on the blob at `fdt`. -/
def fdtTraverse (fdt : ℕ) : Walk FdtExit := do
  if (← header fdt) ≠ fdtMagic then pure .badMagic
  else
    let structSize ← header (fdt + 36)
    let off ← header (fdt + 8)
    fdtLoop limit callback fdt structSize limit (fdt + off)

end

/-! ## Loads, one by one -/

section

variable {α : Type} (E : DtbEnv)

/-- The result of a piece of the walk. -/
def result (w : Walk α) : Option α := (Prog.run DtbOp.exec w E).1

/-- Its operations. -/
def ops (w : Walk α) : List DtbOp := Prog.trace DtbOp.exec w E

/-- The overflow, if there is one, of `i++`. -/
def marks (i : ℕ) : List DtbOp := if i + 1 < 2 ^ 31 then [] else [.overflow]

variable {E} {β : Type}

lemma run_eq (w : Walk α) : Prog.run DtbOp.exec w E = (result E w, E) := Prod.ext rfl (run_snd _ _)

@[simp] lemma result_pure (a : α) : result E (pure a) = some a := rfl
@[simp] lemma ops_pure (a : α) : ops E (pure a : Walk α) = [] := rfl

@[simp] lemma result_header (a : ℕ) (k : ℕ → Walk α) : result E (header a >>= k) = result E (k (readBE E.mem a)) := rfl
@[simp] lemma ops_header (a : ℕ) (k : ℕ → Walk α) :
    ops E (header a >>= k) = .header a :: ops E (k (readBE E.mem a)) := rfl
@[simp] lemma result_token (a : ℕ) (k : ℕ → Walk α) : result E (token a >>= k) = result E (k (readBE E.mem a)) := rfl
@[simp] lemma ops_token (a : ℕ) (k : ℕ → Walk α) :
    ops E (token a >>= k) = .token a :: ops E (k (readBE E.mem a)) := rfl
@[simp] lemma result_word (a : ℕ) (k : ℕ → Walk α) : result E (word a >>= k) = result E (k (readBE E.mem a)) := rfl
@[simp] lemma ops_word (a : ℕ) (k : ℕ → Walk α) : ops E (word a >>= k) = .word a :: ops E (k (readBE E.mem a)) := rfl
@[simp] lemma result_byte (a : ℕ) (k : UInt8 → Walk α) : result E (byte a >>= k) = result E (k (E.mem a)) := rfl
@[simp] lemma ops_byte (a : ℕ) (k : UInt8 → Walk α) : ops E (byte a >>= k) = .byte a :: ops E (k (E.mem a)) := rfl
@[simp] lemma result_literal (l : Compatible) (i : ℕ) (k : UInt8 → Walk α) :
    result E (literal l i >>= k) = result E (k (E.literal l i)) := rfl
@[simp] lemma ops_literal (l : Compatible) (i : ℕ) (k : UInt8 → Walk α) :
    ops E (literal l i >>= k) = .literal l i :: ops E (k (E.literal l i)) := rfl

@[simp] lemma result_increment (i : ℕ) (k : ℕ → Walk α) : result E (increment i >>= k) = result E (k (i + 1)) := by
  unfold increment
  split_ifs <;> rfl

@[simp] lemma ops_increment (i : ℕ) (k : ℕ → Walk α) :
    ops E (increment i >>= k) = marks i ++ ops E (k (i + 1)) := by
  unfold increment marks
  split_ifs <;> rfl

/-- Sequencing after a piece that returns. -/
lemma result_bind {w : Walk α} {a : α} (h : result E w = some a) (k : α → Walk β) :
    result E (w >>= k) = result E (k a) :=
  congrArg Prod.fst (run_optionBind_some ((run_eq w).trans (congrArg (·, E) h)))

lemma result_bind_none {w : Walk α} (h : result E w = none) (k : α → Walk β) : result E (w >>= k) = none :=
  congrArg Prod.fst (run_optionBind_none ((run_eq w).trans (congrArg (·, E) h)))

lemma ops_bind {w : Walk α} {a : α} (h : result E w = some a) (k : α → Walk β) :
    ops E (w >>= k) = ops E w ++ ops E (k a) :=
  trace_optionBind_some ((run_eq w).trans (congrArg (·, E) h))

lemma ops_bind_none {w : Walk α} (h : result E w = none) (k : α → Walk β) : ops E (w >>= k) = ops E w :=
  trace_optionBind_none ((run_eq w).trans (congrArg (·, E) h))

/-- A piece is run first. -/
lemma ops_subset_bind (w : Walk α) (k : α → Walk β) : ops E w ⊆ ops E (w >>= k) := by
  cases h : result E w with
  | none => exact (ops_bind_none h k).symm ▸ List.Subset.refl _
  | some a => exact (ops_bind h k).symm ▸ List.subset_append_left _ _

end

/-! ## The same functions -/

section

variable {E : DtbEnv}

lemma result_stringLen (str : ℕ) : ∀ fuel i, result E (stringLen str fuel i) = NetStack.stringLen E.mem str fuel i
  | 0, _ => rfl
  | fuel + 1, i => by
      rw [stringLen, result_byte, NetStack.stringLen]
      split_ifs
      · rfl
      · rw [result_increment, result_stringLen str fuel]

lemma result_skipToAt : ∀ fuel p, result E (skipToAt fuel p) = NetStack.skipToAt E.mem fuel p
  | 0, _ => rfl
  | fuel + 1, p => by
      rw [skipToAt, result_byte, NetStack.skipToAt]
      split_ifs
      · rw [result_skipToAt fuel]
      · rfl

/-- The loop over the digits, with its three ranges in one. -/
lemma hexDigits_succ (m : Mem) (p fuel i addr : ℕ) : NetStack.hexDigits m p (fuel + 1) i addr =
    if m (p + i) = 0 then some addr
    else match hexDigit (m (p + i)).toNat with
      | some d => NetStack.hexDigits m p fuel (i + 1) (((addr <<< 4) % 2 ^ 64 + d) % 2 ^ 64)
      | none => some ((addr <<< 4) % 2 ^ 64) := by
  have hzero : m (p + i) = 0 ↔ (m (p + i)).toNat = 0 := by
    rw [← UInt8.toNat_inj]
    rfl
  rw [NetStack.hexDigits, hexDigit]
  simp only [hzero]
  split_ifs <;> rfl

lemma result_hexDigits (p : ℕ) : ∀ fuel i addr,
    result E (hexDigits p fuel i addr) = NetStack.hexDigits E.mem p fuel i addr
  | 0, _, _ => rfl
  | fuel + 1, i, addr => by
      rw [hexDigits, result_byte, hexDigits_succ]
      split_ifs
      · rfl
      · dsimp only
        cases hexDigit (E.mem (p + i)).toNat with
        | some d => exact (result_increment i _).trans (result_hexDigits p fuel _ _)
        | none => rfl

lemma result_parseDtbUnitName (limit p : ℕ) :
    result E (parseDtbUnitName limit p) = NetStack.parseDtbUnitName limit E.mem p := by
  rw [parseDtbUnitName, NetStack.parseDtbUnitName, ← result_skipToAt (E := E)]
  cases h : result E (skipToAt limit p) with
  | none => exact result_bind_none h _
  | some q => rw [result_bind h, result_hexDigits]; rfl

end

/-! ## Scans -/

/-- What `string_len` stops at, what ends the search for `@`, and what ends the digits. -/
def endsString (c : UInt8) : Bool := c = 0 ∨ c = 10
def endsSearch (c : UInt8) : Bool := c = 64 ∨ c = 0
def endsDigits (c : UInt8) : Bool := (hexDigit c.toNat).isNone

/-- The first character from `q` on that ends a scan is the `n`-th. -/
structure First (m : Mem) (ends : UInt8 → Bool) (q n : ℕ) : Prop where
  found : ends (m (q + n)) = true
  before : ∀ i < n, ends (m (q + i)) = false

/-- The operations of a scan, from the `i`-th character on. -/
def scanOps (m : Mem) (ends : UInt8 → Bool) (indexed : Bool) (q : ℕ) : (fuel i : ℕ) → List DtbOp
  | 0, _ => []
  | fuel + 1, i =>
      .byte (q + i) :: if ends (m (q + i)) then [] else
        (if indexed then marks i else []) ++ scanOps m ends indexed q fuel (i + 1)

section

variable {E : DtbEnv}

lemma ops_stringLen (str : ℕ) : ∀ fuel i, ops E (stringLen str fuel i) = scanOps E.mem endsString true str fuel i
  | 0, _ => rfl
  | fuel + 1, i => by
      rw [stringLen, ops_byte, scanOps]
      by_cases hc : E.mem (str + i) = 0 ∨ E.mem (str + i) = 10
      · simp [endsString, hc]
      · rw [if_neg hc, ops_increment, ops_stringLen str fuel]
        simp [endsString, hc]

lemma ops_skipToAt (q : ℕ) : ∀ fuel i, ops E (skipToAt fuel (q + i)) = scanOps E.mem endsSearch false q fuel i
  | 0, _ => rfl
  | fuel + 1, i => by
      rw [skipToAt, ops_byte, scanOps]
      by_cases hc : E.mem (q + i) ≠ 64 ∧ E.mem (q + i) ≠ 0
      · rw [if_pos hc, Nat.add_assoc, ops_skipToAt q fuel (i + 1)]
        simp [endsSearch, hc]
      · rw [if_neg hc]
        have hends : endsSearch (E.mem (q + i)) = true := by
          rw [endsSearch, decide_eq_true_eq, or_iff_not_and_not]
          exact hc
        simp [hends]

lemma ops_hexDigits (p : ℕ) : ∀ fuel i addr,
    ops E (hexDigits p fuel i addr) = scanOps E.mem endsDigits true p fuel i
  | 0, _, _ => rfl
  | fuel + 1, i, addr => by
      rw [hexDigits, ops_byte, scanOps]
      by_cases hc : E.mem (p + i) = 0
      · rw [if_pos hc, hc]
        rfl
      · rw [if_neg hc]
        dsimp only
        cases hd : hexDigit (E.mem (p + i)).toNat with
        | some d =>
            rw [ops_increment, ops_hexDigits p fuel]
            simp [endsDigits, hd]
        | none => simp [endsDigits, hd]

end

section

variable {m : Mem} {ends : UInt8 → Bool} {indexed : Bool} {q : ℕ}

/-- A character is read if none before it ends the scan. -/
lemma byte_mem_scanOps {j : ℕ} : ∀ {fuel i : ℕ}, i ≤ j → j < i + fuel →
    (∀ t, i ≤ t → t < j → ends (m (q + t)) = false) →
    .byte (q + j) ∈ scanOps m ends indexed q fuel i
  | 0, _, _, _, _ => by omega
  | fuel + 1, i, hi, hf, h => by
      rw [scanOps]
      rcases Nat.eq_or_lt_of_le hi with rfl | hlt
      · exact List.mem_cons_self
      · refine List.mem_cons_of_mem _ ?_
        rw [if_neg (by simp [h i le_rfl hlt])]
        exact List.mem_append_right _ (byte_mem_scanOps hlt (by omega) fun t ht₁ ht₂ => h t (by omega) ht₂)

/-- **A scan whose reads stay below a bound finds its end below it.** -/
lemma First.of_below {B : ℕ} (h : ∀ fuel a, .byte a ∈ scanOps m ends indexed q fuel 0 → a < B) :
    ∃ n, First m ends q n ∧ q + n < B := by
  have hread : ∀ n, (∀ i < n, ends (m (q + i)) = false) → q + n < B := fun n hn =>
    h (n + 1) (q + n) (byte_mem_scanOps (Nat.zero_le n) (by omega) fun t _ ht => hn t ht)
  by_cases hex : ∃ n, ends (m (q + n)) = true
  · have hmin : ∀ i < Nat.find hex, ends (m (q + i)) = false := fun i hi => by
      simpa using Nat.find_min hex hi
    exact ⟨Nat.find hex, ⟨Nat.find_spec hex, hmin⟩, hread _ hmin⟩
  · have hnone : ∀ i < B, ends (m (q + i)) = false := fun i _ => by
      simpa using (not_exists.mp hex) i
    have := hread B hnone
    omega

/-- What a scan with an end does. -/
lemma First.mem_scanOps {n : ℕ} (h : First m ends q n) {e : DtbOp} : ∀ {fuel i : ℕ}, i ≤ n →
    e ∈ scanOps m ends indexed q fuel i →
      (∃ j ≤ n, e = .byte (q + j)) ∨ indexed = true ∧ 2 ^ 31 ≤ n ∧ e = .overflow
  | 0, _, _, he => absurd he List.not_mem_nil
  | fuel + 1, i, hi, he => by
      rw [scanOps] at he
      rcases List.mem_cons.mp he with rfl | he
      · exact .inl ⟨i, hi, rfl⟩
      split_ifs at he with hend hidx
      · exact absurd he List.not_mem_nil
      all_goals
        have hlt : i < n := lt_of_le_of_ne hi fun heq => hend (heq ▸ h.found)
        rcases List.mem_append.mp he with he | he
      · unfold marks at he
        split_ifs at he with hsmall
        · exact absurd he List.not_mem_nil
        · exact .inr ⟨hidx, by omega, List.mem_singleton.mp he⟩
      · exact h.mem_scanOps hlt he
      · exact absurd he List.not_mem_nil
      · exact h.mem_scanOps hlt he

/-- An index that is counted too far. -/
lemma First.overflow {n : ℕ} (h : First m ends q n) (hbig : 2 ^ 31 ≤ n) : ∀ {fuel i : ℕ}, i < n → n ≤ i + fuel →
    .overflow ∈ scanOps m ends true q fuel i
  | 0, _, _, _ => by omega
  | fuel + 1, i, hi, hf => by
      rw [scanOps, if_neg (by simp [h.before i hi])]
      refine List.mem_cons_of_mem _ ?_
      rcases Nat.eq_or_lt_of_le hi with heq | hlt
      · have hmarks : marks i = [.overflow] := if_neg (by omega)
        rw [hmarks]
        exact List.mem_append_left _ List.mem_cons_self
      · exact List.mem_append_right _ (h.overflow hbig hlt (by omega))

end

/-! A scan that has an end returns, if its bound is large enough. -/

section

variable {m : Mem} {q n : ℕ}

lemma stringLen_of_first (h : First m endsString q n) : ∀ (fuel : ℕ) {i : ℕ}, i ≤ n → n < i + fuel →
    NetStack.stringLen m q fuel i = some n
  | 0, _, _, _ => by omega
  | fuel + 1, i, hi, hf => by
      rw [NetStack.stringLen]
      rcases Nat.eq_or_lt_of_le hi with rfl | hlt
      · have hends := h.found
        rw [endsString, decide_eq_true_eq] at hends
        rw [if_pos hends]
      · have hends := h.before i hlt
        rw [endsString, decide_eq_false_iff_not] at hends
        rw [if_neg hends, stringLen_of_first h fuel hlt (by omega)]

lemma skipToAt_of_first (h : First m endsSearch q n) : ∀ (fuel : ℕ) {i : ℕ}, i ≤ n → n < i + fuel →
    NetStack.skipToAt m fuel (q + i) = some (q + n)
  | 0, _, _, _ => by omega
  | fuel + 1, i, hi, hf => by
      rw [NetStack.skipToAt]
      rcases Nat.eq_or_lt_of_le hi with rfl | hlt
      · have hends := h.found
        rw [endsSearch, decide_eq_true_eq, or_iff_not_and_not] at hends
        rw [if_neg hends]
      · have hends := h.before i hlt
        rw [endsSearch, decide_eq_false_iff_not, not_or] at hends
        rw [if_pos hends, Nat.add_assoc, skipToAt_of_first h fuel hlt (by omega)]

lemma hexDigits_of_first (h : First m endsDigits q n) : ∀ (fuel : ℕ) {i : ℕ} (addr : ℕ), i ≤ n → n < i + fuel →
    ∃ r, NetStack.hexDigits m q fuel i addr = some r
  | 0, _, _, _, _ => by omega
  | fuel + 1, i, addr, hi, hf => by
      rw [hexDigits_succ]
      split_ifs with hzero
      · exact ⟨_, rfl⟩
      · cases hd : hexDigit (m (q + i)).toNat with
        | none => exact ⟨_, rfl⟩
        | some d =>
            have hlt : i < n := by
              refine lt_of_le_of_ne hi fun heq => ?_
              have hends := h.found
              rw [← heq, endsDigits, hd] at hends
              exact absurd hends (by simp)
            exact hexDigits_of_first h fuel _ hlt (by omega)

/-- `parse_dtb_unit_name` returns if both its scans have an end. -/
lemma parseDtbUnitName_of_first {k j : ℕ} (limit : ℕ) (hk : First m endsSearch q k)
    (hj : First m endsDigits (q + k + 1) j)
    (hk' : k < limit) (hj' : j < limit) : ∃ addr, NetStack.parseDtbUnitName limit m q = some addr := by
  have hskip := skipToAt_of_first hk limit (Nat.zero_le k) (by omega)
  obtain ⟨addr, haddr⟩ := hexDigits_of_first hj limit 0 (Nat.zero_le j) (by omega)
  rw [Nat.add_zero] at hskip
  refine ⟨addr, ?_⟩
  rw [NetStack.parseDtbUnitName, hskip]
  exact haddr

end

section

variable {E : DtbEnv}

/-- The next multiple of four. -/
def alignUp (p : ℕ) : ℕ := p + alignMemOffset p 4

lemma le_alignUp (p : ℕ) : p ≤ alignUp p := Nat.le_add_right ..

lemma alignUp_mod (p : ℕ) : alignUp p % 4 = 0 := by
  unfold alignUp alignMemOffset
  omega

lemma be2le_lt (be : ℕ) : be2le be < 2 ^ 32 := by
  have hbyte : ∀ i ≤ 24, ((be >>> i) &&& 0xFF) <<< (24 - i) < 2 ^ 32 := by
    intro i hi
    have hmask : (be >>> i) &&& 0xFF < 2 ^ 8 := Nat.and_lt_two_pow _ (by norm_num)
    rw [Nat.shiftLeft_eq]
    calc ((be >>> i) &&& 0xFF) * 2 ^ (24 - i) < 2 ^ 8 * 2 ^ (24 - i) := by gcongr
      _ ≤ 2 ^ 8 * 2 ^ 24 := by gcongr <;> omega
      _ = 2 ^ 32 := by norm_num
  exact Nat.or_lt_two_pow (Nat.or_lt_two_pow (Nat.or_lt_two_pow (Nat.or_lt_two_pow (by norm_num)
    (hbyte 24 le_rfl)) (hbyte 16 (by norm_num))) (hbyte 8 (by norm_num))) (hbyte 0 (by norm_num))

lemma readBE_lt (m : Mem) (a : ℕ) : readBE m a < 2 ^ 32 := be2le_lt _

/-- The callback returns. -/
def Returns (E : DtbEnv) (callback : ℕ → ℕ → Walk ℕ) : Prop := ∀ p n, ∃ r, result E (callback p n) = some r

variable {limit : ℕ} {callback : ℕ → ℕ → Walk ℕ} {q : ℕ}

/-! The five kinds of pieces. -/

/-- `FDT_NOP`, `FDT_END_NODE` and `FDT_END`: a token and nothing else. -/
def plainTokens : List ℕ := [fdtNop, fdtEndNode, fdtEnd]

lemma fdtPiece_plain {token : ℕ} (h : token ∈ plainTokens) : fdtPiece limit callback token q = pure (some q) := by
  simp only [plainTokens, List.mem_cons, List.not_mem_nil, or_false] at h
  rcases h with rfl | rfl | rfl <;> rfl

lemma fdtPiece_unknown {token : ℕ} (h : token ∉ plainTokens) (hnode : token ≠ fdtBeginNode) (hprop : token ≠ fdtProp) :
    fdtPiece limit callback token q = pure none := by
  simp only [plainTokens, List.mem_cons, List.not_mem_nil, or_false, not_or] at h
  simp only [fdtPiece, h, hnode, hprop, if_false]

lemma fdtPiece_node : fdtPiece limit callback fdtBeginNode q =
    (stringLen q limit 0 >>= fun printLen => parseDtbUnitName limit q >>= fun _ =>
      pure (some (alignUp (q + printLen + 1)))) := rfl

lemma fdtPiece_prop : fdtPiece limit callback fdtProp q =
    (word q >>= fun propLen =>
      if propLen > 0 then callback (q + 8) propLen >>= fun _ => pure (some (alignUp (q + 8 + propLen)))
      else pure (some (alignUp (q + 8)))) := rfl

/-- A node ends where its name does, if both scans of the name return. -/
lemma result_node {n addr : ℕ} (hlen : NetStack.stringLen E.mem q limit 0 = some n)
    (haddr : NetStack.parseDtbUnitName limit E.mem q = some addr) :
    result E (fdtPiece limit callback fdtBeginNode q) = some (some (alignUp (q + n + 1))) := by
  rw [fdtPiece_node, result_bind ((result_stringLen ..).trans hlen),
    result_bind ((result_parseDtbUnitName ..).trans haddr), result_pure]

/-- A node that is passed has been scanned to the end. -/
lemma node_of_result {o : Option ℕ} (h : result E (fdtPiece limit callback fdtBeginNode q) = some o) :
    ∃ n addr, NetStack.stringLen E.mem q limit 0 = some n ∧
      NetStack.parseDtbUnitName limit E.mem q = some addr ∧ o = some (alignUp (q + n + 1)) := by
  cases hlen : NetStack.stringLen E.mem q limit 0 with
  | none =>
      rw [fdtPiece_node, result_bind_none ((result_stringLen ..).trans hlen)] at h
      exact absurd h (by simp)
  | some n =>
      cases haddr : NetStack.parseDtbUnitName limit E.mem q with
      | none =>
          rw [fdtPiece_node, result_bind ((result_stringLen ..).trans hlen),
            result_bind_none ((result_parseDtbUnitName ..).trans haddr)] at h
          exact absurd h (by simp)
      | some addr =>
          rw [result_node hlen haddr] at h
          exact ⟨n, addr, rfl, rfl, (Option.some.inj h).symm⟩

lemma result_prop (hcb : Returns E callback) :
    result E (fdtPiece limit callback fdtProp q) = some (some (alignUp (q + 8 + readBE E.mem q))) := by
  rw [fdtPiece_prop, result_word]
  split_ifs with hpos
  · obtain ⟨r, hr⟩ := hcb (q + 8) (readBE E.mem q)
    rw [result_bind hr, result_pure]
  · rw [result_pure, Nat.eq_zero_of_not_pos hpos, Nat.add_zero]

lemma ops_prop (hcb : Returns E callback) : ops E (fdtPiece limit callback fdtProp q) =
    .word q :: if readBE E.mem q > 0 then ops E (callback (q + 8) (readBE E.mem q)) else [] := by
  rw [fdtPiece_prop, ops_word]
  split_ifs with hpos
  · obtain ⟨r, hr⟩ := hcb (q + 8) (readBE E.mem q)
    rw [ops_bind hr, ops_pure, List.append_nil]
  · rw [ops_pure]

/-! One iteration. -/

variable {fdt size fuel p : ℕ}

/-- Where the structure block ends. -/
abbrev blockEnd (m : Mem) (fdt size : ℕ) : ℕ := fdt + readBE m (fdt + 8) + size

lemma fdtLoop_end (hp : ¬ p < blockEnd E.mem fdt size) :
    result E (fdtLoop limit callback fdt size (fuel + 1) p) = some (.finished p) ∧
      ops E (fdtLoop limit callback fdt size (fuel + 1) p) = [.header (fdt + 8)] := by
  rw [fdtLoop, result_header, ops_header, if_neg hp]
  exact ⟨rfl, rfl⟩

/-- An iteration that gives up, or leaves the function at an unknown token. -/
lemma fdtLoop_leave (hp : p < blockEnd E.mem fdt size)
    (hpiece : ∀ p', result E (fdtPiece limit callback (readBE E.mem p) (p + 4)) ≠ some (some p')) :
    result E (fdtLoop limit callback fdt size (fuel + 1) p)
        = (result E (fdtPiece limit callback (readBE E.mem p) (p + 4))).map (fun _ => .badToken (p + 4)) ∧
      ops E (fdtLoop limit callback fdt size (fuel + 1) p)
        = .header (fdt + 8) :: .token p :: ops E (fdtPiece limit callback (readBE E.mem p) (p + 4)) := by
  rw [fdtLoop, result_header, ops_header, if_pos hp, result_token, ops_token]
  cases h : result E (fdtPiece limit callback (readBE E.mem p) (p + 4)) with
  | none => exact ⟨result_bind_none h _, by rw [ops_bind_none h]⟩
  | some o =>
      cases o with
      | none => exact ⟨result_bind h _, by rw [ops_bind h]; simp⟩
      | some p' => exact absurd h (hpiece p')

/-- An iteration that goes on at `p'`. -/
lemma fdtLoop_next (hp : p < blockEnd E.mem fdt size) {p' : ℕ}
    (hpiece : result E (fdtPiece limit callback (readBE E.mem p) (p + 4)) = some (some p')) :
    result E (fdtLoop limit callback fdt size (fuel + 1) p)
        = result E (fdtLoop limit callback fdt size fuel p') ∧
      ops E (fdtLoop limit callback fdt size (fuel + 1) p)
        = .header (fdt + 8) :: .token p :: (ops E (fdtPiece limit callback (readBE E.mem p) (p + 4)) ++
          ops E (fdtLoop limit callback fdt size fuel p')) := by
  rw [fdtLoop, result_header, ops_header, if_pos hp, result_token, ops_token]
  exact ⟨result_bind hpiece _, by rw [ops_bind hpiece]⟩

end

/-! ## Larger bounds -/

section

variable {α : Type} {E : DtbEnv} {w w' : Walk α} {limit limit' : ℕ} {callback : ℕ → ℕ → Walk ℕ}

lemma result_extends (h : Extends w w') {a : α} (hw : result E w = some a) : result E w' = some a :=
  congrArg Prod.fst (h.run ((run_eq w).trans (congrArg (·, E) hw)))

lemma ops_extends (h : Extends w w') : ops E w <+: ops E w' := h.trace E

lemma ops_eq_of_extends (h : Extends w w') {a : α} (hw : result E w = some a) : ops E w' = ops E w :=
  h.trace_eq ((run_eq w).trans (congrArg (·, E) hw))

lemma stringLen_extends (str : ℕ) : ∀ {fuel fuel' : ℕ} (i : ℕ), fuel ≤ fuel' →
    Extends (stringLen str fuel i) (stringLen str fuel' i)
  | 0, _, _, _ => .gaveUp _
  | fuel + 1, fuel' + 1, i, h => by
      refine Extends.bind (Extends.refl (byte (str + i))) fun c => ?_
      split_ifs
      · exact .refl _
      · exact Extends.bind (Extends.refl _) fun i => stringLen_extends str i (Nat.le_of_succ_le_succ h)

lemma skipToAt_extends : ∀ {fuel fuel' : ℕ} (p : ℕ), fuel ≤ fuel' → Extends (skipToAt fuel p) (skipToAt fuel' p)
  | 0, _, _, _ => .gaveUp _
  | fuel + 1, fuel' + 1, p, h => by
      refine Extends.bind (Extends.refl (byte p)) fun c => ?_
      split_ifs
      · exact skipToAt_extends (p + 1) (Nat.le_of_succ_le_succ h)
      · exact .refl _

lemma hexDigits_extends (p : ℕ) : ∀ {fuel fuel' : ℕ} (i addr : ℕ), fuel ≤ fuel' →
    Extends (hexDigits p fuel i addr) (hexDigits p fuel' i addr)
  | 0, _, _, _, _ => .gaveUp _
  | fuel + 1, fuel' + 1, i, addr, h => by
      refine Extends.bind (Extends.refl (byte (p + i))) fun c => ?_
      split_ifs
      · exact .refl _
      · dsimp only
        cases hexDigit c.toNat with
        | some d => exact Extends.bind (Extends.refl _) fun i => hexDigits_extends p i _ (Nat.le_of_succ_le_succ h)
        | none => exact .refl _

lemma parseDtbUnitName_extends (p : ℕ) (h : limit ≤ limit') :
    Extends (parseDtbUnitName limit p) (parseDtbUnitName limit' p) :=
  Extends.bind (skipToAt_extends p h) fun q => hexDigits_extends (q + 1) 0 0 h

lemma fdtPiece_extends (token q : ℕ) (h : limit ≤ limit') :
    Extends (fdtPiece limit callback token q) (fdtPiece limit' callback token q) := by
  by_cases hnode : token = fdtBeginNode
  · subst hnode
    rw [fdtPiece_node, fdtPiece_node]
    exact Extends.bind (stringLen_extends q 0 h) fun n => Extends.bind (parseDtbUnitName_extends q h) fun _ => .refl _
  · have hsame : fdtPiece limit callback token q = fdtPiece limit' callback token q := by
      simp only [fdtPiece, if_neg hnode]
    rw [hsame]
    exact .refl _

lemma fdtLoop_extends {fdt size : ℕ} (h : limit ≤ limit') : ∀ {fuel fuel' : ℕ} (p : ℕ), fuel ≤ fuel' →
    Extends (fdtLoop limit callback fdt size fuel p) (fdtLoop limit' callback fdt size fuel' p)
  | 0, _, _, _ => .gaveUp _
  | fuel + 1, fuel' + 1, p, hf => by
      refine Extends.bind (Extends.refl (header (fdt + 8))) fun off => ?_
      split_ifs
      · refine Extends.bind (Extends.refl _) fun t => Extends.bind (fdtPiece_extends t (p + 4) h) fun o => ?_
        cases o with
        | none => exact .refl _
        | some p' => exact fdtLoop_extends h p' (Nat.le_of_succ_le_succ hf)
      · exact .refl _

lemma fdtTraverse_extends (fdt : ℕ) (h : limit ≤ limit') :
    Extends (fdtTraverse limit callback fdt) (fdtTraverse limit' callback fdt) := by
  refine Extends.bind (Extends.refl (header fdt)) fun magic => ?_
  split_ifs
  · exact .refl _
  · refine Extends.bind (Extends.refl _) fun size => Extends.bind (Extends.refl _) fun off => ?_
    exact fdtLoop_extends h (fdt + off) h

end

/-! ## Runs with any bound -/

section

variable {E : DtbEnv} {limit q : ℕ} {callback : ℕ → ℕ → Walk ℕ} {G : DtbOp → Prop}

/-- A scan finds the same end whatever its bound. -/
lemma First.stringLen_eq {m : Mem} {n n' : ℕ} (h : First m endsString q n)
    (hn' : NetStack.stringLen m q limit 0 = some n') : n' = n := by
  have hext := result_extends (E := ⟨m, fun _ _ => 0, fun _ _ => 0⟩)
    (stringLen_extends q 0 (le_max_left limit (n + 1))) ((result_stringLen ..).trans hn')
  rw [result_stringLen] at hext
  exact Option.some.inj (hext.symm.trans (stringLen_of_first h _ (Nat.zero_le n) (by omega)))

lemma First.skipToAt_eq {m : Mem} {k p : ℕ} (h : First m endsSearch q k)
    (hp : NetStack.skipToAt m limit q = some p) : p = q + k := by
  have hext := result_extends (E := ⟨m, fun _ _ => 0, fun _ _ => 0⟩)
    (skipToAt_extends q (le_max_left limit (k + 1))) ((result_skipToAt ..).trans hp)
  rw [result_skipToAt] at hext
  exact Option.some.inj (hext.symm.trans (skipToAt_of_first h _ (Nat.zero_le k) (by omega)))

/-- The operations of `parse_dtb_unit_name` are those of its two scans. -/
lemma mem_ops_parse {e : DtbOp} (he : e ∈ ops E (parseDtbUnitName limit q)) : e ∈ ops E (skipToAt limit q) ∨
    ∃ p, NetStack.skipToAt E.mem limit q = some p ∧ e ∈ ops E (hexDigits (p + 1) limit 0 0) := by
  rw [parseDtbUnitName] at he
  cases h : result E (skipToAt limit q) with
  | none =>
      rw [ops_bind_none h] at he
      exact .inl he
  | some p =>
      rw [ops_bind h, List.mem_append] at he
      exact he.imp_right fun he => ⟨p, (result_skipToAt ..).symm.trans h, he⟩

/-- What holds of the scans of a name holds of its operations. -/
lemma mem_ops_node {e : DtbOp} (he : e ∈ ops E (fdtPiece limit callback fdtBeginNode q)) :
    e ∈ ops E (stringLen q limit 0) ∨ e ∈ ops E (skipToAt limit q) ∨
      ∃ p, NetStack.skipToAt E.mem limit q = some p ∧ e ∈ ops E (hexDigits (p + 1) limit 0 0) := by
  rw [fdtPiece_node] at he
  cases h : result E (stringLen q limit 0) with
  | none =>
      rw [ops_bind_none h] at he
      exact .inl he
  | some n =>
      rw [ops_bind h, List.mem_append] at he
      refine he.imp_right fun he => ?_
      cases h' : result E (parseDtbUnitName limit q) with
      | none =>
          rw [ops_bind_none h'] at he
          exact mem_ops_parse he
      | some addr =>
          rw [ops_bind h', ops_pure, List.append_nil] at he
          exact mem_ops_parse he

/-- The scan of `string_len` is always made. -/
lemma ops_stringLen_subset : ops E (stringLen q limit 0) ⊆ ops E (fdtPiece limit callback fdtBeginNode q) :=
  ops_subset_bind _ _

/-- The unit name is parsed once the length is known. -/
lemma ops_parse_subset {n : ℕ} (hlen : NetStack.stringLen E.mem q limit 0 = some n) :
    ops E (parseDtbUnitName limit q) ⊆ ops E (fdtPiece limit callback fdtBeginNode q) := by
  rw [fdtPiece_node, ops_bind ((result_stringLen ..).trans hlen)]
  exact List.subset_append_of_subset_right _ (ops_subset_bind _ _)

lemma ops_skipToAt_subset : ops E (skipToAt limit q) ⊆ ops E (parseDtbUnitName limit q) := ops_subset_bind _ _

lemma ops_hexDigits_subset {p : ℕ} (hskip : NetStack.skipToAt E.mem limit q = some p) :
    ops E (hexDigits (p + 1) limit 0 0) ⊆ ops E (parseDtbUnitName limit q) := by
  rw [parseDtbUnitName, ops_bind ((result_skipToAt ..).trans hskip)]
  exact List.subset_append_right _ _

/-- The three scans of a node's name, and where they end. -/
structure NameScans (m : Mem) (q n k j : ℕ) : Prop where
  len : First m endsString q n
  search : First m endsSearch q k
  digits : First m endsDigits (q + k + 1) j

/-- **If all a node does stays below a bound, whatever the limit, its scans end below it.** -/
lemma node_scans {B : ℕ} (h : ∀ limit, ∀ e ∈ ops E (fdtPiece limit callback fdtBeginNode q), G e)
    (hG : ∀ a, G (.byte a) → a < B) : ∃ n k j, NameScans E.mem q n k j ∧ q + n < B ∧ q + k + 1 + j < B ∧
      (¬ G .overflow → n < 2 ^ 31 ∧ j < 2 ^ 31) := by
  have hlenOps : ∀ fuel, ∀ e ∈ scanOps E.mem endsString true q fuel 0, G e := fun fuel e he =>
    h fuel e (ops_stringLen_subset ((ops_stringLen q fuel 0).symm ▸ he))
  obtain ⟨n, hn, hnB⟩ := First.of_below fun fuel a ha => hG a (hlenOps fuel _ ha)
  -- from a limit above the length on, the unit name is parsed
  have hparse : ∀ fuel, ∀ e ∈ ops E (parseDtbUnitName fuel q), G e := fun fuel e he => by
    have hext := (ops_extends (E := E) (parseDtbUnitName_extends q (le_max_left fuel (n + 1)))).subset he
    exact h _ e (ops_parse_subset (stringLen_of_first hn _ (Nat.zero_le n) (by omega)) hext)
  have hskipOps : ∀ fuel, ∀ e ∈ scanOps E.mem endsSearch false q fuel 0, G e := fun fuel e he =>
    hparse fuel e (ops_skipToAt_subset ((ops_skipToAt q fuel 0).symm ▸ he))
  obtain ⟨k, hk, -⟩ := First.of_below fun fuel a ha => hG a (hskipOps fuel _ ha)
  have hdigitOps : ∀ fuel, ∀ e ∈ scanOps E.mem endsDigits true (q + k + 1) fuel 0, G e := fun fuel e he => by
    have hext := (ops_extends (E := E) (hexDigits_extends (q + k + 1) 0 0 (le_max_left fuel (k + 1)))).subset
      ((ops_hexDigits (q + k + 1) fuel 0 0).symm ▸ he)
    have hskip := skipToAt_of_first hk (max fuel (k + 1)) (Nat.zero_le k) (by omega)
    rw [Nat.add_zero] at hskip
    exact hparse _ e (ops_hexDigits_subset hskip hext)
  obtain ⟨j, hj, hjB⟩ := First.of_below fun fuel a ha => hG a (hdigitOps fuel _ ha)
  refine ⟨n, k, j, ⟨hn, hk, hj⟩, hnB, hjB, fun hover => ⟨?_, ?_⟩⟩
  · by_contra hbig
    exact hover (hlenOps n _ (hn.overflow (by omega) (by omega) (by omega)))
  · by_contra hbig
    exact hover (hdigitOps j _ (hj.overflow (by omega) (by omega) (by omega)))

/-- A node whose scans have an end is passed. -/
lemma NameScans.result {n k j : ℕ} (h : NameScans E.mem q n k j) (hlimit : n + k + j < limit) :
    result E (fdtPiece limit callback fdtBeginNode q) = some (some (alignUp (q + n + 1))) := by
  obtain ⟨addr, haddr⟩ := parseDtbUnitName_of_first limit h.search h.digits (by omega) (by omega)
  exact result_node (stringLen_of_first h.len _ (Nat.zero_le n) (by omega)) haddr

variable {fdt size p : ℕ}

/-- In no run of the token loop from `p` on, whatever its bounds, there is an operation without `G`. -/
def Always (E : DtbEnv) (callback : ℕ → ℕ → Walk ℕ) (fdt size : ℕ) (G : DtbOp → Prop) (p : ℕ) : Prop :=
  ∀ limit fuel, ∀ e ∈ ops E (fdtLoop limit callback fdt size fuel p), G e

/-- An iteration loads the token and does what its piece does. -/
lemma token_mem_ops (fuel : ℕ) (hp : p < blockEnd E.mem fdt size) :
    .token p ∈ ops E (fdtLoop limit callback fdt size (fuel + 1) p) ∧
      ops E (fdtPiece limit callback (readBE E.mem p) (p + 4))
        ⊆ ops E (fdtLoop limit callback fdt size (fuel + 1) p) := by
  by_cases hnext : ∃ p', result E (fdtPiece limit callback (readBE E.mem p) (p + 4)) = some (some p')
  · obtain ⟨p', hp'⟩ := hnext
    rw [(fdtLoop_next hp hp').2]
    exact ⟨by simp, fun e he => by simp [he]⟩
  · rw [(fdtLoop_leave hp (not_exists.mp hnext)).2]
    exact ⟨by simp, fun e he => by simp [he]⟩

/-- What an iteration does: it reads the header and a token, then the piece, and goes on where that ends. -/
lemma mem_ops_loop {fuel : ℕ} {e : DtbOp} (hp : p < blockEnd E.mem fdt size)
    (he : e ∈ ops E (fdtLoop limit callback fdt size (fuel + 1) p)) :
    e = .header (fdt + 8) ∨ e = .token p ∨ e ∈ ops E (fdtPiece limit callback (readBE E.mem p) (p + 4)) ∨
      ∃ p', result E (fdtPiece limit callback (readBE E.mem p) (p + 4)) = some (some p') ∧
        e ∈ ops E (fdtLoop limit callback fdt size fuel p') := by
  by_cases hnext : ∃ p', result E (fdtPiece limit callback (readBE E.mem p) (p + 4)) = some (some p')
  · obtain ⟨p', hp'⟩ := hnext
    rw [(fdtLoop_next hp hp').2, List.mem_cons, List.mem_cons, List.mem_append] at he
    exact he.imp_right fun he => he.imp_right fun he => he.imp_right fun he => ⟨p', hp', he⟩
  · rw [(fdtLoop_leave hp (not_exists.mp hnext)).2, List.mem_cons, List.mem_cons] at he
    exact he.imp_right fun he => he.imp_right .inl

lemma Always.token (h : Always E callback fdt size G p) (hp : p < blockEnd E.mem fdt size) : G (.token p) :=
  h 0 1 _ (token_mem_ops 0 hp).1

lemma Always.piece (h : Always E callback fdt size G p) (hp : p < blockEnd E.mem fdt size) :
    ∀ limit, ∀ e ∈ ops E (fdtPiece limit callback (readBE E.mem p) (p + 4)), G e :=
  fun limit e he => h limit 1 e ((token_mem_ops 0 hp).2 he)

/-- The iteration after a piece that is passed. -/
lemma Always.next (h : Always E callback fdt size G p) (hp : p < blockEnd E.mem fdt size) {p' : ℕ}
    (hpiece : result E (fdtPiece limit callback (readBE E.mem p) (p + 4)) = some (some p')) :
    Always E callback fdt size G p' := by
  intro limit' fuel e he
  have hext := (ops_extends (E := E) (fdtLoop_extends (le_max_left limit' limit) p' (le_refl fuel))).subset he
  have hpiece' := result_extends (fdtPiece_extends (readBE E.mem p) (p + 4) (le_max_right limit' limit)) hpiece
  refine h (max limit' limit) (fuel + 1) e ?_
  rw [(fdtLoop_next hp hpiece').2]
  simp [hext]

end

/-! ## The walk of `Traverse` -/

/-- The calls among the operations. -/
def calls (os : List DtbOp) : List (ℕ × ℕ) := os.filterMap fun
  | .call p n => some (p, n)
  | _ => none

section

variable {E : DtbEnv} {limit : ℕ} {callback : ℕ → ℕ → Walk ℕ} {q : ℕ}

lemma returns_anyCallback : Returns E anyCallback := fun p n => ⟨E.result p n, rfl⟩

lemma calls_append (os os' : List DtbOp) : calls (os ++ os') = calls os ++ calls os' := List.filterMap_append

/-- A character is read, or an index overflows. -/
def IsScan : DtbOp → Prop
  | .byte _ | .overflow => True
  | _ => False

lemma isScan_scanOps {m : Mem} {ends : UInt8 → Bool} {indexed : Bool} {e : DtbOp} : ∀ {fuel i : ℕ},
    e ∈ scanOps m ends indexed q fuel i → IsScan e
  | 0, _, he => absurd he List.not_mem_nil
  | fuel + 1, i, he => by
      have hmarks : e ∈ marks i → IsScan e := by
        intro he
        unfold marks at he
        split_ifs at he
        · exact absurd he List.not_mem_nil
        · exact (List.mem_singleton.mp he) ▸ trivial
      rw [scanOps, List.mem_cons] at he
      rcases he with rfl | he
      · trivial
      · split_ifs at he
        · exact absurd he List.not_mem_nil
        · exact (List.mem_append.mp he).elim hmarks isScan_scanOps
        · exact isScan_scanOps ((List.nil_append (scanOps ..)) ▸ he)

/-- A node is scanned, and that is all. -/
lemma isScan_node {e : DtbOp} (he : e ∈ ops E (fdtPiece limit callback fdtBeginNode q)) : IsScan e := by
  rcases mem_ops_node he with he | he | ⟨p, -, he⟩
  · exact isScan_scanOps ((ops_stringLen ..) ▸ he)
  · have hops : ops E (skipToAt limit q) = _ := ops_skipToAt q limit 0
    exact isScan_scanOps (hops ▸ he)
  · exact isScan_scanOps ((ops_hexDigits ..) ▸ he)

lemma calls_of_isScan {os : List DtbOp} (h : ∀ e ∈ os, IsScan e) : calls os = [] := by
  refine List.filterMap_eq_nil_iff.mpr fun e he => ?_
  have := h e he
  cases e <;> first | rfl | exact absurd this id

lemma calls_node : calls (ops E (fdtPiece limit callback fdtBeginNode q)) = [] :=
  calls_of_isScan fun _ he => isScan_node he

/-- What a recorded piece adds to the record. -/
lemma fdtPiece_run (token : ℕ) (l : List (ℕ × ℕ)) :
    NetStack.fdtPiece limit E.mem (fun p n l => l ++ [(p, n)]) token q l
      = (result E (fdtPiece limit anyCallback token q)).map fun o =>
          o.map fun p => (p, l ++ calls (ops E (fdtPiece limit anyCallback token q))) := by
  by_cases hnode : token = fdtBeginNode
  · subst hnode
    have hunfold : NetStack.fdtPiece limit E.mem (fun p n l => l ++ [(p, n)]) fdtBeginNode q l
        = (NetStack.stringLen E.mem q limit 0).bind fun n => (NetStack.parseDtbUnitName limit E.mem q).bind fun _ =>
            some (some (alignUp (q + n + 1), l)) := rfl
    rw [hunfold, calls_node, List.append_nil]
    cases hlen : NetStack.stringLen E.mem q limit 0 with
    | none =>
        rw [fdtPiece_node, result_bind_none ((result_stringLen ..).trans hlen)]
        rfl
    | some n =>
        cases haddr : NetStack.parseDtbUnitName limit E.mem q with
        | none =>
            rw [fdtPiece_node, result_bind ((result_stringLen ..).trans hlen),
              result_bind_none ((result_parseDtbUnitName ..).trans haddr)]
            rfl
        | some addr =>
            rw [result_node hlen haddr]
            rfl
  by_cases hprop : token = fdtProp
  · subst hprop
    have hunfold : NetStack.fdtPiece limit E.mem (fun p n l => l ++ [(p, n)]) fdtProp q l
        = if readBE E.mem q > 0 then some (some (alignUp (q + 8 + readBE E.mem q), l ++ [(q + 8, readBE E.mem q)]))
          else some (some (alignUp (q + 8), l)) := by
      rw [NetStack.fdtPiece, if_neg (by decide), if_neg (by decide), if_pos rfl]
      dsimp only
      by_cases hpos : readBE E.mem q > 0
      · simp only [if_pos hpos, alignUp]
      · simp only [if_neg hpos, alignUp]
    rw [hunfold, result_prop returns_anyCallback, ops_prop returns_anyCallback]
    split_ifs with hpos
    · rfl
    · rw [Nat.eq_zero_of_not_pos hpos]
      simp [calls]
  by_cases hplain : token ∈ plainTokens
  · rw [fdtPiece_plain hplain, ops_pure]
    simp only [plainTokens, List.mem_cons, List.not_mem_nil, or_false] at hplain
    rcases hplain with rfl | rfl | rfl <;>
      simp [NetStack.fdtPiece, fdtNop, fdtEndNode, fdtEnd, fdtBeginNode, fdtProp, calls]
  · rw [fdtPiece_unknown hplain hnode hprop]
    simp only [plainTokens, List.mem_cons, List.not_mem_nil, or_false, not_or] at hplain
    simp [NetStack.fdtPiece, hnode, hprop, hplain]

/-- A piece that leaves the function is an unknown token, and nothing of it is read. -/
lemma ops_of_unknown (hcb : Returns E callback) {token : ℕ}
    (h : result E (fdtPiece limit callback token q) = some none) : ops E (fdtPiece limit callback token q) = [] := by
  by_cases hnode : token = fdtBeginNode
  · subst hnode
    obtain ⟨n, addr, -, -, ho⟩ := node_of_result h
    exact absurd ho (by simp)
  by_cases hprop : token = fdtProp
  · subst hprop
    rw [result_prop hcb] at h
    exact absurd h (by simp)
  by_cases hplain : token ∈ plainTokens
  · rw [fdtPiece_plain hplain, ops_pure]
  · rw [fdtPiece_unknown hplain hnode hprop, ops_pure]

lemma calls_header (a : ℕ) (os : List DtbOp) : calls (.header a :: os) = calls os := rfl
lemma calls_token (a : ℕ) (os : List DtbOp) : calls (.token a :: os) = calls os := rfl

/-- The token loop, recorded. -/
lemma fdtLoop_run {fdt size : ℕ} : ∀ fuel p (l : List (ℕ × ℕ)),
    NetStack.fdtLoop limit E.mem (fun p n l => l ++ [(p, n)]) (blockEnd E.mem fdt size) fuel p l
      = (result E (fdtLoop limit anyCallback fdt size fuel p)).map fun x =>
          (x, l ++ calls (ops E (fdtLoop limit anyCallback fdt size fuel p)))
  | 0, _, _ => rfl
  | fuel + 1, p, l => by
      rw [NetStack.fdtLoop]
      by_cases hp : p < blockEnd E.mem fdt size
      · rw [if_pos hp, fdtPiece_run]
        rcases hpiece : result E (fdtPiece limit anyCallback (readBE E.mem p) (p + 4)) with _ | _ | p'
        · have hno : ∀ p', result E (fdtPiece limit anyCallback (readBE E.mem p) (p + 4)) ≠ some (some p') := by
            simp [hpiece]
          rw [(fdtLoop_leave hp hno).1, hpiece]
          rfl
        · have hno : ∀ p', result E (fdtPiece limit anyCallback (readBE E.mem p) (p + 4)) ≠ some (some p') := by
            simp [hpiece]
          rw [(fdtLoop_leave hp hno).1, (fdtLoop_leave hp hno).2, hpiece, calls_header, calls_token,
            ops_of_unknown returns_anyCallback hpiece]
          simp [calls]
        · rw [(fdtLoop_next hp hpiece).1, (fdtLoop_next hp hpiece).2, calls_header, calls_token, calls_append,
            ← List.append_assoc, ← fdtLoop_run fuel p']
          rfl
      · rw [if_neg hp, (fdtLoop_end hp).1, (fdtLoop_end hp).2]
        simp [calls]

/-- **The two readings of `fdt_traverse` agree**: `Traverse` computes the result of the program, and records the
calls in its trace. -/
theorem fdtTraverse_run (fdt : ℕ) : NetStack.fdtTraverse limit E.mem (fun p n l => l ++ [(p, n)]) fdt []
    = (result E (fdtTraverse limit anyCallback fdt)).map fun x =>
        (x, calls (ops E (fdtTraverse limit anyCallback fdt))) := by
  rw [NetStack.fdtTraverse, fdtTraverse, result_header, ops_header]
  split_ifs
  · rfl
  · rw [result_header, result_header, ops_header, ops_header, calls_header, calls_header, calls_header]
    exact fdtLoop_run limit (fdt + readBE E.mem (fdt + 8)) []

end

end Dtb

end NetStack
