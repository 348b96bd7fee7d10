import Mathlib.Tactic

/-!
# The Sv39 page walk

The translation of a virtual address as the hardware makes it: three levels of tables of 512 entries,
a leaf at any level.  Memory is a function that reads the 64-bit entry at a physical address, so that
nothing is said about who wrote the tables or where.

A walk faults (`none`) on an invalid entry, on a writable entry that is not readable, on reserved bits,
on a superpage that is not aligned and when the last level holds a pointer.  The accessed and dirty bits
of a leaf are left to the hardware.
-/

namespace Sv39

/-- The nine index bits of `va` at `level`. -/
def vpn (level va : ℕ) : ℕ := va / 2 ^ (12 + 9 * level) % 512

/-- Bits 63..39 of a 64-bit address repeat bit 38. -/
def Canonical (va : ℕ) : Prop := va < 2 ^ 38 ∨ 2 ^ 64 - 2 ^ 38 ≤ va

instance (va : ℕ) : Decidable (Canonical va) := inferInstanceAs (Decidable (_ ∨ _))

/-- Where an address is mapped, and what may be done there. -/
structure Mapping where
  pa : ℕ
  r : Bool
  w : Bool
  x : Bool
  deriving DecidableEq, Repr

/-! ## Entries -/

/-- The entry with page number `n` and the ten low bits `f`. -/
def entry (n f : ℕ) : ℕ := 2 ^ 10 * n + f

def ppn (pte : ℕ) : ℕ := pte / 2 ^ 10 % 2 ^ 44

/-- Not valid, writable but not readable, or with a reserved bit. -/
def Invalid (pte : ℕ) : Prop :=
  pte.testBit 0 = false ∨ pte.testBit 1 = false ∧ pte.testBit 2 = true ∨ pte / 2 ^ 54 ≠ 0

def Leaf (pte : ℕ) : Prop := pte.testBit 1 = true ∨ pte.testBit 3 = true

/-- `U`, `A` and `D` are reserved in a pointer. -/
def BadPointer (pte : ℕ) : Prop := pte.testBit 4 = true ∨ pte.testBit 6 = true ∨ pte.testBit 7 = true

instance (pte : ℕ) : Decidable (Invalid pte) := inferInstanceAs (Decidable (_ ∨ _ ∨ _))
instance (pte : ℕ) : Decidable (Leaf pte) := inferInstanceAs (Decidable (_ ∨ _))
instance (pte : ℕ) : Decidable (BadPointer pte) := inferInstanceAs (Decidable (_ ∨ _ ∨ _))

/-- What a leaf at `level` says of `va`. -/
def leafAt (level va pte : ℕ) : Option Mapping :=
  if ppn pte % 2 ^ (9 * level) ≠ 0 then none
  else some ⟨ppn pte * 4096 + va % 2 ^ (12 + 9 * level), pte.testBit 1, pte.testBit 2, pte.testBit 3⟩

/-! ## The walk -/

/-- The walk from a table, with `n` levels to go. -/
def walk (load : ℕ → ℕ) (va : ℕ) : (n table : ℕ) → Option Mapping
  | 0, _ => none
  | level + 1, table =>
      let pte := load (table + 8 * vpn level va)
      if Invalid pte then none
      else if Leaf pte then leafAt level va pte
      else if BadPointer pte then none
      else walk load va level (ppn pte * 4096)

/-- The fields of `satp`. -/
def mode (satp : ℕ) : ℕ := satp / 2 ^ 60
def root (satp : ℕ) : ℕ := satp % 2 ^ 44 * 4096

/-- **The translation** of `va` under `satp`. -/
def translate (load : ℕ → ℕ) (satp va : ℕ) : Option Mapping :=
  if Canonical va then walk load va 3 (root satp) else none

/-- What the entry of a last-level table says of `va`. -/
def lastLevel (va pte : ℕ) : Option Mapping :=
  if Invalid pte then none else if Leaf pte then leafAt 0 va pte else none

/-! ## Reading entries -/

variable {n f : ℕ}

lemma testBit_entry (hf : f < 2 ^ 10) {i : ℕ} (hi : i < 10) : (entry n f).testBit i = f.testBit i := by
  rw [entry, Nat.testBit_two_pow_mul_add n hf, if_pos hi]

lemma ppn_entry (hn : n < 2 ^ 44) (hf : f < 2 ^ 10) : ppn (entry n f) = n := by
  rw [ppn, entry]
  omega

/-- Only the ten low bits decide whether an entry is valid. -/
lemma invalid_entry (hn : n < 2 ^ 44) (hf : f < 2 ^ 10) :
    Invalid (entry n f) ↔ f.testBit 0 = false ∨ f.testBit 1 = false ∧ f.testBit 2 = true := by
  have hhigh : entry n f / 2 ^ 54 = 0 := by
    rw [entry]
    omega
  rw [Invalid, testBit_entry hf (by decide), testBit_entry hf (by decide), testBit_entry hf (by decide), hhigh]
  simp

lemma leaf_entry (hf : f < 2 ^ 10) : Leaf (entry n f) ↔ f.testBit 1 = true ∨ f.testBit 3 = true := by
  rw [Leaf, testBit_entry hf (by decide), testBit_entry hf (by decide)]

lemma not_badPointer_entry (hf : f < 2 ^ 4) : ¬ BadPointer (entry n f) := by
  have hf' : f < 2 ^ 10 := hf.trans (by decide)
  have hbit : ∀ i, 4 ≤ i → f.testBit i = false := fun i hi =>
    Nat.testBit_lt_two_pow (hf.trans_le (Nat.pow_le_pow_right (by decide) hi))
  rw [BadPointer, testBit_entry hf' (by decide), testBit_entry hf' (by decide), testBit_entry hf' (by decide),
    hbit 4 (by decide), hbit 6 (by decide), hbit 7 (by decide)]
  simp

/-! ## Steps of the walk -/

variable {load : ℕ → ℕ} {va level table : ℕ}

/-- **An empty entry** ends the walk. -/
lemma walk_zero (h : load (table + 8 * vpn level va) = 0) : walk load va (level + 1) table = none := by
  simp only [walk, h]
  rw [if_pos (.inl (Nat.zero_testBit 0))]

/-- **A pointer** leads to the next table. -/
lemma walk_pointer (hn : n < 2 ^ 44) (h : load (table + 8 * vpn level va) = entry n 1) :
    walk load va (level + 1) table = walk load va level (n * 4096) := by
  have hvalid : ¬ Invalid (entry n 1) := by
    rw [invalid_entry hn (by decide)]
    decide
  have hleaf : ¬ Leaf (entry n 1) := by
    rw [leaf_entry (by decide)]
    decide
  simp only [walk, h]
  rw [if_neg hvalid, if_neg hleaf, if_neg (not_badPointer_entry (by decide)), ppn_entry hn (by decide)]

/-- **A readable leaf** ends the walk. -/
lemma walk_leaf (hn : n < 2 ^ 44) (hf : f < 2 ^ 10) (hvalid : f.testBit 0 = true) (hread : f.testBit 1 = true)
    (hal : n % 2 ^ (9 * level) = 0) (h : load (table + 8 * vpn level va) = entry n f) :
    walk load va (level + 1) table =
      some ⟨n * 4096 + va % 2 ^ (12 + 9 * level), true, f.testBit 2, f.testBit 3⟩ := by
  have hval : ¬ Invalid (entry n f) := by
    rw [invalid_entry hn hf, hvalid, hread]
    simp
  have hleaf : Leaf (entry n f) := (leaf_entry hf).mpr (.inl hread)
  simp only [walk, h]
  rw [if_neg hval, if_pos hleaf, leafAt, ppn_entry hn hf, if_neg (by simpa using hal), testBit_entry hf (by decide),
    testBit_entry hf (by decide), testBit_entry hf (by decide), hread]

/-- **At the last level** only the entry matters. -/
lemma walk_lastLevel : walk load va 1 table = lastLevel va (load (table + 8 * vpn 0 va)) := by
  simp only [walk, lastLevel, ite_self]

lemma lastLevel_zero : lastLevel va 0 = none := if_pos (.inl (Nat.zero_testBit 0))

/-- A readable last-level entry. -/
lemma lastLevel_leaf (hn : n < 2 ^ 44) (hf : f < 2 ^ 10) (hvalid : f.testBit 0 = true)
    (hread : f.testBit 1 = true) :
    lastLevel va (entry n f) = some ⟨n * 4096 + va % 4096, true, f.testBit 2, f.testBit 3⟩ := by
  have h : walk (fun _ => entry n f) va (0 + 1) 0 = _ := walk_leaf hn hf hvalid hread (Nat.mod_one n) rfl
  rw [walk_lastLevel] at h
  exact h

end Sv39
