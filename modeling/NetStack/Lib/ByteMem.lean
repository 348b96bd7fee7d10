import Mathlib.Tactic

/-!
# Byte-addressed memory

A memory is a total function from addresses to bytes.  Multi-byte accesses are little-endian and
are defined by recursion on the width, so that every fact about them is one induction:

* `loadLE m n a` — the `n`-byte little-endian number stored at `a`;
* `storeLE m n a v` — the memory after storing the low `n` bytes of `v` at `a`;
* `fill` — the byte loop `for (i = 0; i < n; i++) d[i] = v`;
* `copyUp` — the byte loop `for (i = 0; i < n; i++) d[i] = s[i]`;
* `Holds m a l` — the bytes `l` stand in memory from `a` on.

The frame lemmas (`storeLE_outside`, `fill_outside`, `copyUp_outside`, `loadLE_congr`) and the read-back lemmas
(`loadLE_storeLE`, `fill_inside`, `copyUp_inside`) are all that is used of these definitions elsewhere.
-/

namespace ByteMem

/-- A memory holds one byte at each address. -/
abbrev Mem := ℕ → UInt8

/-- Store one byte. -/
def write (m : Mem) (a : ℕ) (v : UInt8) : Mem := fun x => if x = a then v else m x

/-- The `n`-byte little-endian number stored at `a`. -/
def loadLE (m : Mem) : ℕ → ℕ → ℕ
  | 0, _ => 0
  | n + 1, a => (m a).toNat + 256 * loadLE m n (a + 1)

/-- Store the low `n` bytes of `v` at `a`, least significant byte first. -/
def storeLE (m : Mem) : ℕ → ℕ → ℕ → Mem
  | 0, _, _ => m
  | n + 1, a, v => storeLE (write m a (UInt8.ofNat v)) n (a + 1) (v / 256)

/-- `for (i = 0; i < n; i++) a[i] = v`. -/
def fill (m : Mem) (a : ℕ) (v : UInt8) : ℕ → Mem
  | 0 => m
  | n + 1 => write (fill m a v n) (a + n) v

@[simp] lemma write_same (m : Mem) (a : ℕ) (v : UInt8) : write m a v a = v := by
  simp [write]

lemma write_of_ne (m : Mem) {a x : ℕ} (v : UInt8) (h : x ≠ a) : write m a v x = m x := by
  simp [write, h]

/-! ## Multi-byte accesses -/

/-- A load reads only its own bytes. -/
lemma loadLE_congr {m m' : Mem} :
    ∀ (n a : ℕ), (∀ i < n, m (a + i) = m' (a + i)) → loadLE m n a = loadLE m' n a
  | 0, _, _ => rfl
  | n + 1, a, h => by
      have h0 := h 0 (Nat.succ_pos n)
      rw [Nat.add_zero] at h0
      have ih : loadLE m n (a + 1) = loadLE m' n (a + 1) := loadLE_congr n (a + 1) fun i hi => by
        have hi' := h (i + 1) (Nat.succ_lt_succ hi)
        rwa [Nat.add_comm i 1, ← Nat.add_assoc] at hi'
      simp only [loadLE, h0, ih]

lemma loadLE_lt (m : Mem) : ∀ n a : ℕ, loadLE m n a < 256 ^ n
  | 0, _ => by simp [loadLE]
  | n + 1, a => by
      have ih := loadLE_lt m n (a + 1)
      have hb : (m a).toNat < 256 := (m a).toNat_lt
      simp only [loadLE, pow_succ]
      omega

/-- A store changes no byte outside its own range. -/
lemma storeLE_outside :
    ∀ (n : ℕ) (m : Mem) (a v x : ℕ), x < a ∨ a + n ≤ x → storeLE m n a v x = m x
  | 0, _, _, _, _, _ => rfl
  | n + 1, m, a, v, x, h => by
      rw [storeLE, storeLE_outside n _ (a + 1) (v / 256) x (by omega)]
      exact write_of_ne m _ (by omega)

/-- Reading back a store gives the stored value, cut to the width. -/
lemma loadLE_storeLE :
    ∀ (n : ℕ) (m : Mem) (a v : ℕ), loadLE (storeLE m n a v) n a = v % 256 ^ n
  | 0, _, _, v => by simp [loadLE, Nat.mod_one]
  | n + 1, m, a, v => by
      have hlow : storeLE m (n + 1) a v a = UInt8.ofNat v := by
        rw [storeLE, storeLE_outside n _ (a + 1) (v / 256) a (by omega), write_same]
      have ih := loadLE_storeLE n (write m a (UInt8.ofNat v)) (a + 1) (v / 256)
      rw [loadLE, hlow, storeLE, ih, UInt8.toNat_ofNat']
      rw [pow_succ 256 n, Nat.mul_comm (256 ^ n) 256, Nat.mod_mul]

/-- A load from a range disjoint from a store is unaffected by it. -/
lemma loadLE_storeLE_disjoint {k n : ℕ} (m : Mem) {a b : ℕ} (v : ℕ)
    (h : b + k ≤ a ∨ a + n ≤ b) : loadLE (storeLE m n a v) k b = loadLE m k b :=
  loadLE_congr k b fun i hi => storeLE_outside n m a v (b + i) (by omega)

/-! ## Byte loops -/

lemma fill_outside (m : Mem) (a : ℕ) (v : UInt8) :
    ∀ (n x : ℕ), x < a ∨ a + n ≤ x → fill m a v n x = m x
  | 0, _, _ => rfl
  | n + 1, x, h => by
      rw [fill, write_of_ne _ _ (by omega), fill_outside m a v n x (by omega)]

lemma fill_inside (m : Mem) (a : ℕ) (v : UInt8) :
    ∀ (n x : ℕ), a ≤ x → x < a + n → fill m a v n x = v
  | 0, _, _, _ => by omega
  | n + 1, x, hlo, hhi => by
      by_cases hx : x = a + n
      · rw [fill, hx, write_same]
      · rw [fill, write_of_ne _ _ hx, fill_inside m a v n x hlo (by omega)]

/-- A range of zero bytes reads as zero. -/
lemma loadLE_eq_zero {m : Mem} :
    ∀ (n a : ℕ), (∀ i < n, m (a + i) = 0) → loadLE m n a = 0
  | 0, _, _ => rfl
  | n + 1, a, h => by
      have h0 := h 0 (Nat.succ_pos n)
      rw [Nat.add_zero] at h0
      have ih : loadLE m n (a + 1) = 0 := loadLE_eq_zero n (a + 1) fun i hi => by
        have hi' := h (i + 1) (Nat.succ_lt_succ hi)
        rwa [Nat.add_comm i 1, ← Nat.add_assoc] at hi'
      simp [loadLE, h0, ih]

/-! ## Copies -/

/-- `for (i = 0; i < n; i++) d[i] = s[i]`. -/
def copyUp (m : Mem) (d s : ℕ) : ℕ → Mem
  | 0 => m
  | n + 1 => write (copyUp m d s n) (d + n) (copyUp m d s n (s + n))

/-- Where the `i`-th byte of such a copy comes from.  A source that begins below its target is read again where the
copy has got to it, so what lies between the two is repeated. -/
def copySource (d s i : ℕ) : ℕ := if s < d then s + i % (d - s) else s + i

lemma copySource_of_apart {d s i : ℕ} (h : s + i < d ∨ d ≤ s) : copySource d s i = s + i := by
  rw [copySource]
  split_ifs with hlt
  · rw [Nat.mod_eq_of_lt (by omega)]
  · rfl

lemma copyUp_outside (m : Mem) (d s : ℕ) : ∀ (n x : ℕ), x < d ∨ d + n ≤ x → copyUp m d s n x = m x
  | 0, _, _ => rfl
  | n + 1, x, h => by
      rw [copyUp, write_of_ne _ _ (by omega), copyUp_outside m d s n x (by omega)]

lemma copyUp_inside (m : Mem) (d s : ℕ) : ∀ {n i : ℕ}, i < n → copyUp m d s n (d + i) = m (copySource d s i)
  | n + 1, i, hi => by
      by_cases hlast : i = n
      swap
      · rw [copyUp, write_of_ne _ _ (by omega), copyUp_inside m d s (by omega)]
      rw [copyUp, hlast, write_same]
      by_cases happart : s + n < d ∨ d ≤ s
      · rw [copyUp_outside _ _ _ _ _ (by omega), copySource_of_apart happart]
      · -- the byte read has been written before, `d - s` steps ago
        have hback : s + n = d + (n - (d - s)) := by omega
        rw [hback, copyUp_inside m d s (by omega)]
        congr 1
        rw [copySource, copySource, if_pos (by omega), if_pos (by omega), ← Nat.mod_eq_sub_mod (by omega)]

/-! ## Byte strings in memory -/

/-- The bytes `l` stand in memory from `a` on. -/
def Holds (m : Mem) : ℕ → List UInt8 → Prop
  | _, [] => True
  | a, b :: l => m a = b ∧ Holds m (a + 1) l

instance decidableHolds (m : Mem) : ∀ (a : ℕ) (l : List UInt8), Decidable (Holds m a l)
  | _, [] => .isTrue trivial
  | a, b :: l => @instDecidableAnd (m a = b) (Holds m (a + 1) l) _ (decidableHolds m (a + 1) l)

lemma holds_append {m : Mem} : ∀ {a : ℕ} {l l' : List UInt8},
    Holds m a (l ++ l') ↔ Holds m a l ∧ Holds m (a + l.length) l'
  | _, [], _ => by simp [Holds]
  | a, _ :: l, l' => by
      simp only [List.cons_append, Holds, List.length_cons, holds_append, and_assoc]
      rw [Nat.add_right_comm, Nat.add_assoc]

/-! ## Sequences of writes -/

/-- The memory after the writes `ws`, first to last. -/
def writes (m : Mem) (ws : List (ℕ × UInt8)) : Mem := ws.foldl (fun m w => write m w.1 w.2) m

/-- The `n` bytes from `a` on. -/
def bytesAt (m : Mem) (a n : ℕ) : List UInt8 := (List.range n).map fun i => m (a + i)

lemma bytesAt_congr {m m' : Mem} {a n : ℕ} (h : ∀ i < n, m (a + i) = m' (a + i)) : bytesAt m a n = bytesAt m' a n :=
  List.map_congr_left fun i hi => h i (List.mem_range.mp hi)

lemma writes_cons (m : Mem) (w : ℕ × UInt8) (ws : List (ℕ × UInt8)) :
    writes m (w :: ws) = writes (write m w.1 w.2) ws := rfl

lemma writes_append (m : Mem) (ws ws' : List (ℕ × UInt8)) : writes m (ws ++ ws') = writes (writes m ws) ws' :=
  List.foldl_append ..

lemma writes_outside {x : ℕ} : ∀ {ws : List (ℕ × UInt8)} {m : Mem}, x ∉ ws.map Prod.fst → writes m ws x = m x
  | [], _, _ => rfl
  | w :: ws, m, h => by
      rw [List.map_cons, List.mem_cons, not_or] at h
      rw [writes_cons, writes_outside h.2, write_of_ne _ _ h.1]

/-- **Of writes to different addresses** each can be read back. -/
lemma writes_apply {a : ℕ} {v : UInt8} : ∀ {ws : List (ℕ × UInt8)} {m : Mem}, (ws.map Prod.fst).Nodup →
    (a, v) ∈ ws → writes m ws a = v
  | w :: ws, m, hnd, h => by
      rw [List.map_cons, List.nodup_cons] at hnd
      rcases List.mem_cons.mp h with rfl | h
      · rw [writes_cons, writes_outside hnd.1, write_same]
      · rw [writes_cons]
        exact writes_apply hnd.2 h

-- From here on memory accesses are opaque: a unifier that unfolds them compares bytes one by one.
attribute [irreducible] loadLE storeLE fill

end ByteMem
