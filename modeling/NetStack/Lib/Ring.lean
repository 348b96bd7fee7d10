import Mathlib.Tactic

/-!
# Windows of a ring

A ring of `n` slots is addressed by counters that run past `n` and are reduced at each access.
`window ring n a d` is the list of the `d` entries from counter `a` on: what a producer at `a + d`
has written and a consumer at `a` has not yet taken.  A write to the slot of the producer changes no
window that is not full (`window_update`); advancing either counter adds an entry at the end
(`window_succ`) or removes the first one (`window_cons`).
-/

namespace Ring

variable {α : Type*} {ring : ℕ → α} {n : ℕ}

/-- The `d` entries from counter `a` on. -/
def window (ring : ℕ → α) (n a d : ℕ) : List α := (List.range d).map fun j => ring ((a + j) % n)

@[simp] lemma length_window (a d : ℕ) : (window ring n a d).length = d := by simp [window]

/-- The producer advances. -/
lemma window_succ (a d : ℕ) : window ring n a (d + 1) = window ring n a d ++ [ring ((a + d) % n)] := by
  simp [window, List.range_succ]

/-- The consumer advances. -/
lemma window_cons (a d : ℕ) : window ring n a (d + 1) = ring (a % n) :: window ring n (a + 1) d := by
  simp only [window, List.range_succ_eq_map, List.map_cons, List.map_map, Nat.add_zero]
  refine congrArg _ (List.map_congr_left fun j _ => ?_)
  simp only [Function.comp_apply, Nat.succ_eq_add_one]
  rw [Nat.add_right_comm, Nat.add_assoc]

/-- Counters may be reduced modulo any multiple of the number of slots. -/
lemma window_mod {N : ℕ} (hN : n ∣ N) (a d : ℕ) : window ring n (a % N) d = window ring n a d := by
  unfold window
  refine List.map_congr_left fun j _ => ?_
  rw [Nat.add_mod, Nat.mod_mod_of_dvd a hN, ← Nat.add_mod]

/-- Fewer than `n` counters have different slots. -/
lemma slot_ne {a j d : ℕ} (hj : j < d) (hd : d < n) : (a + j) % n ≠ (a + d) % n := by
  intro h
  have hmod : j ≡ d [MOD n] := Nat.ModEq.add_left_cancel' a h
  rw [Nat.ModEq, Nat.mod_eq_of_lt (hj.trans hd), Nat.mod_eq_of_lt hd] at hmod
  omega

/-- The producer's next slot is in no window that is not full. -/
lemma window_update {a d : ℕ} (hd : d < n) (v : α) :
    window (Function.update ring ((a + d) % n) v) n a d = window ring n a d := by
  unfold window
  refine List.map_congr_left fun j hj => ?_
  rw [Function.update_of_ne (slot_ne (List.mem_range.mp hj) hd)]

end Ring
