import NetStack.Dtb.Walk

/-!
# What `dtb_callback` recognises

`string_comp_l` compares as many characters as the property has and knows nothing of the length of the
literal.  So a value that is a proper prefix of a literal passes for it, a value that goes on after the literal
makes the comparison read on behind the literal, and a length that is negative as an `int` compares nothing at
all.  `dtb_callback_recognises` says that there are no other ways to go wrong.
-/

namespace NetStack

open ByteMem Concurrent

namespace Dtb

/-! ## The comparison -/

section

variable {E : DtbEnv} {a : ℕ} {l : Compatible}

/-- **The result of a comparison** is zero exactly if all its characters agree. -/
lemma result_stringCompFrom : ∀ n i, ∃ r, result E (stringCompFrom a l n i) = some r ∧
    (r = 0 ↔ ∀ j, i ≤ j → j < i + n → E.mem (a + j) = E.literal l j)
  | 0, i => ⟨0, rfl, by simp; omega⟩
  | n + 1, i => by
      obtain ⟨r, hr, hiff⟩ := result_stringCompFrom n (i + 1)
      rw [stringCompFrom, result_byte, result_literal]
      have hdiffer : E.mem (a + i) ≠ E.literal l i →
          ¬ ∀ j, i ≤ j → j < i + (n + 1) → E.mem (a + j) = E.literal l j :=
        fun hne h => hne (h i le_rfl (by omega))
      split_ifs with hgt hlt
      · exact ⟨1, rfl, by simp, fun h => absurd h (hdiffer (UInt8.ne_of_lt hgt).symm)⟩
      · exact ⟨-1, rfl, by simp, fun h => absurd h (hdiffer (UInt8.ne_of_lt hlt))⟩
      · refine ⟨r, hr, hiff.trans ⟨fun h j hi hj => ?_, fun h j hi hj => h j (by omega) (by omega)⟩⟩
        rcases Nat.eq_or_lt_of_le hi with rfl | hi
        · exact UInt8.le_antisymm (UInt8.not_lt.mp hgt) (UInt8.not_lt.mp hlt)
        · exact h j hi (by omega)

/-- What a comparison reads: both strings, up to the first difference. -/
lemma mem_ops_stringCompFrom {e : DtbOp} : ∀ {n i}, e ∈ ops E (stringCompFrom a l n i) ↔
    ∃ j, i ≤ j ∧ j < i + n ∧ (∀ t, i ≤ t → t < j → E.mem (a + t) = E.literal l t) ∧
      (e = .byte (a + j) ∨ e = .literal l j)
  | 0, i => by
      simp only [stringCompFrom, ops_pure, List.not_mem_nil, false_iff]
      rintro ⟨j, hi, hj, -⟩
      omega
  | n + 1, i => by
      have ih : e ∈ ops E (stringCompFrom a l n (i + 1)) ↔ _ := mem_ops_stringCompFrom
      rw [stringCompFrom, ops_byte, ops_literal, List.mem_cons, List.mem_cons]
      have hhere : e = .byte (a + i) ∨ e = .literal l i →
          ∃ j, i ≤ j ∧ j < i + (n + 1) ∧ (∀ t, i ≤ t → t < j → E.mem (a + t) = E.literal l t) ∧
            (e = .byte (a + j) ∨ e = .literal l j) :=
        fun he => ⟨i, le_rfl, by omega, fun t h₁ h₂ => by omega, he⟩
      by_cases heq : E.mem (a + i) = E.literal l i
      · rw [heq, if_neg (UInt8.lt_irrefl _), if_neg (UInt8.lt_irrefl _), ih]
        constructor
        · rintro (he | he | ⟨j, hi, hj, hag, he⟩)
          · exact hhere (.inl he)
          · exact hhere (.inr he)
          · refine ⟨j, by omega, by omega, fun t h₁ h₂ => ?_, he⟩
            rcases Nat.eq_or_lt_of_le h₁ with rfl | h₁
            · exact heq
            · exact hag t h₁ h₂
        · rintro ⟨j, hi, hj, hag, he⟩
          rcases Nat.eq_or_lt_of_le hi with rfl | hi
          · exact he.imp_right .inl
          · exact .inr (.inr ⟨j, hi, by omega, fun t h₁ h₂ => hag t (by omega) h₂, he⟩)
      · have hstop : ops E (if E.mem (a + i) > E.literal l i then (pure 1 : Walk ℤ)
            else if E.mem (a + i) < E.literal l i then pure (-1) else stringCompFrom a l n (i + 1)) = [] := by
          split_ifs with hgt hlt
          · rfl
          · rfl
          · exact absurd (UInt8.le_antisymm (UInt8.not_lt.mp hgt) (UInt8.not_lt.mp hlt)) heq
        rw [hstop]
        constructor
        · rintro (he | he | he)
          · exact hhere (.inl he)
          · exact hhere (.inr he)
          · exact absurd he List.not_mem_nil
        · rintro ⟨j, hi, hj, hag, he⟩
          rcases Nat.eq_or_lt_of_le hi with rfl | hi
          · exact he.imp_right .inl
          · exact absurd (hag i le_rfl hi) heq

/-- The first `n` characters at `a` are those of the literal. -/
def Agree (E : DtbEnv) (a : ℕ) (l : Compatible) (n : ℕ) : Prop := ∀ i < n, E.mem (a + i) = E.literal l i

instance (E : DtbEnv) (a : ℕ) (l : Compatible) (n : ℕ) : Decidable (Agree E a l n) :=
  inferInstanceAs (Decidable (∀ i < n, _))

lemma result_stringCompL (len : ℤ) :
    ∃ r, result E (stringCompL a l len) = some r ∧ (r = 0 ↔ Agree E a l len.toNat) := by
  obtain ⟨r, hr, hiff⟩ := result_stringCompFrom (E := E) (a := a) (l := l) len.toNat 0
  exact ⟨r, hr, hiff.trans ⟨fun h i hi => h i (Nat.zero_le i) (by omega), fun h j _ hj => h j (by omega)⟩⟩

lemma mem_ops_stringCompL {e : DtbOp} {len : ℤ} : e ∈ ops E (stringCompL a l len) ↔
    ∃ j < len.toNat, Agree E a l j ∧ (e = .byte (a + j) ∨ e = .literal l j) := by
  rw [stringCompL, mem_ops_stringCompFrom]
  constructor
  · rintro ⟨j, -, hj, hag, he⟩
    exact ⟨j, by omega, fun t ht => hag t (Nat.zero_le t) ht, he⟩
  · rintro ⟨j, hj, hag, he⟩
    exact ⟨j, Nat.zero_le j, by omega, fun t _ ht => hag t ht, he⟩

/-! ## The callback -/

variable {n : ℕ}

/-- **What `dtb_callback` returns.** -/
lemma result_dtbCallback : result E (dtbCallback a n) =
    some (if Agree E a .ns16550a (toInt n).toNat then 1
      else if Agree E a .virtioMmio (toInt n).toNat then 2 else 0) := by
  obtain ⟨r, hr, hiff⟩ := result_stringCompL (E := E) (a := a) (l := .ns16550a) (toInt n)
  obtain ⟨r', hr', hiff'⟩ := result_stringCompL (E := E) (a := a) (l := .virtioMmio) (toInt n)
  rw [dtbCallback, result_bind hr]
  simp only [hiff]
  split_ifs with hns hvirtio
  · rfl
  · rw [result_bind hr', if_pos (hiff'.mpr hvirtio), result_pure]
  · rw [result_bind hr', if_neg (mt hiff'.mp hvirtio), result_pure]

/-- The second literal is looked at if the first one differs. -/
def LookedAt (E : DtbEnv) (a : ℕ) (l : Compatible) (n : ℕ) : Prop :=
  l = .virtioMmio → ¬ Agree E a .ns16550a n

/-- **What `dtb_callback` reads.** -/
lemma mem_ops_dtbCallback {e : DtbOp} : e ∈ ops E (dtbCallback a n) ↔
    ∃ l, LookedAt E a l (toInt n).toNat ∧
      ∃ j < (toInt n).toNat, Agree E a l j ∧ (e = .byte (a + j) ∨ e = .literal l j) := by
  obtain ⟨r, hr, hiff⟩ := result_stringCompL (E := E) (a := a) (l := .ns16550a) (toInt n)
  obtain ⟨r', hr', -⟩ := result_stringCompL (E := E) (a := a) (l := .virtioMmio) (toInt n)
  have hfirst : LookedAt E a .ns16550a (toInt n).toNat := fun h => absurd h (by decide)
  rw [dtbCallback, ops_bind hr, List.mem_append, mem_ops_stringCompL]
  split_ifs with hns
  · simp only [ops_pure, List.not_mem_nil, or_false]
    constructor
    · exact fun h => ⟨_, hfirst, h⟩
    · rintro ⟨l, hl, h⟩
      cases l with
      | ns16550a => exact h
      | virtioMmio => exact absurd (hiff.mp hns) (hl rfl)
  · have hrest : ∀ k : ℤ → Walk ℕ, ops E (stringCompL a .virtioMmio (toInt n) >>= k)
        = ops E (stringCompL a .virtioMmio (toInt n)) ++ ops E (k r') := fun k => ops_bind hr' k
    rw [hrest]
    have hlast : ops E (if r' = 0 then (pure 2 : Walk ℕ) else pure 0) = [] := by split_ifs <;> rfl
    rw [hlast, List.append_nil, mem_ops_stringCompL]
    constructor
    · rintro (h | h)
      · exact ⟨_, hfirst, h⟩
      · exact ⟨.virtioMmio, fun _ => mt hiff.mpr hns, h⟩
    · rintro ⟨l, hl, h⟩
      cases l with
      | ns16550a => exact .inl h
      | virtioMmio => exact .inr h

lemma returns_dtbCallback : Returns E dtbCallback := fun _ _ => ⟨_, result_dtbCallback⟩

end

/-! ## What it is meant to recognise -/

/-- The number for a compatible string: its value is exactly the literal, with the `NUL`. -/
def compatibleKind (v : List UInt8) : ℕ :=
  if v = Compatible.ns16550a.bytes then 1 else if v = Compatible.virtioMmio.bytes then 2 else 0

/-- The callback on the value `v` at `a`: the right number, from the value and the literals alone. -/
structure Recognises (E : DtbEnv) (a : ℕ) (v : List UInt8) : Prop where
  kind : result E (dtbCallback a v.length) = some (compatibleKind v)
  value : ∀ x, .byte x ∈ ops E (dtbCallback a v.length) → a ≤ x ∧ x < a + v.length
  literal : ∀ l i, .literal l i ∈ ops E (dtbCallback a v.length) → i < l.bytes.length

/-- The value is not an exact match, but one of value and literal goes on where the other ends. -/
def Confusable (v : List UInt8) (l : Compatible) : Prop := (v <+: l.bytes ∨ l.bytes <+: v) ∧ v ≠ l.bytes

section

variable {E : DtbEnv} {a : ℕ} {v : List UInt8} {l : Compatible}

lemma holds_iff_getElem {m : Mem} : ∀ {a : ℕ} {v : List UInt8}, Holds m a v ↔ ∀ i (h : i < v.length), m (a + i) = v[i]
  | a, [] => by simp [Holds]
  | a, b :: v => by
      rw [Holds, holds_iff_getElem]
      constructor
      · rintro ⟨hb, hv⟩ i hi
        cases i with
        | zero => exact hb
        | succ i =>
            rw [← Nat.add_assoc, Nat.add_right_comm]
            exact hv i (by simpa using hi)
      · intro h
        refine ⟨h 0 (by simp), fun i hi => ?_⟩
        have := h (i + 1) (by simpa using hi)
        rwa [← Nat.add_assoc, Nat.add_right_comm] at this

lemma literal_eq {i : ℕ} (hi : i < l.bytes.length) : E.literal l i = l.bytes[i] := by
  rw [DtbEnv.literal, List.getD_eq_getElem?_getD, List.getElem?_eq_getElem hi, Option.getD_some]

/-- Agreement over the whole value: the value is a prefix of the literal. -/
lemma agree_iff_startsWith (hv : Holds E.mem a v) (hle : v.length ≤ l.bytes.length) :
    Agree E a l v.length ↔ v <+: l.bytes := by
  rw [List.prefix_iff_getElem]
  constructor
  · intro h
    refine ⟨hle, fun i hi => ?_⟩
    rw [← holds_iff_getElem.mp hv i hi, h i hi, literal_eq]
  · rintro ⟨hle, h⟩ i hi
    rw [holds_iff_getElem.mp hv i hi, h i hi, literal_eq (hi.trans_le hle)]

/-- Agreement up to the `NUL` of the literal: the literal is a prefix of the value. -/
lemma agree_literal_iff (hv : Holds E.mem a v) (hle : l.bytes.length ≤ v.length) :
    Agree E a l l.bytes.length ↔ l.bytes <+: v := by
  rw [List.prefix_iff_getElem]
  constructor
  · intro h
    refine ⟨hle, fun i hi => ?_⟩
    rw [← holds_iff_getElem.mp hv i (hi.trans_le hle), h i hi, literal_eq]
  · rintro ⟨hle, h⟩ i hi
    rw [holds_iff_getElem.mp hv i (hi.trans_le hle), literal_eq hi, h i hi]

/-- Strings that are not prefixes of each other differ inside both. -/
lemma Agree.short (hv : Holds E.mem a v) {j : ℕ} (hj : j ≤ v.length) (hag : Agree E a l j)
    (hno : ¬ (v <+: l.bytes ∨ l.bytes <+: v)) : j < v.length ∧ j < l.bytes.length := by
  rw [not_or] at hno
  by_cases hlong : l.bytes.length ≤ j
  · exact absurd ((agree_literal_iff hv (hlong.trans hj)).mp fun i hi => hag i (by omega)) hno.2
  · refine ⟨lt_of_le_of_ne hj fun heq => ?_, by omega⟩
    subst heq
    exact hno.1 ((agree_iff_startsWith hv (by omega)).mp hag)

lemma toInt_toNat {n : ℕ} (hn : n < 2 ^ 31) : (toInt n).toNat = n := by
  rw [toInt, if_pos hn, Int.toNat_natCast]

lemma toInt_toNat_of_ge {n : ℕ} (hn : ¬ n < 2 ^ 31) (hlt : n < 2 ^ 32) : (toInt n).toNat = 0 := by
  rw [toInt, if_neg hn]
  omega

lemma compatibleKind_one (h : compatibleKind v = 1) : v = Compatible.ns16550a.bytes := by
  by_contra hne
  rw [compatibleKind, if_neg hne] at h
  split_ifs at h
  omega

lemma compatibleKind_two (h : compatibleKind v = 2) : v = Compatible.virtioMmio.bytes := by
  rw [compatibleKind] at h
  split_ifs at h with hns hvirtio
  · omega
  · exact hvirtio

/-- A value that is recognised is not confusable. -/
lemma Recognises.not_confusable (h : Recognises E a v) (hv : Holds E.mem a v) (hn : v.length < 2 ^ 31) :
    ¬ Confusable v l := by
  rintro ⟨hpre, hne⟩
  have hkind := Option.some.inj (h.kind.symm.trans result_dtbCallback)
  rw [toInt_toNat hn] at hkind
  have hlooked : LookedAt E a l v.length := by
    rintro rfl hns
    rw [if_pos hns] at hkind
    rw [compatibleKind_one hkind] at hpre
    exact absurd hpre (by decide)
  rcases hpre with hpre | hpre
  · -- a prefix passes for the literal
    have hag := (agree_iff_startsWith hv hpre.length_le).mpr hpre
    cases l with
    | ns16550a =>
        rw [if_pos hag] at hkind
        exact hne (compatibleKind_one hkind)
    | virtioMmio =>
        rw [if_neg (hlooked rfl), if_pos hag] at hkind
        exact hne (compatibleKind_two hkind)
  · -- a longer value makes the comparison read on behind the literal
    have hlt : l.bytes.length < v.length :=
      lt_of_le_of_ne hpre.length_le fun heq => hne (hpre.eq_of_length heq).symm
    have hread : .literal l l.bytes.length ∈ ops E (dtbCallback a v.length) := by
      rw [mem_ops_dtbCallback, toInt_toNat hn]
      exact ⟨l, hlooked, l.bytes.length, hlt, (agree_literal_iff hv hlt.le).mpr hpre, .inr rfl⟩
    exact absurd (h.literal l _ hread) (lt_irrefl _)

/-- **`dtb_callback` recognises exactly the two compatible strings**, and reads nothing but the value and the
literals, if and only if the length of the value is not negative as an `int` and neither literal can be
confused with it. -/
theorem dtb_callback_recognises (E : DtbEnv) (a : ℕ) (v : List UInt8) (hlen : v.length < 2 ^ 32)
    (hv : Holds E.mem a v) : Recognises E a v ↔ v.length < 2 ^ 31 ∧ ∀ l, ¬ Confusable v l := by
  constructor
  · intro h
    have hn : v.length < 2 ^ 31 := by
      by_contra hn
      have hkind := Option.some.inj (h.kind.symm.trans result_dtbCallback)
      have hnone : Agree E a .ns16550a 0 := fun i hi => absurd hi (Nat.not_lt_zero i)
      rw [toInt_toNat_of_ge hn hlen, if_pos hnone] at hkind
      rw [compatibleKind_one hkind] at hn
      exact hn (by decide)
    exact ⟨hn, fun l => h.not_confusable hv hn⟩
  · rintro ⟨hn, hno⟩
    have hshort : ∀ {l : Compatible} {j : ℕ}, v ≠ l.bytes → j ≤ v.length → Agree E a l j →
        j < v.length ∧ j < l.bytes.length :=
      fun {l} {j} hne hj hag => hag.short hv hj fun hpre => hno l ⟨hpre, hne⟩
    have hexact : ∀ {l : Compatible}, Agree E a l v.length ↔ v = l.bytes := fun {l} => by
      constructor
      · intro hag
        by_contra hne
        exact absurd (hshort hne le_rfl hag).1 (lt_irrefl _)
      · intro heq
        exact (agree_iff_startsWith hv (heq ▸ le_rfl)).mpr (heq ▸ List.prefix_rfl)
    refine ⟨?_, fun x hx => ?_, fun l i hi => ?_⟩
    · rw [result_dtbCallback, toInt_toNat hn, compatibleKind]
      simp only [hexact]
    · obtain ⟨l, -, j, hj, -, hop⟩ := mem_ops_dtbCallback.mp hx
      rw [toInt_toNat hn] at hj
      rcases hop with hop | hop
      · cases hop
        omega
      · cases hop
    · obtain ⟨l', -, j, hj, hag, hop⟩ := mem_ops_dtbCallback.mp hi
      rw [toInt_toNat hn] at hj
      rcases hop with hop | hop
      · cases hop
      · cases hop
        by_cases heq : v = l.bytes
        · rw [← heq]
          exact hj
        · exact (hshort heq hj.le hag).2

end

/-- The one byte `n`. -/
def oneByteEnv : DtbEnv := ⟨fun _ => 110, fun _ _ => 0, fun _ _ => 0⟩

/-- A property of that value passes for a serial port. -/
theorem dtb_callback_takes_prefix : Holds oneByteEnv.mem 0 [110] ∧
    result oneByteEnv (dtbCallback 0 [110].length) = some 1 ∧ compatibleKind [110] = 0 ∧
      ¬ Recognises oneByteEnv 0 [110] := by
  have hresult : result oneByteEnv (dtbCallback 0 [110].length) = some 1 := by
    rw [result_dtbCallback]
    decide
  refine ⟨by decide, hresult, by decide, fun h => ?_⟩
  have hkind := hresult.symm.trans h.kind
  exact absurd hkind (by decide)

/-- The serial port of the `virt` machine is recognised. -/
theorem dtb_callback_recognises_ns16550a :
    Recognises ⟨fun x => Compatible.ns16550a.bytes.getD x 0, fun _ _ => 0, fun _ _ => 0⟩ 0 Compatible.ns16550a.bytes :=
  (dtb_callback_recognises _ 0 _ (by decide) (by decide)).mpr ⟨by decide, fun l => by
    rintro ⟨hpre, hne⟩
    cases l with
    | ns16550a => exact hne rfl
    | virtioMmio => exact absurd hpre (by decide)⟩

end Dtb

end NetStack
