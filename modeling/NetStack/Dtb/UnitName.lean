import NetStack.Dtb.Callback
import Mathlib.Data.List.TakeWhile
import Mathlib.Data.Nat.Digits.Defs

/-!
# Unit addresses

`parse_dtb_unit_name` shifts its accumulator before it looks at the next character, and steps over the `NUL` of a
name without a `@` as if it were one.  So a run of digits that ends before the name does comes out sixteen times
too large, and without a `@` the digits are those of whatever stands behind the name.  `unitAddress` is what the
function is for; `parse_dtb_unit_name_correct` says on which names it computes it.
-/

namespace NetStack

open ByteMem Concurrent

namespace Dtb

/-! ## The address in a name -/

/-- What follows the first `@` of a name. -/
def afterAt (name : List UInt8) : List UInt8 := (name.dropWhile (· ≠ 64)).tail

/-- The longest run of hexadecimal digits in front. -/
def hexRun (l : List UInt8) : List UInt8 := l.takeWhile fun c => (hexDigit c.toNat).isSome

/-- The number that digits denote. -/
def hexValue (ds : List UInt8) : ℕ := Nat.ofDigits 16 (ds.map fun c => (hexDigit c.toNat).getD 0).reverse

/-- The unit address of a name, modulo `2^64`. -/
def unitAddress (name : List UInt8) : ℕ := hexValue (hexRun (afterAt name)) % 2 ^ 64

/-- The unit address of `name`, at `a`, is what `parse_dtb_unit_name` returns, and its index does not overflow. -/
structure Parses (E : DtbEnv) (a : ℕ) (name : List UInt8) : Prop where
  value : ∃ limit, result E (parseDtbUnitName limit a) = some (unitAddress name)
  index : ∀ limit, .overflow ∉ ops E (parseDtbUnitName limit a)

lemma hexValue_append (ds : List UInt8) (d : UInt8) :
    hexValue (ds ++ [d]) = 16 * hexValue ds + (hexDigit d.toNat).getD 0 := by
  rw [hexValue, List.map_append, List.reverse_append, List.map_singleton, List.reverse_singleton,
    List.singleton_append, Nat.ofDigits_cons, ← hexValue, Nat.add_comm]

lemma afterAt_append {pre rest : List UInt8} (h : 64 ∉ pre) : afterAt (pre ++ 64 :: rest) = rest := by
  have hpre : ∀ c ∈ pre, decide (c ≠ 64) = true := fun c hc => by
    rw [decide_eq_true_eq]
    rintro rfl
    exact h hc
  rw [afterAt, List.dropWhile_append_of_pos hpre, List.dropWhile_cons_of_neg (by simp), List.tail_cons]

lemma unitAddress_of_notMem {name : List UInt8} (h : 64 ∉ name) : unitAddress name = 0 := by
  have hnil : name.dropWhile (· ≠ 64) = [] := List.dropWhile_eq_nil_iff.mpr fun c hc => by
    rw [decide_eq_true_eq]
    rintro rfl
    exact h hc
  rw [unitAddress, afterAt, hnil]
  rfl

/-- What ends a run of digits. -/
lemma hexRun_split (l : List UInt8) : hexRun l = l ∨ ∃ c more, l = hexRun l ++ c :: more ∧ hexDigit c.toNat = none := by
  cases h : l.dropWhile (fun c => (hexDigit c.toNat).isSome) with
  | nil => exact .inl (List.takeWhile_eq_self_iff.mpr (List.dropWhile_eq_nil_iff.mp h))
  | cons c more =>
      refine .inr ⟨c, more, ?_, ?_⟩
      · rw [hexRun, ← h, List.takeWhile_append_dropWhile]
      · have hc := List.head_dropWhile_not (fun c : UInt8 => (hexDigit c.toNat).isSome) (l := l) (by simp [h])
        simpa [h] using hc

section

variable {m : Mem} {p q : ℕ}

/-! ## The scans -/

lemma holds_get {l : List UInt8} (h : Holds m q l) {i : ℕ} (hi : i < l.length) : m (q + i) = l[i] :=
  holds_iff_getElem.mp h i hi

/-- The search ends at the first `@`. -/
lemma first_at {pre rest : List UInt8} (h : Holds m q (pre ++ 64 :: rest)) (hat : 64 ∉ pre) (hnul : 0 ∉ pre) :
    First m endsSearch q pre.length := by
  rw [holds_append] at h
  refine ⟨?_, fun i hi => ?_⟩
  · rw [h.2.1]
    rfl
  · rw [holds_get h.1 hi, endsSearch, decide_eq_false_iff_not]
    rintro (hc | hc)
    · exact hat (hc ▸ List.getElem_mem hi)
    · exact hnul (hc ▸ List.getElem_mem hi)

/-- Without a `@` it ends at the `NUL`. -/
lemma first_nul {name : List UInt8} (h : Holds m q (name ++ [0])) (hat : 64 ∉ name) (hnul : 0 ∉ name) :
    First m endsSearch q name.length := by
  rw [holds_append] at h
  refine ⟨?_, fun i hi => ?_⟩
  · rw [h.2.1]
    rfl
  · rw [holds_get h.1 hi, endsSearch, decide_eq_false_iff_not]
    rintro (hc | hc)
    · exact hat (hc ▸ List.getElem_mem hi)
    · exact hnul (hc ▸ List.getElem_mem hi)

/-- The digits end at the first character that is none. -/
lemma first_hexRun {ds : List UInt8} {c : UInt8} (h : Holds m q (ds ++ [c])) (hds : ∀ d ∈ ds, (hexDigit d.toNat).isSome)
    (hc : hexDigit c.toNat = none) : First m endsDigits q ds.length := by
  rw [holds_append] at h
  refine ⟨?_, fun i hi => ?_⟩
  · rw [h.2.1, endsDigits, hc]
    rfl
  · have hsome := hds _ (List.getElem_mem hi)
    rw [holds_get h.1 hi, endsDigits]
    simpa [Option.isNone_eq_false_iff] using hsome

/-- **The loop over the digits**, with `done` digits behind it and `ds` to come.  Only a `NUL` ends it without a
last shift. -/
lemma hexDigits_run {c : UInt8} (hc : hexDigit c.toNat = none) : ∀ (ds done : List UInt8) {fuel i : ℕ},
    (∀ d ∈ ds, (hexDigit d.toNat).isSome) → Holds m (p + i) (ds ++ [c]) → ds.length < fuel →
      NetStack.hexDigits m p fuel i (hexValue done % 2 ^ 64)
        = some (hexValue (done ++ ds) * (if c = 0 then 1 else 16) % 2 ^ 64)
  | [], done, fuel + 1, i, _, h, _ => by
      rw [hexDigits_succ, h.1, List.append_nil]
      split_ifs with hzero
      · rw [Nat.mul_one]
      · rw [hc]
        dsimp only
        rw [Nat.shiftLeft_eq]
        congr 1
        omega
  | d :: ds, done, fuel + 1, i, hds, h, hf => by
      obtain ⟨v, hv⟩ := Option.isSome_iff_exists.mp (hds d List.mem_cons_self)
      have hd : d ≠ 0 := by
        rintro rfl
        cases hv
      have hacc : ((hexValue done % 2 ^ 64) <<< 4 % 2 ^ 64 + v) % 2 ^ 64 = hexValue (done ++ [d]) % 2 ^ 64 := by
        rw [hexValue_append, hv, Option.getD_some, Nat.shiftLeft_eq]
        omega
      have ih : NetStack.hexDigits m p fuel (i + 1) _ = _ := hexDigits_run hc ds (done ++ [d])
        (fun d' hd' => hds d' (List.mem_cons_of_mem _ hd')) h.2 (Nat.lt_of_succ_lt_succ hf)
      rw [hexDigits_succ, h.1, if_neg hd, hv]
      dsimp only
      rw [hacc, ih, List.append_assoc]
      rfl

end

section

variable {E : DtbEnv} {a : ℕ} {name : List UInt8}

/-- What follows the digits of a name with a `@`, its `NUL` if nothing else does. -/
lemma digits_end (h : Holds E.mem a (name ++ [0])) (hat : 64 ∈ name) (hnul : 0 ∉ name) :
    ∃ k c, First E.mem endsSearch a k ∧ k + (hexRun (afterAt name)).length < name.length ∧
      Holds E.mem (a + k + 1) (hexRun (afterAt name) ++ [c]) ∧ hexDigit c.toNat = none ∧
      (c = 0 ↔ hexRun (afterAt name) = afterAt name) := by
  obtain ⟨pre, rest, rfl, hpre⟩ := List.eq_append_cons_of_mem hat
  have hnul' : 0 ∉ pre := fun hmem => hnul (List.mem_append_left _ hmem)
  have hrest : 0 ∉ rest := fun hmem => hnul (by simp [hmem])
  rw [afterAt_append hpre]
  rw [List.append_assoc] at h
  have hfirst := first_at h hpre hnul'
  have hheld : Holds E.mem (a + pre.length + 1) (rest ++ [0]) := ((holds_append ..).mp h).2.2
  rcases hexRun_split rest with hall | ⟨c, more, hsplit, hc⟩
  · refine ⟨pre.length, 0, hfirst, ?_, ?_, rfl, by simp [hall]⟩
    · rw [hall]
      simp
    · rw [hall]
      exact hheld
  · have hne : hexRun rest ≠ rest := fun heq => by
      have hlen := congrArg List.length (heq ▸ hsplit)
      rw [List.length_append, List.length_cons] at hlen
      omega
    have hc0 : c ≠ 0 := by
      rintro rfl
      exact hrest (hsplit ▸ by simp)
    refine ⟨pre.length, c, hfirst, ?_, ?_, hc, by simp [hne, hc0]⟩
    · have hlen := congrArg List.length hsplit
      rw [List.length_append, List.length_cons] at hlen
      rw [List.length_append, List.length_cons]
      omega
    · have hlong : Holds E.mem (a + pre.length + 1) ((hexRun rest ++ [c]) ++ (more ++ [0])) := by
        rw [List.append_assoc, List.singleton_append, ← List.cons_append, ← List.append_assoc, ← hsplit]
        exact hheld
      exact ((holds_append ..).mp hlong).1

lemma isSome_of_mem_hexRun {l : List UInt8} {d : UInt8} (h : d ∈ hexRun l) : (hexDigit d.toNat).isSome := by
  have := List.mem_takeWhile_imp h
  simpa using this

/-- **What `parse_dtb_unit_name` computes** on a name with a `@`. -/
lemma result_of_mem (h : Holds E.mem a (name ++ [0])) (hat : 64 ∈ name) (hnul : 0 ∉ name) {limit : ℕ}
    (hlimit : name.length ≤ limit) : result E (parseDtbUnitName limit a)
      = some (unitAddress name * (if hexRun (afterAt name) = afterAt name then 1 else 16) % 2 ^ 64) := by
  obtain ⟨k, c, hk, hlen, hdigits, hc, hiff⟩ := digits_end h hat hnul
  have hskip := skipToAt_of_first hk limit (Nat.zero_le k) (by omega)
  rw [Nat.add_zero] at hskip
  have hrun : NetStack.hexDigits E.mem (a + k + 1) limit 0 _ = _ := hexDigits_run hc (hexRun (afterAt name)) []
    (fun d hd => isSome_of_mem_hexRun hd) hdigits (by omega)
  have hzero : hexValue [] % 2 ^ 64 = 0 := rfl
  rw [hzero, List.nil_append] at hrun
  rw [result_parseDtbUnitName, NetStack.parseDtbUnitName, hskip]
  refine hrun.trans (congrArg some ?_)
  rw [unitAddress]
  simp only [hiff]
  split_ifs
  · omega
  · omega

/-- The index overflows if there are too many digits. -/
lemma overflow_iff (h : Holds E.mem a (name ++ [0])) (hat : 64 ∈ name) (hnul : 0 ∉ name) :
    (∃ limit, .overflow ∈ ops E (parseDtbUnitName limit a)) ↔ 2 ^ 31 ≤ (hexRun (afterAt name)).length := by
  obtain ⟨k, c, hk, hlen, hdigits, hc, -⟩ := digits_end h hat hnul
  have hj := first_hexRun hdigits (fun d hd => isSome_of_mem_hexRun hd) hc
  constructor
  · rintro ⟨limit, hmem⟩
    rcases mem_ops_parse hmem with hmem | ⟨p, hp, hmem⟩
    · have hops := ops_skipToAt (E := E) a limit 0
      rw [Nat.add_zero] at hops
      rw [hops] at hmem
      rcases hk.mem_scanOps (Nat.zero_le k) hmem with ⟨i, -, heq⟩ | ⟨hidx, -⟩
      · exact absurd heq (by simp)
      · exact absurd hidx (by simp)
    · rw [hk.skipToAt_eq hp, ops_hexDigits] at hmem
      rcases hj.mem_scanOps (Nat.zero_le _) hmem with ⟨i, -, heq⟩ | ⟨-, hbig, -⟩
      · exact absurd heq (by simp)
      · exact hbig
  · intro hbig
    have hskip := skipToAt_of_first hk name.length (Nat.zero_le k) (by omega)
    rw [Nat.add_zero] at hskip
    refine ⟨name.length, ops_hexDigits_subset hskip ?_⟩
    rw [ops_hexDigits]
    exact hj.overflow hbig (by omega) (by omega)

end

/-- The bytes `l` at `a`, and zeros elsewhere. -/
def bytesEnv (a : ℕ) (l : List UInt8) : DtbEnv :=
  ⟨fun x => if a ≤ x then l.getD (x - a) 0 else 0, fun _ _ => 0, fun _ _ => 0⟩

lemma holds_bytesEnv (a : ℕ) (l : List UInt8) : Holds (bytesEnv a l).mem a l := by
  refine holds_iff_getElem.mpr fun i hi => ?_
  simp [bytesEnv, hi]

/-- Without a `@`, the digit behind the name is taken for its address. -/
lemma result_behind (a : ℕ) {name : List UInt8} (hat : 64 ∉ name) (hnul : 0 ∉ name) :
    ∃ limit, result (bytesEnv a (name ++ [0] ++ [49, 0])) (parseDtbUnitName limit a) = some 1 := by
  have hheld := (holds_append ..).mp (holds_bytesEnv a (name ++ [0] ++ [49, 0]))
  have hskip := skipToAt_of_first (first_nul hheld.1 hat hnul) (name.length + 2) (Nat.zero_le _) (by omega)
  rw [Nat.add_zero a] at hskip
  have hdigit : Holds (bytesEnv a (name ++ [0] ++ [49, 0])).mem (a + name.length + 1 + 0) ([49] ++ [0]) := by
    have hbehind := hheld.2
    rw [List.length_append, List.length_singleton, ← Nat.add_assoc] at hbehind
    exact hbehind
  have hone : ∀ d ∈ [(49 : UInt8)], (hexDigit d.toNat).isSome := by
    intro d hd
    rw [List.mem_singleton.mp hd]
    decide
  have hrun : NetStack.hexDigits _ _ (name.length + 2) 0 _ = _ :=
    hexDigits_run (c := 0) (by decide) [49] [] hone hdigit (by simp)
  refine ⟨name.length + 2, ?_⟩
  rw [result_parseDtbUnitName, NetStack.parseDtbUnitName, hskip]
  exact hrun.trans (by decide)

/-- Where fifteen is invertible, only zero survives a shift by four. -/
lemma eq_zero_of_shift {M u : ℕ} (hM : M.Coprime 15) (hlt : u < M) (h : u * 16 % M = u) : u = 0 := by
  have hmod : (u * 16 - u) % M = 0 := Nat.sub_mod_eq_zero_of_mod_eq (h.trans (Nat.mod_eq_of_lt hlt).symm)
  have hsub : u * 16 - u = 15 * u := by omega
  exact Nat.eq_zero_of_dvd_of_lt (hM.dvd_of_dvd_mul_left (hsub ▸ Nat.dvd_of_mod_eq_zero hmod)) hlt

/-- **`parse_dtb_unit_name` parses the unit address** of a name, whatever stands behind it, if and only if the name
has a `@`, and fewer than `2^31` digits after it that go to the end of the name or denote zero. -/
theorem parse_dtb_unit_name_correct (a : ℕ) (name : List UInt8) (hnul : 0 ∉ name) :
    (∀ E : DtbEnv, Holds E.mem a (name ++ [0]) → Parses E a name) ↔
      64 ∈ name ∧ (hexRun (afterAt name)).length < 2 ^ 31 ∧
        (hexRun (afterAt name) = afterAt name ∨ unitAddress name = 0) := by
  have hunique : ∀ {E : DtbEnv} {limit limit' r r' : ℕ}, result E (parseDtbUnitName limit a) = some r →
      result E (parseDtbUnitName limit' a) = some r' → r = r' := by
    intro E limit limit' r r' hr hr'
    have h₁ := result_extends (parseDtbUnitName_extends a (le_max_left limit limit')) hr
    have h₂ := result_extends (parseDtbUnitName_extends a (le_max_right limit limit')) hr'
    exact Option.some.inj (h₁.symm.trans h₂)
  constructor
  · intro h
    have hat : 64 ∈ name := by
      by_contra hat
      obtain ⟨limit, hone⟩ := result_behind a hat hnul
      obtain ⟨limit', hvalue⟩ := (h _ ((holds_append ..).mp (holds_bytesEnv a (name ++ [0] ++ [49, 0]))).1).value
      have := hunique hone hvalue
      rw [unitAddress_of_notMem hat] at this
      exact absurd this (by norm_num)
    have hheld := holds_bytesEnv a (name ++ [0])
    have hparses := h _ hheld
    refine ⟨hat, ?_, ?_⟩
    · by_contra hbig
      obtain ⟨limit, hover⟩ := (overflow_iff hheld hat hnul).mpr (Nat.not_lt.mp hbig)
      exact hparses.index limit hover
    · by_contra hno
      rw [not_or] at hno
      obtain ⟨limit, hvalue⟩ := hparses.value
      have hshift := hunique hvalue (result_of_mem hheld hat hnul le_rfl)
      have hlt : unitAddress name < 2 ^ 64 := Nat.mod_lt _ (by norm_num)
      rw [if_neg hno.1] at hshift
      exact hno.2 (eq_zero_of_shift (by norm_num) hlt hshift.symm)
  · rintro ⟨hat, hsmall, hend⟩ E hheld
    refine ⟨⟨name.length, ?_⟩, fun limit hover => ?_⟩
    · rw [result_of_mem hheld hat hnul le_rfl]
      have hlt : unitAddress name < 2 ^ 64 := Nat.mod_lt _ (by norm_num)
      rcases hend with hall | hzero
      · rw [if_pos hall, Nat.mul_one, Nat.mod_eq_of_lt hlt]
      · rw [hzero, Nat.zero_mul, Nat.zero_mod]
    · exact absurd ((overflow_iff hheld hat hnul).mp ⟨limit, hover⟩) (Nat.not_le.mpr hsmall)

/-- The name `@1,`: the shift before the comma stays. -/
theorem parse_dtb_unit_name_shifts : unitAddress [64, 49, 44] = 1 ∧
    result (bytesEnv 0 [64, 49, 44, 0]) (parseDtbUnitName 4 0) = some 16 ∧
    ¬ ∀ E : DtbEnv, Holds E.mem 0 ([64, 49, 44] ++ [0]) → Parses E 0 [64, 49, 44] := by
  have hshift : result (bytesEnv 0 [64, 49, 44, 0]) (parseDtbUnitName 4 0) = some 16 := by decide +kernel
  refine ⟨by decide +kernel, hshift, fun h => ?_⟩
  obtain ⟨limit, hvalue⟩ := (h _ (holds_bytesEnv 0 [64, 49, 44, 0])).value
  have h₁ := result_extends (parseDtbUnitName_extends 0 (le_max_left limit 4)) hvalue
  have h₂ := result_extends (parseDtbUnitName_extends 0 (le_max_right limit 4)) hshift
  exact absurd (h₁.symm.trans h₂) (by decide +kernel)

/-- The name `uart@10000000`. -/
theorem parse_dtb_unit_name_uart :
    unitAddress [117, 97, 114, 116, 64, 49, 48, 48, 48, 48, 48, 48, 48] = 0x10000000 ∧
    ∀ E : DtbEnv, Holds E.mem 0 ([117, 97, 114, 116, 64, 49, 48, 48, 48, 48, 48, 48, 48] ++ [0]) →
      Parses E 0 [117, 97, 114, 116, 64, 49, 48, 48, 48, 48, 48, 48, 48] :=
  ⟨by decide +kernel,
    (parse_dtb_unit_name_correct 0 _ (by decide)).mpr ⟨by decide, by decide +kernel, .inl (by decide +kernel)⟩⟩

end Dtb

end NetStack
