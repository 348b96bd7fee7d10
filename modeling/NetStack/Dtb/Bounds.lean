import NetStack.Dtb.Callback

/-!
# Where the walk stays inside the structure block

The token loop compares the start of a token with the end of the block, and nothing else: not the four bytes of
the token, not the end of a name, not the length of a property.  `Fits` says of a block what the walk relies on,
piece by piece as far as the walk goes; `fdt_traverse_inside` says that this is exactly when every byte it reads
is one of the block.  The three fields of the header are no part of the block, and left aside.
-/

namespace NetStack

open ByteMem Concurrent

/-- The bytes read lie in `[start, stop)`, and no index overflows. -/
def DtbOp.Inside (start stop : ℕ) : DtbOp → Prop
  | .token a | .word a => start ≤ a ∧ a + 4 ≤ stop
  | .byte a => start ≤ a ∧ a < stop
  | .overflow => False
  | .header _ | .literal _ _ | .call _ _ => True

namespace Dtb

/-- A name at `q` is scanned inside the block: a `NUL` or newline after `n` characters, a `@` or `NUL`, and behind
that something that is no hexadecimal digit. -/
def NameFits (m : Mem) (stop q n : ℕ) : Prop :=
  n < 2 ^ 31 ∧ q + n < stop ∧ ∃ k j, NameScans m q n k j ∧ j < 2 ^ 31 ∧ q + k + 1 + j < stop

/-- A value of `n` bytes at `v` is compared inside the block: it ends there, or differs there from both strings,
or its length is no positive `int`. -/
def ValueFits (E : DtbEnv) (stop v n : ℕ) : Prop :=
  0 < n → n < 2 ^ 31 → v + n ≤ stop ∨ ∀ l, ∃ i, v + i < stop ∧ E.mem (v + i) ≠ E.literal l i

/-- From `p` on, the pieces of the block end before `stop`, as far as they are read. -/
inductive Fits (E : DtbEnv) (stop : ℕ) : ℕ → Prop
  | done {p : ℕ} (hp : stop ≤ p) : Fits E stop p
  | unknown {p : ℕ} (hp : p + 4 ≤ stop) (hplain : readBE E.mem p ∉ plainTokens)
      (hnode : readBE E.mem p ≠ fdtBeginNode) (hprop : readBE E.mem p ≠ fdtProp) : Fits E stop p
  | plain {p : ℕ} (hp : p + 4 ≤ stop) (htoken : readBE E.mem p ∈ plainTokens) (rest : Fits E stop (p + 4)) :
      Fits E stop p
  | node {p n : ℕ} (hp : p + 4 ≤ stop) (htoken : readBE E.mem p = fdtBeginNode) (hname : NameFits E.mem stop (p + 4) n)
      (rest : Fits E stop (alignUp (p + 4 + n + 1))) : Fits E stop p
  | prop {p : ℕ} (hp : p + 8 ≤ stop) (htoken : readBE E.mem p = fdtProp)
      (hvalue : ValueFits E stop (p + 12) (readBE E.mem (p + 4)))
      (rest : Fits E stop (alignUp (p + 12 + readBE E.mem (p + 4)))) : Fits E stop p

section

variable {E : DtbEnv} {start stop q limit : ℕ}

/-! ## Names and values -/

/-- What the scans of a name that fits do. -/
lemma NameFits.inside {n : ℕ} {callback : ℕ → ℕ → Walk ℕ} (h : NameFits E.mem stop q n) (hq : start ≤ q) {e : DtbOp}
    (he : e ∈ ops E (fdtPiece limit callback fdtBeginNode q)) : e.Inside start stop := by
  obtain ⟨hn, hnstop, k, j, hscans, hj, hjstop⟩ := h
  have hscan : ∀ {ends : UInt8 → Bool} {indexed : Bool} {a len : ℕ}, First E.mem ends a len → start ≤ a →
      a + len < stop → len < 2 ^ 31 ∨ indexed = false → e ∈ scanOps E.mem ends indexed a limit 0 →
        e.Inside start stop := by
    intro ends indexed a len hfirst ha hlen hidx he
    rcases hfirst.mem_scanOps (Nat.zero_le len) he with ⟨i, hi, rfl⟩ | ⟨hindexed, hbig, rfl⟩
    · exact ⟨by omega, by omega⟩
    · rcases hidx with hlt | hidx
      · omega
      · rw [hidx] at hindexed
        exact absurd hindexed (by simp)
  rcases mem_ops_node he with he | he | ⟨p, hp, he⟩
  · rw [ops_stringLen] at he
    exact hscan hscans.len hq hnstop (.inl hn) he
  · have hops := ops_skipToAt (E := E) q limit 0
    rw [Nat.add_zero] at hops
    rw [hops] at he
    exact hscan hscans.search hq (by omega) (.inr rfl) he
  · rw [hscans.search.skipToAt_eq hp, ops_hexDigits] at he
    exact hscan hscans.digits (by omega) hjstop (.inl hj) he

/-- What the comparison of a value that fits does. -/
lemma ValueFits.inside {v n : ℕ} (h : ValueFits E stop v n) (hv : start ≤ v) (hn : 0 < n) (hlt : n < 2 ^ 32) {e : DtbOp}
    (he : e ∈ ops E (dtbCallback v n)) : e.Inside start stop := by
  obtain ⟨l, -, j, hj, hag, rfl | rfl⟩ := mem_ops_dtbCallback.mp he
  · have hsmall : n < 2 ^ 31 := by
      by_contra hbig
      rw [toInt_toNat_of_ge hbig hlt] at hj
      omega
    rw [toInt_toNat hsmall] at hj
    rcases h hn hsmall with hend | hdiffer
    · exact ⟨by omega, by omega⟩
    · obtain ⟨i, hi, hne⟩ := hdiffer l
      have hji : j ≤ i := by
        by_contra hlt
        exact hne (hag i (by omega))
      exact ⟨by omega, by omega⟩
  · trivial

/-- A value that is compared inside the block fits. -/
lemma valueFits_of_inside {v n : ℕ} (h : 0 < n → ∀ e ∈ ops E (dtbCallback v n), e.Inside start stop) :
    ValueFits E stop v n := by
  intro hn hsmall
  by_cases hend : v + n ≤ stop
  · exact .inl hend
  -- a comparison that agreed up to the end of the block would read on there
  have hread : ∀ l, LookedAt E v l n → ∃ i, v + i < stop ∧ E.mem (v + i) ≠ E.literal l i := by
    intro l hl
    by_contra hno
    have hag : Agree E v l (stop - v) := fun i hi => by
      by_contra hne
      exact hno ⟨i, by omega, hne⟩
    have hout := h hn (.byte (v + (stop - v))) (mem_ops_dtbCallback.mpr
      ⟨l, by rwa [toInt_toNat hsmall], stop - v, by rw [toInt_toNat hsmall]; omega, hag, .inl rfl⟩)
    have := hout.2
    omega
  obtain ⟨i, hi, hne⟩ := hread .ns16550a (fun h => absurd h (by decide))
  exact .inr fun l => hread l fun _ hag => hne (hag i (by omega))

/-! ## The walk -/

variable {fdt size : ℕ}

/-- A block that fits is walked inside. -/
lemma Fits.always {p : ℕ} (h : Fits E stop p) (hstop : stop = blockEnd E.mem fdt size) (hp : start ≤ p) :
    Always E dtbCallback fdt size (DtbOp.Inside start stop) p := by
  intro limit fuel
  induction fuel generalizing p with
  | zero => exact fun e he => absurd he List.not_mem_nil
  | succ fuel ih =>
      intro e he
      cases h with
      | done hend =>
          rw [(fdtLoop_end (by omega)).2, List.mem_singleton] at he
          rw [he]
          trivial
      | unknown hend hplain hnode hprop =>
          rcases mem_ops_loop (by omega) he with rfl | rfl | he | ⟨p', hp', he⟩
          · trivial
          · exact ⟨hp, hend⟩
          · rw [fdtPiece_unknown hplain hnode hprop] at he
            exact absurd he List.not_mem_nil
          · rw [fdtPiece_unknown hplain hnode hprop] at hp'
            exact absurd (Option.some.inj hp') (by simp)
      | plain hend htoken rest =>
          rcases mem_ops_loop (by omega) he with rfl | rfl | he | ⟨p', hp', he⟩
          · trivial
          · exact ⟨hp, hend⟩
          · rw [fdtPiece_plain htoken] at he
            exact absurd he List.not_mem_nil
          · rw [fdtPiece_plain htoken] at hp'
            obtain rfl : p + 4 = p' := Option.some.inj (Option.some.inj hp')
            exact ih rest (by omega) e he
      | @node _ n hend htoken hname rest =>
          rcases mem_ops_loop (by omega) he with rfl | rfl | he | ⟨p', hp', he⟩
          · trivial
          · exact ⟨hp, hend⟩
          · rw [htoken] at he
            exact hname.inside (by omega) he
          · rw [htoken] at hp'
            obtain ⟨n', -, hn', -, heq⟩ := node_of_result hp'
            obtain ⟨-, -, k, j, hscans, -⟩ := hname
            rw [hscans.len.stringLen_eq hn'] at heq
            obtain rfl : p' = alignUp (p + 4 + n + 1) := Option.some.inj heq
            exact ih rest ((by omega : start ≤ p + 4 + n + 1).trans (le_alignUp _)) e he
      | prop hend htoken hvalue rest =>
          rcases mem_ops_loop (by omega) he with rfl | rfl | he | ⟨p', hp', he⟩
          · trivial
          · exact ⟨hp, by omega⟩
          · rw [htoken, ops_prop returns_dtbCallback] at he
            rcases List.mem_cons.mp he with rfl | he
            · exact ⟨by omega, by omega⟩
            · split_ifs at he with hpos
              · exact hvalue.inside (by omega) hpos (readBE_lt _ _) he
              · exact absurd he List.not_mem_nil
          · rw [htoken, result_prop returns_dtbCallback] at hp'
            obtain rfl : alignUp (p + 4 + 8 + readBE E.mem (p + 4)) = p' := Option.some.inj (Option.some.inj hp')
            exact ih rest ((by omega : start ≤ p + 12 + readBE E.mem (p + 4)).trans (le_alignUp _)) e he

/-- A block that is walked inside fits. -/
lemma fits_of_always {p : ℕ} (hstop : stop = blockEnd E.mem fdt size) (hp : start ≤ p)
    (h : Always E dtbCallback fdt size (DtbOp.Inside start stop) p) : Fits E stop p := by
  induction hk : stop - p using Nat.strong_induction_on generalizing p with
  | _ k ih =>
      by_cases hlt : stop ≤ p
      · exact .done hlt
      have hlt' : p < blockEnd E.mem fdt size := by omega
      have hend := (h.token hlt').2
      have hpiece := h.piece hlt'
      by_cases hnode : readBE E.mem p = fdtBeginNode
      · rw [hnode] at hpiece
        obtain ⟨n, k', j, hscans, hn, hj, hsmall⟩ := node_scans hpiece fun a ha => ha.2
        obtain ⟨hn', hj'⟩ := hsmall id
        have hle := le_alignUp (p + 4 + n + 1)
        have hresult : result E (fdtPiece (n + k' + j + 1) dtbCallback fdtBeginNode (p + 4)) = _ :=
          hscans.result (Nat.lt_succ_self _)
        exact .node hend hnode ⟨hn', hn, k', j, hscans, hj', hj⟩
          (ih _ (by omega) (by omega) (h.next hlt' (hnode.symm ▸ hresult)) rfl)
      by_cases hprop : readBE E.mem p = fdtProp
      · have hword : DtbOp.Inside start stop (.word (p + 4)) :=
          hpiece 0 _ (by rw [hprop, ops_prop returns_dtbCallback]; exact List.mem_cons_self)
        have hvalue : ValueFits E stop (p + 12) (readBE E.mem (p + 4)) := valueFits_of_inside fun hpos e he =>
          hpiece 0 e (by
            rw [hprop, ops_prop returns_dtbCallback, if_pos hpos]
            exact List.mem_cons_of_mem _ he)
        have hle := le_alignUp (p + 12 + readBE E.mem (p + 4))
        have hresult : result E (fdtPiece 0 dtbCallback fdtProp (p + 4)) = _ := result_prop returns_dtbCallback
        exact .prop hword.2 hprop hvalue
          (ih _ (by omega) (by omega) (h.next hlt' (hprop.symm ▸ hresult)) rfl)
      by_cases hplain : readBE E.mem p ∈ plainTokens
      · have hresult : result E (fdtPiece 0 dtbCallback (readBE E.mem p) (p + 4)) = some (some (p + 4)) := by
          rw [fdtPiece_plain hplain, result_pure]
        exact .plain hend hplain (ih _ (by omega) (by omega) (h.next hlt' hresult) rfl)
      · exact .unknown hend hplain hnode hprop

end

/-! ## `fdt_traverse` -/

/-- **`fdt_traverse` stays inside the structure block**, on a blob with the right magic number, exactly if the
pieces it comes by fit in the block. -/
theorem fdt_traverse_inside (E : DtbEnv) (fdt : ℕ) (hmagic : readBE E.mem fdt = fdtMagic) :
    (∀ limit, ∀ e ∈ ops E (fdtTraverse limit dtbCallback fdt),
      e.Inside (fdt + readBE E.mem (fdt + 8)) (fdt + readBE E.mem (fdt + 8) + readBE E.mem (fdt + 36))) ↔
    Fits E (fdt + readBE E.mem (fdt + 8) + readBE E.mem (fdt + 36)) (fdt + readBE E.mem (fdt + 8)) := by
  have hops : ∀ limit, ops E (fdtTraverse limit dtbCallback fdt) = .header fdt :: .header (fdt + 36) ::
      .header (fdt + 8) :: ops E (fdtLoop limit dtbCallback fdt (readBE E.mem (fdt + 36)) limit
        (fdt + readBE E.mem (fdt + 8))) := by
    intro limit
    rw [fdtTraverse, ops_header, if_neg (not_not.mpr hmagic), ops_header, ops_header]
  constructor
  · intro h
    refine fits_of_always rfl le_rfl fun limit fuel e he => h (max limit fuel) e ?_
    rw [hops]
    have hext := (ops_extends (E := E) (fdtLoop_extends (le_max_left limit fuel) (fdt + readBE E.mem (fdt + 8))
      (le_max_right limit fuel))).subset he
    simp [hext]
  · intro h limit e he
    rw [hops, List.mem_cons, List.mem_cons, List.mem_cons] at he
    rcases he with rfl | rfl | rfl | he
    · trivial
    · trivial
    · trivial
    · exact h.always rfl le_rfl limit limit e he

/-- A header with `off_dt_struct` 40 and the given `size_dt_struct`, and a block after it. -/
def blobEnv (size : UInt8) (block : List UInt8) : DtbEnv where
  mem x := ([0xd0, 0x0d, 0xfe, 0xed, 0, 0, 0, 0, 0, 0, 0, 40] ++ List.replicate 27 0 ++ [size] ++ block).getD x 0
  after _ _ := 0
  result _ _ := 0

/-- A block of four bytes that is the beginning of a node: the name is looked for behind it. -/
theorem fdt_traverse_leaves_block : readBE (blobEnv 4 [0, 0, 0, 1]).mem 0 = fdtMagic ∧
    readBE (blobEnv 4 [0, 0, 0, 1]).mem 8 = 40 ∧ readBE (blobEnv 4 [0, 0, 0, 1]).mem 36 = 4 ∧
    ∃ limit, ∃ e ∈ ops (blobEnv 4 [0, 0, 0, 1]) (fdtTraverse limit dtbCallback 0), ¬ e.Inside 40 (40 + 4) :=
  ⟨by decide +kernel, by decide +kernel, by decide +kernel, 1, .byte 44, by decide +kernel,
    fun h => absurd h.2 (by norm_num)⟩

/-- One node with the name `@1`, and the end. -/
def nodeEnv : DtbEnv := blobEnv 16 [0, 0, 0, 1, 64, 49, 0, 0, 0, 0, 0, 2, 0, 0, 0, 9]

lemma nodeEnv_fits : Fits nodeEnv 56 40 := by
  have hend : Fits nodeEnv 56 48 :=
    .plain (by norm_num) (by decide +kernel) (.plain (by norm_num) (by decide +kernel) (.done le_rfl))
  have hscans : NameScans nodeEnv.mem 44 2 0 1 :=
    ⟨⟨by decide, by decide⟩, ⟨by decide, by decide⟩, ⟨by decide, by decide⟩⟩
  have hname : NameFits nodeEnv.mem 56 44 2 := ⟨by norm_num, by norm_num, 0, 1, hscans, by norm_num, by norm_num⟩
  exact .node (by norm_num) (by decide +kernel) hname hend

/-- The walk over that node. -/
theorem fdt_traverse_inside_node : Fits nodeEnv 56 40 ∧
    ∀ limit, ∀ e ∈ ops nodeEnv (fdtTraverse limit dtbCallback 0), e.Inside 40 56 := by
  have hoff : readBE nodeEnv.mem (0 + 8) = 40 := by decide +kernel
  have hsize : readBE nodeEnv.mem (0 + 36) = 16 := by decide +kernel
  have h := fdt_traverse_inside nodeEnv 0 (by decide +kernel)
  rw [hoff, hsize] at h
  exact ⟨nodeEnv_fits, h.mpr nodeEnv_fits⟩

end Dtb

end NetStack
