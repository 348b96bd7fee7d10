import NetStack.Dtb.Bounds

/-!
# Progress of the walk

Whatever the blob holds, an iteration of the token loop moves `struct_ptr` on by four at least, and leaves it
aligned: the lengths taken from the blob are only ever added, and the padding is computed after them.
`Progress` says so of the operations of a run, and `fdtLoop_progress` carries it through the loop.  That the
scans of the names end follows from the addresses not wrapping.
-/

namespace NetStack

open ByteMem Concurrent

namespace Dtb

/-- The tokens loaded, one for each iteration of the loop that gets past its test. -/
def tokens (os : List DtbOp) : List ℕ := os.filterMap fun
  | .token a => some a
  | _ => none

/-- From `p` on, up to `stop`: as many tokens as words, each aligned, and calls on values that are not empty, start
aligned and follow on each other. -/
structure Progress (p stop : ℕ) (os : List DtbOp) : Prop where
  count : (tokens os).length ≤ (stop - p + 3) / 4
  aligned : ∀ a ∈ tokens os, a % 4 = 0
  values : ∀ c ∈ calls os, p ≤ c.1 ∧ c.1 % 4 = 0 ∧ 0 < c.2
  ordered : (calls os).Pairwise fun c d => c.1 < d.1 ∧ c.1 + c.2 ≤ d.1

section

variable {E : DtbEnv} {limit q : ℕ} {callback : ℕ → ℕ → Walk ℕ}

lemma tokens_append (os os' : List DtbOp) : tokens (os ++ os') = tokens os ++ tokens os' := List.filterMap_append

lemma tokens_header (a : ℕ) (os : List DtbOp) : tokens (.header a :: os) = tokens os := rfl
lemma tokens_token (a : ℕ) (os : List DtbOp) : tokens (.token a :: os) = a :: tokens os := rfl

lemma tokens_of_isScan {os : List DtbOp} (h : ∀ e ∈ os, IsScan e) : tokens os = [] := by
  refine List.filterMap_eq_nil_iff.mpr fun e he => ?_
  have := h e he
  cases e <;> first | rfl | exact absurd this id

/-! ## One iteration -/

/-- What a piece at `q` does to the record of tokens and calls: it calls back at most once, behind `q`. -/
structure PieceCalls (q : ℕ) (os : List DtbOp) : Prop where
  tokens : tokens os = []
  calls : calls os = [] ∨ ∃ n, 0 < n ∧ calls os = [(q + 8, n)]

lemma fdtPiece_calls (token : ℕ) : PieceCalls q (ops E (fdtPiece limit anyCallback token q)) := by
  by_cases hnode : token = fdtBeginNode
  · subst hnode
    exact ⟨tokens_of_isScan fun _ he => isScan_node he, .inl calls_node⟩
  by_cases hprop : token = fdtProp
  · subst hprop
    rw [ops_prop returns_anyCallback]
    split_ifs with hpos
    · exact ⟨rfl, .inr ⟨_, hpos, rfl⟩⟩
    · exact ⟨rfl, .inl rfl⟩
  by_cases hplain : token ∈ plainTokens
  · rw [fdtPiece_plain hplain]
    exact ⟨rfl, .inl rfl⟩
  · rw [fdtPiece_unknown hplain hnode hprop]
    exact ⟨rfl, .inl rfl⟩

/-- **A piece that is passed moves on**, keeps the alignment, and ends behind the value it called back on. -/
lemma fdtPiece_advance {token p' : ℕ} (h : result E (fdtPiece limit anyCallback token q) = some (some p'))
    (hq : q % 4 = 0) : q ≤ p' ∧ p' % 4 = 0 ∧
      ∀ c ∈ calls (ops E (fdtPiece limit anyCallback token q)), c.1 + c.2 ≤ p' := by
  by_cases hnode : token = fdtBeginNode
  · subst hnode
    obtain ⟨n, addr, -, -, ho⟩ := node_of_result h
    obtain rfl : p' = alignUp (q + n + 1) := Option.some.inj ho
    refine ⟨(by omega : q ≤ q + n + 1).trans (le_alignUp _), alignUp_mod _, fun c hc => ?_⟩
    rw [calls_node] at hc
    exact absurd hc List.not_mem_nil
  by_cases hprop : token = fdtProp
  · subst hprop
    rw [result_prop returns_anyCallback] at h
    obtain rfl : alignUp (q + 8 + readBE E.mem q) = p' := Option.some.inj (Option.some.inj h)
    have hle := le_alignUp (q + 8 + readBE E.mem q)
    refine ⟨by omega, alignUp_mod _, fun c hc => ?_⟩
    rw [ops_prop returns_anyCallback] at hc
    split_ifs at hc with hpos
    · obtain rfl : c = (q + 8, readBE E.mem q) := List.mem_singleton.mp hc
      exact hle
    · exact absurd hc List.not_mem_nil
  by_cases hplain : token ∈ plainTokens
  · rw [fdtPiece_plain hplain] at h
    obtain rfl : q = p' := Option.some.inj (Option.some.inj h)
    refine ⟨le_rfl, hq, fun c hc => ?_⟩
    rw [fdtPiece_plain hplain] at hc
    exact absurd hc List.not_mem_nil
  · rw [fdtPiece_unknown hplain hnode hprop] at h
    exact absurd (Option.some.inj h) (by simp)

/-! ## The loop -/

variable {fdt size : ℕ}

/-- The values of one piece lie behind its token. -/
lemma PieceCalls.values {p : ℕ} {os : List DtbOp} (h : PieceCalls (p + 4) os) (hp : p % 4 = 0) :
    ∀ c ∈ NetStack.Dtb.calls os, p ≤ c.1 ∧ c.1 % 4 = 0 ∧ 0 < c.2 := by
  intro c hc
  rcases h.calls with hnil | ⟨n, hn, hone⟩
  · rw [hnil] at hc
    exact absurd hc List.not_mem_nil
  · rw [hone] at hc
    obtain rfl : c = (p + 4 + 8, n) := List.mem_singleton.mp hc
    exact ⟨by omega, by omega, hn⟩

lemma PieceCalls.ordered {os : List DtbOp} (h : PieceCalls q os) :
    (NetStack.Dtb.calls os).Pairwise fun c d => c.1 < d.1 ∧ c.1 + c.2 ≤ d.1 := by
  rcases h.calls with hnil | ⟨n, -, hone⟩
  · rw [hnil]
    exact .nil
  · rw [hone]
    exact List.pairwise_singleton _ _

/-- **The token loop makes progress.** -/
lemma fdtLoop_progress : ∀ fuel p, p % 4 = 0 →
    Progress p (blockEnd E.mem fdt size) (ops E (fdtLoop limit anyCallback fdt size fuel p))
  | 0, _, _ => ⟨Nat.zero_le _, fun _ h => absurd h List.not_mem_nil, fun _ h => absurd h List.not_mem_nil, .nil⟩
  | fuel + 1, p, hp => by
      by_cases hlt : p < blockEnd E.mem fdt size
      · have hpiece : PieceCalls (p + 4) (ops E (fdtPiece limit anyCallback (readBE E.mem p) (p + 4))) :=
          fdtPiece_calls _
        by_cases hnext : ∃ p', result E (fdtPiece limit anyCallback (readBE E.mem p) (p + 4)) = some (some p')
        · obtain ⟨p', hp'⟩ := hnext
          obtain ⟨hle, hmod, hend⟩ := fdtPiece_advance hp' (by omega)
          -- the rest of the loop starts behind the piece
          have ih := fdtLoop_progress fuel p' hmod
          rw [(fdtLoop_next hlt hp').2]
          refine ⟨?_, ?_, ?_, ?_⟩
          · have hcount := ih.count
            rw [tokens_header, tokens_token, tokens_append, hpiece.tokens, List.nil_append, List.length_cons]
            omega
          · intro a ha
            rw [tokens_header, tokens_token, tokens_append, hpiece.tokens, List.nil_append, List.mem_cons] at ha
            rcases ha with rfl | ha
            · exact hp
            · exact ih.aligned a ha
          · intro c hc
            rw [calls_header, calls_token, calls_append, List.mem_append] at hc
            rcases hc with hc | hc
            · exact hpiece.values hp c hc
            · obtain ⟨hfrom, hrest⟩ := ih.values c hc
              exact ⟨by omega, hrest⟩
          · rw [calls_header, calls_token, calls_append, List.pairwise_append]
            refine ⟨hpiece.ordered, ih.ordered, fun c hc d hd => ?_⟩
            have hcd := (hend c hc).trans (ih.values d hd).1
            have hpos := (hpiece.values hp c hc).2.2
            exact ⟨by omega, hcd⟩
        · rw [(fdtLoop_leave hlt (not_exists.mp hnext)).2]
          refine ⟨?_, ?_, ?_, ?_⟩
          · rw [tokens_header, tokens_token, hpiece.tokens, List.length_singleton]
            omega
          · intro a ha
            rw [tokens_header, tokens_token, hpiece.tokens, List.mem_singleton] at ha
            rw [ha]
            exact hp
          · exact hpiece.values hp
          · exact hpiece.ordered
      · rw [(fdtLoop_end hlt).2]
        exact ⟨Nat.zero_le _, fun _ h => absurd h List.not_mem_nil, fun _ h => absurd h List.not_mem_nil, .nil⟩

/-- Characters are read below `B`. -/
def DtbOp.Below (B : ℕ) : DtbOp → Prop
  | .byte a => a < B
  | _ => True

instance (B : ℕ) : DecidablePred (DtbOp.Below B) := fun e => match e with
  | .byte a => inferInstanceAs (Decidable (a < B))
  | .header _ | .token _ | .word _ | .literal _ _ | .overflow | .call _ _ => isTrue trivial

/-- **The token loop ends**, if the scans of the names stay below some address. -/
lemma fdtLoop_ends {B p : ℕ} (h : Always E anyCallback fdt size (DtbOp.Below B) p) (hp : p % 4 = 0) :
    ∃ limit fuel exit, result E (fdtLoop limit anyCallback fdt size fuel p) = some exit := by
  induction hk : blockEnd E.mem fdt size - p using Nat.strong_induction_on generalizing p with
  | _ k ih =>
      by_cases hlt : p < blockEnd E.mem fdt size
      swap
      · exact ⟨0, 1, _, (fdtLoop_end hlt).1⟩
      -- with a limit large enough, the piece is passed or the token is unknown
      have hpiece : ∃ limit o, result E (fdtPiece limit anyCallback (readBE E.mem p) (p + 4)) = some o := by
        by_cases hnode : readBE E.mem p = fdtBeginNode
        · have hscan := h.piece hlt
          rw [hnode] at hscan
          obtain ⟨n, k', j, hscans, -⟩ := node_scans hscan fun a ha => ha
          rw [hnode]
          exact ⟨n + k' + j + 1, _, hscans.result (Nat.lt_succ_self _)⟩
        by_cases hprop : readBE E.mem p = fdtProp
        · rw [hprop]
          exact ⟨0, _, result_prop returns_anyCallback⟩
        by_cases hplain : readBE E.mem p ∈ plainTokens
        · exact ⟨0, _, by rw [fdtPiece_plain hplain, result_pure]⟩
        · exact ⟨0, _, by rw [fdtPiece_unknown hplain hnode hprop, result_pure]⟩
      obtain ⟨limit, o, ho⟩ := hpiece
      cases o with
      | none =>
          refine ⟨limit, 1, .badToken (p + 4), ?_⟩
          rw [(fdtLoop_leave hlt (by simp [ho])).1, ho]
          rfl
      | some p' =>
          obtain ⟨hle, hmod, -⟩ := fdtPiece_advance ho (by omega)
          obtain ⟨limit', fuel, exit, hexit⟩ := ih _ (by omega) (h.next hlt ho) hmod rfl
          refine ⟨max limit limit', fuel + 1, exit, ?_⟩
          rw [(fdtLoop_next hlt (result_extends (fdtPiece_extends _ _ (le_max_left limit limit')) ho)).1]
          exact result_extends (fdtLoop_extends (le_max_right limit limit') p' le_rfl) hexit

end

/-! ## `fdt_traverse` -/

/-- **`fdt_traverse` makes progress on any input.**  On a block that starts aligned, and if no scan of a name runs
past the end of the address space, it returns; it loads at most one token for every four bytes of the block, each
from an aligned address, and calls back on values that are not empty, start aligned, and follow on each other.
The names may be of any length. -/
theorem fdt_traverse_progress (E : DtbEnv) (fdt : ℕ) (halign : (fdt + readBE E.mem (fdt + 8)) % 4 = 0)
    (hwrap : ∀ limit a, .byte a ∈ ops E (fdtTraverse limit anyCallback fdt) → a < 2 ^ 64) :
    (∃ limit exit, result E (fdtTraverse limit anyCallback fdt) = some exit) ∧
      ∀ limit, (tokens (ops E (fdtTraverse limit anyCallback fdt))).length ≤ (readBE E.mem (fdt + 36) + 3) / 4 ∧
        (∀ a ∈ tokens (ops E (fdtTraverse limit anyCallback fdt)), a % 4 = 0) ∧
        (∀ c ∈ calls (ops E (fdtTraverse limit anyCallback fdt)), c.1 % 4 = 0 ∧ 0 < c.2) ∧
        (calls (ops E (fdtTraverse limit anyCallback fdt))).Pairwise fun c d => c.1 < d.1 ∧ c.1 + c.2 ≤ d.1 := by
  by_cases hmagic : readBE E.mem fdt = fdtMagic
  swap
  · have hrun : ∀ limit, result E (fdtTraverse limit anyCallback fdt) = some .badMagic ∧
        ops E (fdtTraverse limit anyCallback fdt) = [.header fdt] := fun limit => by
      rw [fdtTraverse, result_header, ops_header, if_pos hmagic]
      exact ⟨rfl, rfl⟩
    refine ⟨⟨0, _, (hrun 0).1⟩, fun limit => ?_⟩
    rw [(hrun limit).2]
    exact ⟨Nat.zero_le _, fun _ h => absurd h List.not_mem_nil, fun _ h => absurd h List.not_mem_nil, .nil⟩
  have hrun : ∀ limit, result E (fdtTraverse limit anyCallback fdt) = result E (fdtLoop limit anyCallback fdt
        (readBE E.mem (fdt + 36)) limit (fdt + readBE E.mem (fdt + 8))) ∧
      ops E (fdtTraverse limit anyCallback fdt) = .header fdt :: .header (fdt + 36) :: .header (fdt + 8) ::
        ops E (fdtLoop limit anyCallback fdt (readBE E.mem (fdt + 36)) limit (fdt + readBE E.mem (fdt + 8))) := by
    intro limit
    rw [fdtTraverse, result_header, ops_header, if_neg (not_not.mpr hmagic), result_header, ops_header,
      result_header, ops_header]
    exact ⟨rfl, rfl⟩
  constructor
  · have hbelow : Always E anyCallback fdt (readBE E.mem (fdt + 36)) (DtbOp.Below (2 ^ 64))
        (fdt + readBE E.mem (fdt + 8)) := by
      intro limit fuel e he
      cases e with
      | byte a =>
          have hext := (ops_extends (E := E) (fdtLoop_extends (le_max_left limit fuel)
            (fdt + readBE E.mem (fdt + 8)) (le_max_right limit fuel))).subset he
          exact hwrap (max limit fuel) a (by rw [(hrun _).2]; simp [hext])
      | _ => trivial
    obtain ⟨limit, fuel, exit, hexit⟩ := fdtLoop_ends hbelow halign
    refine ⟨max limit fuel, exit, ?_⟩
    rw [(hrun _).1]
    exact result_extends (fdtLoop_extends (le_max_left limit fuel) _ (le_max_right limit fuel)) hexit
  · intro limit
    have h : Progress _ (blockEnd E.mem fdt (readBE E.mem (fdt + 36)))
        (ops E (fdtLoop limit anyCallback fdt _ limit _)) :=
      fdtLoop_progress limit (fdt + readBE E.mem (fdt + 8)) halign
    rw [(hrun limit).2, tokens_header, tokens_header, tokens_header, calls_header, calls_header, calls_header]
    have hcount := h.count
    rw [Nat.add_sub_cancel_left] at hcount
    exact ⟨hcount, h.aligned, fun c hc => (h.values c hc).2, h.ordered⟩

/-- The walk over one node, which is done within eight rounds of each loop. -/
theorem fdt_traverse_progress_node : (∃ limit exit, result nodeEnv (fdtTraverse limit anyCallback 0) = some exit) ∧
    ∀ limit, (tokens (ops nodeEnv (fdtTraverse limit anyCallback 0))).length ≤ (16 + 3) / 4 := by
  have hrun : result nodeEnv (fdtTraverse 8 anyCallback 0) = some (.finished 56) := by decide +kernel
  have hbelow : ∀ e ∈ ops nodeEnv (fdtTraverse 8 anyCallback 0), DtbOp.Below (2 ^ 64) e := by decide +kernel
  have hsize : readBE nodeEnv.mem (0 + 36) = 16 := by decide +kernel
  have hwrap : ∀ limit a, .byte a ∈ ops nodeEnv (fdtTraverse limit anyCallback 0) → a < 2 ^ 64 := by
    intro limit a ha
    have hmax := (ops_extends (E := nodeEnv) (fdtTraverse_extends 0 (le_max_left limit 8))).subset ha
    rw [ops_eq_of_extends (fdtTraverse_extends 0 (le_max_right limit 8)) hrun] at hmax
    exact hbelow _ hmax
  have h := fdt_traverse_progress nodeEnv 0 (by decide +kernel) hwrap
  rw [hsize] at h
  exact ⟨h.1, fun limit => (h.2 limit).1⟩

end Dtb

end NetStack
