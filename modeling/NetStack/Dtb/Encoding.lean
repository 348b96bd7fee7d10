import NetStack.Dtb.Traverse

/-!
# Walking an encoded device tree

A device tree is encoded piece by piece: the beginning of a node with its name, its properties, its
children, its end.  `FDT_NOP` pieces may stand anywhere between them, and one `FDT_END` closes the block.
`fdtPiece_spec` says that one iteration of the token loop consumes one piece, whatever its length modulo
four; the rest is an induction over the pieces, and `fdt_walk_decodes` reads off the tree.
-/

namespace NetStack

open ByteMem

/-! ## Trees and their encoding -/

/-- A node name: no `NUL`, which ends it, and no newline, at which `string_len` stops too. -/
abbrev NodeName : Type := { l : List UInt8 // ∀ b ∈ l, b ≠ 0 ∧ b ≠ 10 }

/-- A property: the offset of its name in the strings block, and its value. -/
structure FdtProperty where
  nameOff : ℕ
  value : List UInt8
  deriving DecidableEq

/-- A node: its name, its properties, its children. -/
inductive FdtNode
  | mk (name : NodeName) (props : List FdtProperty) (children : List FdtNode)

/-- What the structure block is a sequence of. -/
inductive Piece
  | nop
  | beginNode (name : NodeName)
  | prop (p : FdtProperty)
  | endNode
  | fin
  deriving DecidableEq

/-- A 32-bit word, most significant byte first. -/
def be32 (n : ℕ) : List UInt8 :=
  [UInt8.ofNat (n / 2 ^ 24), UInt8.ofNat (n / 2 ^ 16), UInt8.ofNat (n / 2 ^ 8), UInt8.ofNat n]

/-- Zeroes up to the next multiple of four. -/
def padding (n : ℕ) : List UInt8 := List.replicate ((4 - n % 4) % 4) 0

def Piece.encode : Piece → List UInt8
  | .nop => be32 fdtNop
  | .beginNode name => be32 fdtBeginNode ++ (name.1 ++ [0] ++ padding (name.1.length + 1))
  | .prop p => be32 fdtProp ++ (be32 p.value.length ++ be32 p.nameOff ++
      (p.value ++ padding p.value.length))
  | .endNode => be32 fdtEndNode
  | .fin => be32 fdtEnd

/-- The bytes of a sequence of pieces. -/
def encodePieces (ps : List Piece) : List UInt8 := ps.flatMap Piece.encode

mutual

/-- The pieces of a node, without padding tokens. -/
def FdtNode.pieces : FdtNode → List Piece
  | .mk name props children =>
      .beginNode name :: (props.map Piece.prop ++ (FdtNode.forestPieces children ++ [.endNode]))

def FdtNode.forestPieces : List FdtNode → List Piece
  | [] => []
  | n :: ns => n.pieces ++ FdtNode.forestPieces ns

end

mutual

/-- All properties of a tree, in document order. -/
def FdtNode.properties : FdtNode → List FdtProperty
  | .mk _ props children => props ++ FdtNode.forestProperties children

def FdtNode.forestProperties : List FdtNode → List FdtProperty
  | [] => []
  | n :: ns => n.properties ++ FdtNode.forestProperties ns

end

/-- The blob at `fdt`: the header words that `fdt_traverse` reads, and a structure block that encodes
`tree`, with `FDT_NOP`s wherever `ps` has them. -/
structure Blob (m : Mem) (fdt off : ℕ) (tree : FdtNode) (ps : List Piece) : Prop where
  magic : Holds m fdt (be32 fdtMagic)
  offStruct : Holds m (fdt + 8) (be32 off)
  sizeStruct : Holds m (fdt + 36) (be32 (encodePieces (ps ++ [.fin])).length)
  pieces : ps.filter (· ≠ .nop) = tree.pieces
  block : Holds m (fdt + off) (encodePieces (ps ++ [.fin]))
  aligned : (fdt + off) % 4 = 0
  offLt : off < 2 ^ 32
  sizeLt : (encodePieces (ps ++ [.fin])).length < 2 ^ 31

/-- Where the value of a piece stands if the piece stands at `start`, for a property that has one. -/
def Piece.calls (start : ℕ) : Piece → List (ℕ × List UInt8)
  | .prop p => if p.value = [] then [] else [(start + 12, p.value)]
  | _ => []

/-- The values in a sequence of pieces and where they stand. -/
def callsOf : ℕ → List Piece → List (ℕ × List UInt8)
  | _, [] => []
  | start, p :: ps => p.calls start ++ callsOf (start + p.encode.length) ps

/-! ## Words and strings -/

/-- `BE2LE` reverses the bytes. -/
lemma be2le_bytes {b₀ b₁ b₂ b₃ : ℕ} (h₀ : b₀ < 256) (h₁ : b₁ < 256) (h₂ : b₂ < 256)
    (h₃ : b₃ < 256) :
    be2le (b₀ + 256 * (b₁ + 256 * (b₂ + 256 * b₃))) = 2 ^ 24 * b₀ + (2 ^ 16 * b₁ + (2 ^ 8 * b₂ + b₃)) := by
  have hmask : ∀ x : ℕ, x &&& 0xFF = x % 256 := fun x => Nat.and_two_pow_sub_one_eq_mod x 8
  simp only [be2le, List.foldl_cons, List.foldl_nil, hmask, Nat.shiftRight_eq_div_pow,
    Nat.shiftLeft_eq, Nat.zero_or]
  have e₃ : (b₀ + 256 * (b₁ + 256 * (b₂ + 256 * b₃))) / 2 ^ 24 % 256 = b₃ := by omega
  have e₂ : (b₀ + 256 * (b₁ + 256 * (b₂ + 256 * b₃))) / 2 ^ 16 % 256 = b₂ := by omega
  have e₁ : (b₀ + 256 * (b₁ + 256 * (b₂ + 256 * b₃))) / 2 ^ 8 % 256 = b₁ := by omega
  have e₀ : (b₀ + 256 * (b₁ + 256 * (b₂ + 256 * b₃))) / 2 ^ 0 % 256 = b₀ := by omega
  have hor : ∀ {k a b : ℕ}, b < 2 ^ k → b ||| a * 2 ^ k = 2 ^ k * a + b := by
    intro k a b hb
    rw [Nat.or_comm, Nat.mul_comm, Nat.two_pow_add_eq_or_of_lt hb]
  rw [e₀, e₁, e₂, e₃, show b₃ * 2 ^ (24 - 24) = b₃ by omega, hor (show b₃ < 2 ^ (24 - 16) by omega),
    hor (show _ < 2 ^ (24 - 8) by omega), hor (show _ < 2 ^ (24 - 0) by omega)]

lemma loadLE_four (m : Mem) (a : ℕ) : loadLE m 4 a = (m a).toNat + 256 * ((m (a + 1)).toNat +
    256 * ((m (a + 2)).toNat + 256 * (m (a + 3)).toNat)) := by
  simp [loadLE]

/-- A word of the blob reads as what was encoded. -/
lemma readBE_of_holds {m : Mem} {a n : ℕ} (hn : n < 2 ^ 32) (h : Holds m a (be32 n)) :
    readBE m a = n := by
  rcases h with ⟨h₀, h₁, h₂, h₃, -⟩
  rw [readBE, loadLE_four, be2le_bytes (UInt8.toNat_lt _) (UInt8.toNat_lt _) (UInt8.toNat_lt _)
    (UInt8.toNat_lt _), h₀, h₁, h₂, h₃]
  simp only [UInt8.toNat_ofNat']
  omega

@[simp] lemma length_be32 (n : ℕ) : (be32 n).length = 4 := rfl

@[simp] lemma length_padding (n : ℕ) : (padding n).length = (4 - n % 4) % 4 :=
  List.length_replicate

/-- `string_len` stops at the `NUL`. -/
lemma stringLen_spec {m : Mem} {str : ℕ} : ∀ {l : List UInt8} {fuel i : ℕ},
    (∀ b ∈ l, b ≠ 0 ∧ b ≠ 10) → Holds m (str + i) (l ++ [0]) → l.length < fuel →
      stringLen m str fuel i = some (i + l.length)
  | _, 0, _, _, _, hf => absurd hf (Nat.not_lt_zero _)
  | [], fuel + 1, i, _, h, _ => by
      rw [stringLen, if_pos (.inl h.1)]
      rfl
  | b :: l, fuel + 1, i, hb, ⟨hhead, htail⟩, hf => by
      rcases hb b List.mem_cons_self with ⟨hne, hnl⟩
      rw [stringLen, hhead, if_neg (by simp [hne, hnl])]
      rw [Nat.add_assoc] at htail
      rw [stringLen_spec (fun c hc => hb c (List.mem_cons_of_mem b hc)) htail
        (by simpa using hf), List.length_cons]
      congr 1
      omega

/-- The scan for `@` stops inside the name or at its `NUL`; either way a string follows. -/
lemma skipToAt_spec {m : Mem} : ∀ {l : List UInt8} {fuel p : ℕ}, (∀ b ∈ l, b ≠ 0) →
    Holds m p (l ++ [0]) → m (p + l.length + 1) = 0 → l.length < fuel →
      ∃ q l', skipToAt m fuel p = some q ∧ Holds m (q + 1) (l' ++ [0]) ∧ l'.length ≤ l.length
  | _, 0, _, _, _, _, hf => absurd hf (Nat.not_lt_zero _)
  | [], fuel + 1, p, _, h, hnext, _ => by
      refine ⟨p, [], ?_, ⟨hnext, trivial⟩, le_rfl⟩
      rw [skipToAt, if_neg (by simp [h.1])]
  | b :: l, fuel + 1, p, hb, ⟨hhead, htail⟩, hnext, hf => by
      by_cases hat : b = 64
      · refine ⟨p, l, ?_, htail, by simp⟩
        rw [skipToAt, hhead, if_neg (by simp [hat])]
      · rw [List.length_cons, show p + (l.length + 1) + 1 = p + 1 + l.length + 1 by omega] at hnext
        rcases skipToAt_spec (fun c hc => hb c (List.mem_cons_of_mem b hc)) htail hnext
          (by simpa using hf) with ⟨q, l', hq, hl, hlen⟩
        refine ⟨q, l', ?_, hl, hlen.trans (by simp)⟩
        rw [skipToAt, hhead, if_pos ⟨hat, hb b List.mem_cons_self⟩, hq]

/-- The loop over the digits ends at the `NUL` at the latest. -/
lemma hexDigits_returns {m : Mem} {p : ℕ} : ∀ {l : List UInt8} {fuel i : ℕ} (addr : ℕ),
    Holds m (p + i) (l ++ [0]) → l.length < fuel → ∃ res, hexDigits m p fuel i addr = some res
  | _, 0, _, _, _, hf => absurd hf (Nat.not_lt_zero _)
  | [], fuel + 1, i, addr, h, _ => by
      refine ⟨addr, ?_⟩
      rw [hexDigits, h.1]
      rfl
  | b :: l, fuel + 1, i, addr, ⟨_, htail⟩, hf => by
      rw [Nat.add_assoc] at htail
      have ih := fun addr => hexDigits_returns addr htail (by simpa using hf)
      rw [hexDigits]
      simp only
      split_ifs
      · exact ⟨_, rfl⟩
      · exact ih _
      · exact ih _
      · exact ih _
      · exact ⟨_, rfl⟩

lemma parseDtbUnitName_returns {m : Mem} {limit p : ℕ} {l : List UInt8} (hl : ∀ b ∈ l, b ≠ 0)
    (h : Holds m p (l ++ [0])) (hnext : m (p + l.length + 1) = 0) (hlimit : l.length < limit) :
    ∃ res, parseDtbUnitName limit m p = some res := by
  rcases skipToAt_spec hl h hnext hlimit with ⟨q, l', hq, hl', hlen⟩
  rcases hexDigits_returns (i := 0) 0 hl' (hlen.trans_lt hlimit) with ⟨res, hres⟩
  exact ⟨res, by simp [parseDtbUnitName, hq, hres]⟩

/-! ## One piece -/

section

variable {σ : Type} {limit : ℕ} {m : Mem} {callback : ℕ → ℕ → σ → σ}

/-- The callback, called for each of the values in turn. -/
def runCalls (callback : ℕ → ℕ → σ → σ) (cs : List (ℕ × List UInt8)) (s : σ) : σ :=
  cs.foldl (fun s c => callback c.1 c.2.length s) s

lemma length_encode_mod (x : Piece) : x.encode.length % 4 = 0 := by
  cases x with
  | nop => rfl
  | beginNode name =>
      simp only [Piece.encode, List.length_append, length_be32, length_padding, List.length_singleton]
      omega
  | prop p =>
      simp only [Piece.encode, List.length_append, length_be32, length_padding]
      omega
  | endNode => rfl
  | fin => rfl

lemma alignMemOffset_eq {a n : ℕ} (ha : a % 4 = 0) :
    alignMemOffset (a + n) 4 = (4 - n % 4) % 4 := by
  unfold alignMemOffset
  omega

/-- **One iteration of the token loop consumes one piece.** -/
lemma fdtPiece_spec {x : Piece} {start : ℕ} (s : σ) (hal : start % 4 = 0)
    (h : Holds m start x.encode) (hnext : m (start + x.encode.length) = 0)
    (hlim : x.encode.length < limit) (hlt : x.encode.length < 2 ^ 32) :
    fdtPiece limit m callback (readBE m start) (start + 4) s
      = some (some (start + x.encode.length, runCalls callback (x.calls start) s)) := by
  cases x with
  | nop =>
      rw [readBE_of_holds (by decide) h, fdtPiece, if_pos rfl]
      rfl
  | endNode =>
      rw [readBE_of_holds (by decide) h]
      rfl
  | fin =>
      rw [readBE_of_holds (by decide) h]
      rfl
  | beginNode name =>
      rcases holds_append.mp h with ⟨htoken, hrest⟩
      rcases holds_append.mp hrest with ⟨hname, hpad⟩
      simp only [Piece.encode, List.length_append, length_be32, length_padding,
        List.length_singleton] at hlim hlt hnext hpad hname ⊢
      have hlen := stringLen_spec (i := 0) name.2 hname (show name.1.length < limit by omega)
      -- after the name comes a zero: padding, or the first byte of the next token
      have hzero : m (start + 4 + name.1.length + 1) = 0 := by
        rcases Nat.eq_zero_or_pos ((4 - (name.1.length + 1) % 4) % 4) with h0 | hpos
        · rw [h0, show start + (4 + (name.1.length + 1 + 0)) = start + 4 + name.1.length + 1 by omega]
            at hnext
          exact hnext
        · rw [padding, show (4 - (name.1.length + 1) % 4) % 4
            = ((4 - (name.1.length + 1) % 4) % 4 - 1) + 1 by omega, List.replicate_succ] at hpad
          exact hpad.1
      rcases parseDtbUnitName_returns (fun b hb => (name.2 b hb).1) hname hzero
        (show name.1.length < limit by omega) with ⟨addr, haddr⟩
      rw [readBE_of_holds (by decide) htoken, fdtPiece, if_neg (by decide), if_pos rfl, hlen, haddr]
      simp only [Option.bind_eq_bind, Option.bind_some, Nat.zero_add]
      rw [show start + 4 + name.1.length + 1 = start + 4 + (name.1.length + 1) by omega,
        alignMemOffset_eq (by omega)]
      simp only [runCalls, Piece.calls, List.foldl_nil, Option.some.injEq, Prod.mk.injEq, and_true]
      omega
  | prop p =>
      rcases holds_append.mp h with ⟨htoken, hrest⟩
      rcases holds_append.mp hrest with ⟨hwords, hvalue⟩
      simp only [Piece.encode, List.length_append, length_be32, length_padding] at hlt ⊢
      have hpropLen := readBE_of_holds (show p.value.length < 2 ^ 32 by omega)
        (holds_append.mp hwords).1
      rw [length_be32] at hpropLen
      rw [readBE_of_holds (by decide) htoken, fdtPiece, if_neg (by decide), if_neg (by decide),
        if_pos rfl, hpropLen]
      simp only
      split_ifs with hpos
      · have hne : p.value ≠ [] := List.length_pos_iff.mp hpos
        rw [show start + 4 + 8 + p.value.length = start + 12 + p.value.length by omega,
          alignMemOffset_eq (by omega)]
        simp only [runCalls, Piece.calls, if_neg hne, List.foldl_cons, List.foldl_nil,
          Option.some.injEq, Prod.mk.injEq, and_true]
        omega
      · have hnil : p.value = [] := List.length_eq_zero_iff.mp (by omega)
        rw [show start + 4 + 8 = start + 12 + 0 by omega, alignMemOffset_eq (by omega)]
        simp [runCalls, Piece.calls, hnil]

/-! ## The whole block -/

/-- A token is small, so its first byte is zero. -/
lemma encodePieces_head {a : ℕ} {ps : List Piece} (hne : ps ≠ [])
    (h : Holds m a (encodePieces ps)) : m a = 0 := by
  rcases ps with _ | ⟨x, ps⟩
  · exact absurd rfl hne
  · rw [encodePieces, List.flatMap_cons, holds_append] at h
    cases x <;> exact h.1.1

lemma encodePieces_cons (x : Piece) (ps : List Piece) :
    encodePieces (x :: ps) = x.encode ++ encodePieces ps := rfl

/-- **The token loop consumes the block**, piece by piece. -/
lemma fdtLoop_spec : ∀ {ps : List Piece} {start fuel : ℕ} (s : σ), start % 4 = 0 →
    Holds m start (encodePieces (ps ++ [.fin])) → (encodePieces (ps ++ [.fin])).length < limit →
    (encodePieces (ps ++ [.fin])).length < 2 ^ 32 → ps.length + 1 < fuel →
      fdtLoop limit m callback (start + (encodePieces (ps ++ [.fin])).length) fuel start s
        = some (.finished (start + (encodePieces (ps ++ [.fin])).length),
            runCalls callback (callsOf start ps) s)
  | _, _, 0, _, _, _, _, _, hf => absurd hf (Nat.not_lt_zero _)
  | [], start, 1, _, _, _, _, _, hf => by simp at hf
  | [], start, fuel + 2, s, hal, h, hlim, hlt, _ => by
      have htoken : readBE m start = fdtEnd := readBE_of_holds (by decide) h
      rw [show (encodePieces ([] ++ [.fin])).length = 4 from rfl]
      rw [fdtLoop, if_pos (show start < start + 4 by omega), htoken]
      rw [show fdtPiece limit m callback fdtEnd (start + 4) s = some (some (start + 4, s)) from rfl]
      simp only [Option.bind_eq_bind, Option.bind_some]
      rw [fdtLoop, if_neg (show ¬ start + 4 < start + 4 by omega)]
      rfl
  | x :: ps, start, fuel + 1, s, hal, h, hlim, hlt, hf => by
      rw [List.cons_append, encodePieces_cons] at h hlim hlt ⊢
      rcases holds_append.mp h with ⟨hx, hrest⟩
      rw [List.length_append] at hlim hlt ⊢
      have hpos : 0 < x.encode.length := by
        cases x <;> simp [Piece.encode]
      have hnext := encodePieces_head (by simp) hrest
      have hmod := length_encode_mod x
      rw [fdtLoop, if_pos (by omega), fdtPiece_spec s hal hx hnext (by omega) (by omega)]
      simp only [Option.bind_eq_bind, Option.bind_some]
      rw [← Nat.add_assoc, fdtLoop_spec _ (by omega) hrest (by omega) (by omega)
        (by simpa using hf)]
      rw [callsOf, runCalls, runCalls, runCalls, List.foldl_append]

end

/-- The values that are called back on. -/
def Piece.values : Piece → List (List UInt8)
  | .prop p => if p.value = [] then [] else [p.value]
  | _ => []

lemma callsOf_values : ∀ (start : ℕ) (ps : List Piece),
    (callsOf start ps).map (·.2) = ps.flatMap Piece.values
  | _, [] => rfl
  | start, x :: ps => by
      rw [callsOf, List.map_append, callsOf_values, List.flatMap_cons]
      congr 1
      cases x with
      | prop p =>
          simp only [Piece.calls, Piece.values]
          split_ifs <;> rfl
      | nop => rfl
      | beginNode name => rfl
      | endNode => rfl
      | fin => rfl

/-- Padding tokens carry nothing. -/
lemma values_filter : ∀ ps : List Piece,
    (ps.filter (· ≠ .nop)).flatMap Piece.values = ps.flatMap Piece.values
  | [] => rfl
  | x :: ps => by
      by_cases hx : x = .nop
      · subst hx
        rw [List.filter_cons_of_neg (by simp), values_filter ps]
        rfl
      · rw [List.filter_cons_of_pos (by simpa using hx), List.flatMap_cons, List.flatMap_cons,
          values_filter ps]

/-- The non-empty values of a list of properties. -/
def valuesOf (props : List FdtProperty) : List (List UInt8) :=
  (props.map FdtProperty.value).filter (· ≠ [])

lemma valuesOf_append (l l' : List FdtProperty) : valuesOf (l ++ l') = valuesOf l ++ valuesOf l' := by
  simp [valuesOf]

lemma props_values : ∀ props : List FdtProperty,
    (props.map Piece.prop).flatMap Piece.values = valuesOf props
  | [] => rfl
  | p :: props => by
      rw [List.map_cons, List.flatMap_cons, props_values props]
      by_cases hp : p.value = [] <;> simp [Piece.values, valuesOf, hp]

mutual

/-- The pieces of a tree carry the values of its properties, in document order. -/
lemma pieces_values : ∀ t : FdtNode, t.pieces.flatMap Piece.values = valuesOf t.properties
  | .mk name props children => by
      rw [FdtNode.pieces, FdtNode.properties, valuesOf_append, List.flatMap_cons,
        List.flatMap_append, List.flatMap_append, props_values, forestPieces_values children]
      simp [Piece.values]

lemma forestPieces_values : ∀ ts : List FdtNode,
    (FdtNode.forestPieces ts).flatMap Piece.values = valuesOf (FdtNode.forestProperties ts)
  | [] => by rw [FdtNode.forestPieces, FdtNode.forestProperties]; rfl
  | t :: ts => by
      rw [FdtNode.forestPieces, FdtNode.forestProperties, valuesOf_append, List.flatMap_append,
        pieces_values t, forestPieces_values ts]

end

/-- A pointer that is called back with points to a value, inside the block. -/
lemma callsOf_holds {m : Mem} : ∀ {ps : List Piece} {start : ℕ}, Holds m start (encodePieces ps) →
    ∀ c ∈ callsOf start ps,
      Holds m c.1 c.2 ∧ start ≤ c.1 ∧ c.1 + c.2.length ≤ start + (encodePieces ps).length
  | [], _, _, c, hc => absurd hc List.not_mem_nil
  | x :: ps, start, h, c, hc => by
      rw [encodePieces_cons, holds_append] at h
      rw [encodePieces_cons, List.length_append]
      rw [callsOf] at hc
      rcases List.mem_append.mp hc with hx | hrest
      · cases x with
        | prop p =>
            simp only [Piece.calls] at hx
            split_ifs at hx
            · exact absurd hx List.not_mem_nil
            · rw [List.mem_singleton.mp hx]
              have hvalue := (holds_append.mp (holds_append.mp (holds_append.mp h.1).2).2).1
              simp only [Piece.encode, List.length_append, length_be32] at hvalue ⊢
              exact ⟨hvalue, by omega, by omega⟩
        | nop => exact absurd hx List.not_mem_nil
        | beginNode name => exact absurd hx List.not_mem_nil
        | endNode => exact absurd hx List.not_mem_nil
        | fin => exact absurd hx List.not_mem_nil
      · rcases callsOf_holds h.2 c hrest with ⟨hvalue, hlo, hhi⟩
        exact ⟨hvalue, by omega, by omega⟩

lemma length_le_encodePieces : ∀ ps : List Piece, 4 * ps.length ≤ (encodePieces ps).length
  | [] => le_rfl
  | x :: ps => by
      have ih := length_le_encodePieces ps
      have hx : 4 ≤ x.encode.length := by
        cases x <;> simp [Piece.encode]
      rw [encodePieces_cons, List.length_append, List.length_cons]
      omega

lemma callsOf_append (ps : List Piece) : ∀ start, callsOf start (ps ++ [.fin]) = callsOf start ps := by
  induction ps with
  | nil => intro start; rfl
  | cons x ps ih => intro start; rw [List.cons_append, callsOf, callsOf, ih]

/-- **The walk undoes the encoding.**  On any blob that encodes `tree`, for every callback and with any
bound above the size of the block, `fdt_traverse` calls back exactly on the non-empty property values of
the tree, in document order, each with its place in the block and its length, and stops at the end of
the block. -/
theorem fdt_traverse_decodes {σ : Type} (m : Mem) (fdt off : ℕ) (tree : FdtNode) (ps : List Piece)
    (callback : ℕ → ℕ → σ → σ) (s : σ) (hblob : Blob m fdt off tree ps) :
    (∀ limit > (encodePieces (ps ++ [.fin])).length,
      fdtTraverse limit m callback fdt s
        = some (.finished (fdt + off + (encodePieces (ps ++ [.fin])).length),
            runCalls callback (callsOf (fdt + off) ps) s)) ∧
    (callsOf (fdt + off) ps).map (·.2) = valuesOf tree.properties ∧
    ∀ c ∈ callsOf (fdt + off) ps, Holds m c.1 c.2 ∧ fdt + off ≤ c.1 ∧
      c.1 + c.2.length ≤ fdt + off + (encodePieces (ps ++ [.fin])).length := by
  refine ⟨fun limit hlimit => ?_, ?_, fun c hc => ?_⟩
  · have hsize := hblob.sizeLt
    have hfuel := length_le_encodePieces (ps ++ [.fin])
    rw [List.length_append, List.length_singleton] at hfuel
    rw [fdtTraverse, readBE_of_holds (by decide) hblob.magic, if_neg (by simp),
      readBE_of_holds hblob.offLt hblob.offStruct,
      readBE_of_holds (hsize.trans (by norm_num)) hblob.sizeStruct]
    exact fdtLoop_spec s hblob.aligned hblob.block hlimit (hsize.trans (by norm_num)) (by omega)
  · rw [callsOf_values, ← values_filter, hblob.pieces, pieces_values]
  · refine callsOf_holds hblob.block c ?_
    rw [callsOf_append]
    exact hc

/-- A root node with an empty property, a property of three bytes, and a padding token. -/
def sampleTree : FdtNode := .mk ⟨[], by simp⟩ [⟨0, []⟩, ⟨4, [7, 8, 9]⟩] []

def samplePieces : List Piece :=
  [.beginNode ⟨[], by simp⟩, .prop ⟨0, []⟩, .nop, .prop ⟨4, [7, 8, 9]⟩, .endNode]

/-- Its blob at address 0: ten header words and the block. -/
def sampleBlob : Mem := fun x =>
  (be32 fdtMagic ++ be32 88 ++ be32 40 ++ (List.replicate 6 (be32 0)).flatten ++ be32 48 ++
    encodePieces (samplePieces ++ [.fin])).getD x 0

/-- The walk of that blob calls back once, on the three bytes. -/
theorem fdt_traverse_decodes_sample :
    Blob sampleBlob 0 40 sampleTree samplePieces ∧
      fdtTraverse 100 sampleBlob (fun p n l => l ++ [(p, n)]) 0 []
        = some (.finished 88, [(76, 3)]) := by
  have hblob : Blob sampleBlob 0 40 sampleTree samplePieces :=
    ⟨by decide, by decide, by decide, by decide, by decide, by decide, by decide, by decide⟩
  exact ⟨hblob, (fdt_traverse_decodes _ _ _ _ _ _ _ hblob).1 100 (by decide)⟩

end NetStack
