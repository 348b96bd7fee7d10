import NetStack.Lib.ByteMem

/-!
# The device-tree walk of `dtb.c`

`fdt_traverse` reads the structure block token by token and calls back on every property with a
value.  The callback is any function on a state of its own.  Pointers are plain numbers: the blob is an
object in memory, and the walk does not leave the address space inside it.

Three loops of the source end only if the bytes let them: the scans of `string_len` and of
`parse_dtb_unit_name`, and the token loop itself.  They take a bound and return `none` when it is used
up.
-/

namespace NetStack

open ByteMem

/-! ## `utils.c` -/

/-- `BE2LE`. -/
def be2le (be : ℕ) : ℕ :=
  [24, 16, 8, 0].foldl (fun le i => le ||| (((be >>> i) &&& 0xFF) <<< (24 - i))) 0

/-- `string_len`: a string ends at `NUL` or at a newline. -/
def stringLen (m : Mem) (str : ℕ) : (fuel i : ℕ) → Option ℕ
  | 0, _ => none
  | fuel + 1, i =>
      if m (str + i) = 0 ∨ m (str + i) = 10 then some i else stringLen m str fuel (i + 1)

/-- `align_mem_offset`. -/
def alignMemOffset (i align : ℕ) : ℕ := (align - i % align) % align

/-! ## `parse_dtb_unit_name` -/

/-- `while (*p != '@' && *p != '\0') p++;` -/
def skipToAt (m : Mem) : (fuel p : ℕ) → Option ℕ
  | 0, _ => none
  | fuel + 1, p => if m p ≠ 64 ∧ m p ≠ 0 then skipToAt m fuel (p + 1) else some p

/-- The loop over the digits.  The shift comes before the test of the character. -/
def hexDigits (m : Mem) (p : ℕ) : (fuel i addr : ℕ) → Option ℕ
  | 0, _, _ => none
  | fuel + 1, i, addr =>
      let c := (m (p + i)).toNat
      if c = 0 then some addr
      else
        let addr := (addr <<< 4) % 2 ^ 64
        if 48 ≤ c ∧ c ≤ 57 then hexDigits m p fuel (i + 1) ((addr + (c - 48)) % 2 ^ 64)
        else if 97 ≤ c ∧ c ≤ 102 then hexDigits m p fuel (i + 1) ((addr + (c - 97 + 10)) % 2 ^ 64)
        else if 65 ≤ c ∧ c ≤ 70 then hexDigits m p fuel (i + 1) ((addr + (c - 65 + 10)) % 2 ^ 64)
        else some addr

/-- `parse_dtb_unit_name`. -/
def parseDtbUnitName (limit : ℕ) (m : Mem) (unitName : ℕ) : Option ℕ := do
  let p ← skipToAt m limit unitName
  hexDigits m (p + 1) limit 0 0

/-! ## `fdt_traverse` -/

def fdtBeginNode : ℕ := 1
def fdtEndNode : ℕ := 2
def fdtProp : ℕ := 3
def fdtNop : ℕ := 4
def fdtEnd : ℕ := 9
def fdtMagic : ℕ := 0xd00dfeed

/-- A big-endian word of the blob, as the source reads it. -/
def readBE (m : Mem) (addr : ℕ) : ℕ := be2le (loadLE m 4 addr)

/-- How `fdt_traverse` returns: at the magic number, at an unknown token, or at the end of its loop,
with the value of `struct_ptr` there. -/
inductive FdtExit
  | badMagic
  | badToken (structPtr : ℕ)
  | finished (structPtr : ℕ)
  deriving DecidableEq, Repr

section

variable {σ : Type} (limit : ℕ) (m : Mem) (callback : ℕ → ℕ → σ → σ)

/-- What the loop body does after the token: the new `struct_ptr` and state, or `none` at an unknown
token. -/
def fdtPiece (token structPtr : ℕ) (s : σ) : Option (Option (ℕ × σ)) :=
  if token = fdtNop then some (some (structPtr, s))
  else if token = fdtBeginNode then do
    let printLen ← stringLen m structPtr limit 0
    let _addr ← parseDtbUnitName limit m structPtr
    let structPtr := structPtr + printLen + 1
    some (some (structPtr + alignMemOffset structPtr 4, s))
  else if token = fdtProp then
    let propLen := readBE m structPtr
    let structPtr := structPtr + 8
    let (structPtr, s) :=
      if propLen > 0 then (structPtr + propLen, callback structPtr propLen s) else (structPtr, s)
    some (some (structPtr + alignMemOffset structPtr 4, s))
  else if token = fdtEndNode then some (some (structPtr, s))
  else if token = fdtEnd then some (some (structPtr, s))
  else some none

/-- The token loop, up to `stop`. -/
def fdtLoop (stop : ℕ) : (fuel structPtr : ℕ) → σ → Option (FdtExit × σ)
  | 0, _, _ => none
  | fuel + 1, structPtr, s =>
      if structPtr < stop then do
        match ← fdtPiece limit m callback (readBE m structPtr) (structPtr + 4) s with
        | none => some (.badToken (structPtr + 4), s)
        | some (structPtr, s) => fdtLoop stop fuel structPtr s
      else some (.finished structPtr, s)

/-- `fdt_traverse`, on the blob at `fdt`. -/
def fdtTraverse (fdt : ℕ) (s : σ) : Option (FdtExit × σ) :=
  if readBE m fdt ≠ fdtMagic then some (.badMagic, s)
  else
    let structSize := readBE m (fdt + 36)
    let structPtr := fdt + readBE m (fdt + 8)
    fdtLoop limit m callback (structPtr + structSize) limit structPtr s

end

end NetStack
