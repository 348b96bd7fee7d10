import NetStack.Lib.Emit

/-!
# The numbers `uart.c` prints

`uart_dec` and `uart_dec64` write the digits of a number into a buffer on the stack, least significant first, and
print the buffer backwards; `print_hex64` prints sixteen hexadecimal digits.  They are computations that emit
`Event`s, and an access outside the buffer or through a null pointer stops them (`Stop`).

`printDec_eq` is the whole of the decimal case: a number with no more digits than the buffer has places is printed
as `Nat.toDigits 10` writes it, whatever the buffer held before.  `printHex64_eq` is the hexadecimal one.  From them
`numbers_printed`: the texts are canonical and read back as the number, for every number, and no access leaves a
buffer.

The wait of `uart_putc` for the transmitter is no event.
-/

namespace NetStack.Trap

open EventLog

/-! ## What happens on the way through the handlers -/

/-- A character given to `UART_THR`, a pointer read from `exception_names`, `csrc sip, SSIP`, the call of the machine
mode timer, and `yield`. -/
inductive Event
  | putc (c : Char)
  | exceptionName (i : ℕ)
  | clearSsip
  | setTimer (deadline : BitVec 64)
  | yield
  deriving DecidableEq, Repr

/-- Why nothing follows: `while (1)`, or an access that the language leaves undefined. -/
inductive Stop
  | halted
  | nullPointer
  | outOfBounds
  deriving DecidableEq, Repr

abbrev Console : Type → Type := Emit Event Stop

/-- The characters `text` have been printed, and nothing else has happened. -/
def prints (text : List Char) : Console Unit := emits (text.map .putc)

def uartPutc (c : Char) : Console Unit := emits [.putc c]

/-- `uart_puts`; `none` is the null pointer, which the loop condition `*str` reads through. -/
def uartPuts : Option String → Console Unit
  | none => stop .nullPointer
  | some str => str.toList.forM uartPutc

/-! ## `uart_dec`, `uart_dec64` -/

section Buffer

variable {size : ℕ}

/-- `buffer[i] = c`. -/
def setChar (buffer : Vector Char size) (i : ℕ) (c : Char) : Console (Vector Char size) :=
  if h : i < size then pure (buffer.set i c h) else stop .outOfBounds

/-- `buffer[j]`. -/
def getChar (buffer : Vector Char size) (j : ℕ) : Console Char :=
  if h : j < size then pure buffer[j] else stop .outOfBounds

/-- `while (num > 0) { buffer[i++] = '0' + (num % 10); num /= 10; }`. -/
def digitLoop (buffer : Vector Char size) (i num : ℕ) : Console (Vector Char size × ℕ) :=
  if num > 0 then do
    let buffer ← setChar buffer i (Char.ofNat ('0'.toNat + num % 10))
    digitLoop buffer (i + 1) (num / 10)
  else pure (buffer, i)
termination_by num
decreasing_by omega

/-- `for (int j = i - 1; j >= 0; j--) uart_putc(buffer[j]);`. -/
def printBack (buffer : Vector Char size) : (i : ℕ) → Console Unit
  | 0 => pure ()
  | j + 1 => do
      uartPutc (← getChar buffer j)
      printBack buffer j

/-- The text that `uart_dec` and `uart_dec64` share.  `buffer` is what the stack holds at the declaration; unsigned
division and remainder are those of the numbers. -/
def printDec (buffer : Vector Char size) (num : ℕ) : Console Unit :=
  if num = 0 then uartPutc '0'
  else do
    let (buffer, i) ← digitLoop buffer 0 num
    printBack buffer i

end Buffer

/-- `uart_dec`: `unsigned int num`, `char buffer[10]`. -/
def uartDec (buffer : Vector Char 10) (num : BitVec 32) : Console Unit := printDec buffer num.toNat

/-- `uart_dec64`: `uint64_t num`, `char buffer[20]`. -/
def uartDec64 (buffer : Vector Char 20) (num : BitVec 64) : Console Unit := printDec buffer num.toNat

/-! ## `print_hex64` -/

/-- The last `n` rounds of `for (int i = 60; i >= 0; i -= 4)`. -/
def hexLoop (val : BitVec 64) : (n : ℕ) → Console Unit
  | 0 => pure ()
  | n + 1 => do
      let t := (val >>> (4 * n)) &&& 0xF
      let t := t + if t > 9 then 0x37 else 0x30
      uartPutc (Char.ofNat (t.toNat % 256))
      hexLoop val n

/-- `print_hex64`. -/
def printHex64 (val : BitVec 64) : Console Unit := do
  uartPuts "0x"
  hexLoop val 16

/-! ## What is printed -/

lemma prints_append (text text' : List Char) :
    (prints text >>= fun _ => prints text') = prints (text ++ text') := by
  rw [prints, prints, emits_bind_emits, ← List.map_append, prints]

lemma uartPutc_eq (c : Char) : uartPutc c = prints [c] := rfl

lemma uartPuts_eq (str : String) : uartPuts (some str) = prints str.toList := by
  have hall := forM_emits (ε := Stop) (fun c => [Event.putc c]) str.toList
  rw [uartPuts, prints]
  exact hall.trans (congrArg emits (List.map_eq_flatMap ..).symm)

/-- A digit of the loop. -/
lemma digit_eq {d : ℕ} (hd : d < 10) : Char.ofNat ('0'.toNat + d) = Nat.digitChar d := by
  interval_cases d <;> rfl

lemma toDigits_snoc {num : ℕ} (hge : 10 ≤ num) :
    Nat.toDigits 10 num = Nat.toDigits 10 (num / 10) ++ [Nat.digitChar (num % 10)] :=
  Nat.toDigits_of_base_le (by decide) hge

section Buffer

variable {size : ℕ}

lemma setChar_eq (buffer : Vector Char size) {i : ℕ} (hi : i < size) (c : Char) :
    ∃ buffer', setChar buffer i c = pure buffer' ∧
      buffer'.toList.take (i + 1) = buffer.toList.take i ++ [c] := by
  refine ⟨buffer.set i c hi, dif_pos hi, ?_⟩
  have hlen : i < (buffer.toList.set i c).length := by simpa using hi
  rw [Vector.toList_set, List.take_succ_eq_append_getElem hlen, List.take_set_of_le le_rfl, List.getElem_set_self]

/-- **The digits** of `num` follow what stood in front of them, last digit first. -/
lemma digitLoop_eq : ∀ (num : ℕ) (buffer : Vector Char size) (i : ℕ), 0 < num →
    i + (Nat.toDigits 10 num).length ≤ size →
      ∃ buffer', digitLoop buffer i num = pure (buffer', i + (Nat.toDigits 10 num).length) ∧
        buffer'.toList.take (i + (Nat.toDigits 10 num).length)
          = buffer.toList.take i ++ (Nat.toDigits 10 num).reverse := by
  intro num
  induction num using Nat.strong_induction_on with
  | _ num ih =>
      intro buffer i hpos hfit
      have hroom : 0 < (Nat.toDigits 10 num).length := Nat.length_toDigits_pos
      rcases setChar_eq buffer (show i < size by omega) (Char.ofNat ('0'.toNat + num % 10))
        with ⟨buffer₁, hset, htake⟩
      rw [digit_eq (Nat.mod_lt _ (by decide))] at htake
      rw [digitLoop, if_pos hpos, hset, pure_bind]
      by_cases hlt : num < 10
      · -- the last round: nothing is left of the number
        rw [Nat.toDigits_of_lt_base hlt, Nat.div_eq_of_lt hlt, digitLoop, if_neg (Nat.lt_irrefl 0)]
        rw [Nat.mod_eq_of_lt hlt] at htake
        exact ⟨buffer₁, rfl, htake⟩
      · rw [toDigits_snoc (Nat.le_of_not_lt hlt), List.length_append, List.length_singleton] at hfit ⊢
        rcases ih (num / 10) (by omega) buffer₁ (i + 1) (by omega) (by omega) with ⟨buffer₂, hloop, hall⟩
        rw [Nat.add_assoc i 1, Nat.add_comm 1] at hloop hall
        refine ⟨buffer₂, hloop, ?_⟩
        rw [hall, htake, List.reverse_append, List.append_assoc, List.reverse_singleton]

lemma printBack_eq (buffer : Vector Char size) :
    ∀ i ≤ size, printBack buffer i = prints (buffer.toList.take i).reverse
  | 0, _ => rfl
  | j + 1, hle => by
      have hlen : j < buffer.toList.length := by simpa using hle
      rw [printBack, getChar, dif_pos (Nat.lt_of_succ_le hle), pure_bind, printBack_eq buffer j (by omega), uartPutc_eq,
        prints_append, List.take_succ_eq_append_getElem hlen, List.reverse_append, Vector.getElem_toList]
      rfl

/-- **A number that fits** is printed as its decimal digits, and the buffer is never left. -/
lemma printDec_eq (buffer : Vector Char size) {num : ℕ} (hfit : (Nat.toDigits 10 num).length ≤ size) :
    printDec buffer num = prints (Nat.toDigits 10 num) := by
  by_cases hzero : num = 0
  · rw [printDec, if_pos hzero, hzero, Nat.toDigits_zero, uartPutc_eq]
  · rcases digitLoop_eq num buffer 0 (Nat.pos_of_ne_zero hzero) (by omega) with ⟨buffer', hloop, htake⟩
    rw [Nat.zero_add] at hloop htake
    rw [printDec, if_neg hzero, hloop, pure_bind]
    refine (printBack_eq buffer' _ hfit).trans ?_
    rw [htake, List.take_zero, List.nil_append, List.reverse_reverse]

end Buffer

/-- Ten places are enough for 32 bits. -/
lemma uartDec_eq (buffer : Vector Char 10) (num : BitVec 32) :
    uartDec buffer num = prints (Nat.toDigits 10 num.toNat) :=
  printDec_eq buffer ((Nat.length_toDigits_le_iff (by decide) (by decide)).mpr (num.isLt.trans (by decide)))

/-- Twenty places are enough for 64 bits. -/
lemma uartDec64_eq (buffer : Vector Char 20) (num : BitVec 64) :
    uartDec64 buffer num = prints (Nat.toDigits 10 num.toNat) :=
  printDec_eq buffer ((Nat.length_toDigits_le_iff (by decide) (by decide)).mpr (num.isLt.trans (by decide)))

/-- A digit of `print_hex64`. -/
def hexDigit (t : ℕ) : Char := Char.ofNat (t + if t > 9 then 0x37 else 0x30)

/-- The last `n` hexadecimal digits of `v`. -/
def hexText (v : ℕ) : (n : ℕ) → List Char
  | 0 => []
  | n + 1 => hexDigit (v / 16 ^ n % 16) :: hexText v n

lemma length_hexText (v : ℕ) : ∀ n, (hexText v n).length = n
  | 0 => rfl
  | n + 1 => by rw [hexText, List.length_cons, length_hexText v n]

/-- The masked shift selects one digit. -/
lemma toNat_nibble (val : BitVec 64) (n : ℕ) :
    ((val >>> (4 * n)) &&& 0xF).toNat = val.toNat / 16 ^ n % 16 := by
  have hmask : (0xF : BitVec 64).toNat = 2 ^ 4 - 1 := rfl
  rw [BitVec.toNat_and, BitVec.toNat_ushiftRight, hmask, Nat.and_two_pow_sub_one_eq_mod, Nat.shiftRight_eq_div_pow,
    Nat.pow_mul]

lemma nibble_char {t : BitVec 64} (ht : t.toNat < 16) :
    Char.ofNat ((t + if t > 9 then 0x37 else 0x30).toNat % 256) = hexDigit t.toNat := by
  obtain ⟨d, hd, rfl⟩ : ∃ d < 16, t = BitVec.ofNat 64 d := ⟨t.toNat, ht, by simp⟩
  interval_cases d <;> rfl

lemma hexLoop_eq (val : BitVec 64) : ∀ n, hexLoop val n = prints (hexText val.toNat n)
  | 0 => rfl
  | n + 1 => by
      have hlt : ((val >>> (4 * n)) &&& 0xF).toNat < 16 := by
        rw [toNat_nibble]
        exact Nat.mod_lt _ (by decide)
      rw [hexLoop]
      simp only [nibble_char hlt, toNat_nibble, hexLoop_eq val n, uartPutc_eq, prints_append]
      rfl

lemma printHex64_eq (val : BitVec 64) : printHex64 val = prints ("0x".toList ++ hexText val.toNat 16) := by
  rw [printHex64, uartPuts_eq, hexLoop_eq, prints_append]

/-! ## The texts are faithful -/

/-- `text` is the canonical decimal representation of `n`. -/
structure IsDecimal (text : List Char) (n : ℕ) : Prop where
  digits : ∀ c ∈ text, c.isDigit
  nonempty : text ≠ []
  leading : text.head? = some '0' → text = ['0']
  value : Nat.ofDigitChars 10 text 0 = n

/-- The value of a hexadecimal digit. -/
def hexValue (c : Char) : Option ℕ :=
  if '0' ≤ c ∧ c ≤ '9' then some (c.toNat - '0'.toNat)
  else if 'A' ≤ c ∧ c ≤ 'F' then some (c.toNat - 'A'.toNat + 10)
  else none

/-- Read hexadecimal digits, `acc` being the value of those in front of them. -/
def readHex (acc : ℕ) : List Char → Option ℕ
  | [] => some acc
  | c :: text => do readHex (16 * acc + (← hexValue c)) text

lemma hexValue_hexDigit {d : ℕ} (hd : d < 16) : hexValue (hexDigit d) = some d := by
  interval_cases d <;> rfl

/-- **Reading back** what was printed of `v` gives `v` up to the digits that were not printed. -/
lemma readHex_hexText (v : ℕ) : ∀ (n acc : ℕ), readHex acc (hexText v n) = some (acc * 16 ^ n + v % 16 ^ n)
  | 0, acc => by simp [hexText, readHex, Nat.mod_one]
  | n + 1, acc => by
      have hd : v / 16 ^ n % 16 < 16 := Nat.mod_lt _ (by decide)
      rw [hexText, readHex, hexValue_hexDigit hd]
      refine (readHex_hexText v n _).trans (congrArg some ?_)
      calc (16 * acc + v / 16 ^ n % 16) * 16 ^ n + v % 16 ^ n
          = acc * 16 ^ (n + 1) + (v % 16 ^ n + 16 ^ n * (v / 16 ^ n % 16)) := by ring
        _ = _ := by rw [← Nat.mod_pow_succ]

/-- Only the number `0` is written with a leading zero. -/
lemma head_toDigits {num : ℕ} (hpos : 0 < num) : (Nat.toDigits 10 num).head? ≠ some '0' := by
  induction num using Nat.strong_induction_on with
  | _ num ih =>
      by_cases hlt : num < 10
      · rw [Nat.toDigits_of_lt_base hlt, List.head?_cons, ne_eq, Option.some_inj, Nat.digitChar_eq_zero]
        omega
      · have hhead := ih (num / 10) (by omega) (by omega)
        rw [toDigits_snoc (Nat.le_of_not_lt hlt)]
        rcases hdigits : Nat.toDigits 10 (num / 10) with _ | ⟨c, text⟩
        · exact absurd hdigits Nat.toDigits_ne_nil
        · rwa [hdigits] at hhead

lemma isDecimal_toDigits (num : ℕ) : IsDecimal (Nat.toDigits 10 num) num where
  digits _ hc := Nat.isDigit_of_mem_toDigits (by decide) le_rfl hc
  nonempty := Nat.toDigits_ne_nil
  leading hhead := by
    rcases Nat.eq_zero_or_pos num with rfl | hpos
    · exact Nat.toDigits_zero 10
    · exact absurd hhead (head_toDigits hpos)
  value := Nat.ofDigitChars_ten_toDigits

/-- **Numbers are printed faithfully.**  Whatever their buffers hold, `uart_dec64` and `uart_dec` run to their end
without an access outside the buffer and print the canonical decimal representation of every number; `print_hex64`
prints `0x` and sixteen digits that read back as the number. -/
theorem numbers_printed :
    (∀ (buffer : Vector Char 20) (num : BitVec 64),
      ∃ text, uartDec64 buffer num = prints text ∧ IsDecimal text num.toNat) ∧
    (∀ (buffer : Vector Char 10) (num : BitVec 32),
      ∃ text, uartDec buffer num = prints text ∧ IsDecimal text num.toNat) ∧
    ∀ val : BitVec 64, ∃ text, printHex64 val = prints ("0x".toList ++ text) ∧ text.length = 16 ∧
      readHex 0 text = some val.toNat := by
  refine ⟨fun buffer num => ⟨_, uartDec64_eq buffer num, isDecimal_toDigits _⟩,
    fun buffer num => ⟨_, uartDec_eq buffer num, isDecimal_toDigits _⟩,
    fun val => ⟨_, printHex64_eq val, length_hexText _ _, ?_⟩⟩
  rw [readHex_hexText, Nat.zero_mul, Nat.zero_add, Nat.mod_eq_of_lt (val.isLt.trans_eq (by decide))]

end NetStack.Trap
