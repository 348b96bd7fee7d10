import Mathlib.Tactic

/-!
# The registers of the UART, and `uart_init`

An NS16550A as far as `uart.c` uses it.  Offsets 0 and 1 have two registers each: with `LCR.DLAB` set they are the
divisor, otherwise the transmitter and `IER`.  `FCR` switches the FIFOs on and empties them.

`uart_init` reaches the divisor and nothing else through those two offsets, whatever state it finds the device in
(`uartInit_eq`), and leaves a transmitter with sixteen places.
-/

namespace NetStack.Trap

/-- The device.  `thr` is what waits for the line, oldest first, and `line` what has gone out. -/
structure Ns16550a where
  lcr : BitVec 8
  ier : BitVec 8
  dll : BitVec 8
  dlm : BitVec 8
  fifoEnabled : Bool
  thr : List (BitVec 8)
  rhr : List (BitVec 8)
  line : List (BitVec 8)
  deriving DecidableEq, Repr

def lcrDlab : BitVec 8 := 1 <<< 7
def fcrFifoEnable : BitVec 8 := 1 <<< 0
def fcrFifoClear : BitVec 8 := 3 <<< 1

/-- Places for bytes that wait. -/
def Ns16550a.depth (d : Ns16550a) : ℕ := if d.fifoEnabled then 16 else 1

/-- The registers that are written to, by their names in `uart.h`. -/
inductive UartReg
  /-- `UART_THR` and `UART_LSB`. -/
  | thr
  /-- `UART_IER` and `UART_MSB`. -/
  | ier
  | fcr
  | lcr
  deriving DecidableEq, Repr

def Ns16550a.dlab (d : Ns16550a) : Bool := d.lcr.getLsbD 7

/-- A byte for the transmitter; one that has no place is lost. -/
def Ns16550a.transmit (d : Ns16550a) (v : BitVec 8) : Ns16550a :=
  if d.thr.length < d.depth then { d with thr := d.thr ++ [v] } else d

/-- `FCR`: the FIFOs are emptied on request, and when they are switched on or off. -/
def Ns16550a.setFcr (d : Ns16550a) (v : BitVec 8) : Ns16550a :=
  let toggled := v.getLsbD 0 != d.fifoEnabled
  { d with
    fifoEnabled := v.getLsbD 0
    rhr := if v.getLsbD 1 || toggled then [] else d.rhr
    thr := if v.getLsbD 2 || toggled then [] else d.thr }

/-- The byte that has waited longest goes out. -/
def Ns16550a.send (d : Ns16550a) : Ns16550a :=
  match d.thr with
  | [] => d
  | v :: rest => { d with thr := rest, line := d.line ++ [v] }

def Ns16550a.write (d : Ns16550a) (v : BitVec 8) : UartReg → Ns16550a
  | .thr => if d.dlab then { d with dll := v } else d.transmit v
  | .ier => if d.dlab then { d with dlm := v } else { d with ier := v }
  | .fcr => d.setFcr v
  | .lcr => { d with lcr := v }

/-- `uart_init`; `clock_freq / baudrate` is kept in an `unsigned int`. -/
def uartInit (baudrate : BitVec 32) (clockFreq : BitVec 64) (d : Ns16550a) : Ns16550a :=
  let divisor : BitVec 32 := (clockFreq / baudrate.setWidth 64).setWidth 32
  let d := d.write (d.lcr ||| lcrDlab) .lcr
  let d := d.write ((divisor &&& 0xFF).setWidth 8) .thr
  let d := d.write (((divisor >>> 8) &&& 0xFF).setWidth 8) .ier
  let d := d.write (d.lcr &&& ~~~ lcrDlab) .lcr
  let d := d.write 0x03 .lcr
  d.write (fcrFifoEnable ||| fcrFifoClear) .fcr

lemma dlab_or (v : BitVec 8) : (v ||| lcrDlab).getLsbD 7 = true := by
  rw [BitVec.getLsbD_or, Bool.or_eq_true]
  exact .inr (by decide)

/-- **After `uart_init`**: the FIFOs are on and empty, the format is set, and neither a byte nor `IER` was touched on
the way to the divisor. -/
lemma uartInit_eq (baudrate : BitVec 32) (clockFreq : BitVec 64) (d : Ns16550a) :
    uartInit baudrate clockFreq d =
      { lcr := 3
        ier := d.ier
        dll := (((clockFreq / baudrate.setWidth 64).setWidth 32 : BitVec 32) &&& 0xFF).setWidth 8
        dlm := ((((clockFreq / baudrate.setWidth 64).setWidth 32 : BitVec 32) >>> 8) &&& 0xFF).setWidth 8
        fifoEnabled := true
        thr := []
        rhr := []
        line := d.line } := by
  have hdlab : Ns16550a.dlab { d with lcr := d.lcr ||| lcrDlab } = true := dlab_or d.lcr
  have hdlab' : ∀ v, Ns16550a.dlab { d with lcr := d.lcr ||| lcrDlab, dll := v } = true := fun v => dlab_or d.lcr
  simp only [uartInit, Ns16550a.write, hdlab, hdlab', if_true]
  rfl

end NetStack.Trap
