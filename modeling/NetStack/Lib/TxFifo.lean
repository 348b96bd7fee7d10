import NetStack.Lib.Transition

/-!
# A transmitter that is checked and then written to

A writer waits until the FIFO of a transmitter is empty and then stores a byte.  Between the two steps other writers
may come, which have seen the same empty FIFO.  What does not fit when it is stored is lost.

`Tx.load` counts the bytes in the FIFO and the writers that are about to store one.  A check does not raise it above the
number of writers that are ready then, and nothing else raises it (`Step.load_le`), so with no more of them than places
nothing is lost (`Step.fits`), and the line has what was stored, in order (`Step.sent`).
-/

namespace TxFifo

open Transition

variable {ι β : Type} [DecidableEq ι]

/-- The transmitter, and the writers that have seen its FIFO empty and have not stored yet.  `line` is what has gone
out, oldest first; every byte goes with its writer. -/
structure Tx (ι β : Type) where
  fifo : List (ι × β)
  line : List (ι × β)
  lost : List (ι × β)
  ready : Finset ι

inductive Event (ι β : Type)
  | check (i : ι)
  | store (i : ι) (b : β)
  | send
  deriving DecidableEq, Repr

def Tx.empty : Tx ι β := ⟨[], [], [], ∅⟩

/-- A byte is stored into a FIFO of `depth` places. -/
def Tx.store (depth : ℕ) (s : Tx ι β) (i : ι) (b : β) : Tx ι β :=
  if s.fifo.length < depth then { s with fifo := s.fifo ++ [(i, b)], ready := s.ready.erase i }
  else { s with lost := s.lost ++ [(i, b)], ready := s.ready.erase i }

inductive Step (depth : ℕ) : Tx ι β → Event ι β → Tx ι β → Prop
  | check {s : Tx ι β} {i : ι} (hidle : i ∉ s.ready) (hempty : s.fifo = []) :
      Step depth s (.check i) { s with ready := insert i s.ready }
  | store {s : Tx ι β} {i : ι} {b : β} (hready : i ∈ s.ready) : Step depth s (.store i b) (s.store depth i b)
  | send {s : Tx ι β} {x : ι × β} {rest : List (ι × β)} (hfifo : s.fifo = x :: rest) :
      Step depth s .send { s with fifo := rest, line := s.line ++ [x] }

/-- The byte of an event, with its writer. -/
def Event.stored : Event ι β → Option (ι × β)
  | .store i b => some (i, b)
  | .check _ | .send => none

/-- What is in the FIFO or will be soon. -/
def Tx.load (s : Tx ι β) : ℕ := s.fifo.length + s.ready.card

section

variable {depth n : ℕ} {s s' : Tx ι β} {e : Event ι β}

lemma Tx.store_ready (s : Tx ι β) (i : ι) (b : β) : (s.store depth i b).ready = s.ready.erase i := by
  rw [Tx.store]
  split_ifs <;> rfl

/-- **The load.** -/
lemma Step.load_le (hstep : Step depth s e s') (hload : s.load ≤ n) (hready : s'.ready.card ≤ n) : s'.load ≤ n := by
  cases hstep with
  | check hidle hempty =>
      rw [Tx.load, hempty, List.length_nil, Nat.zero_add]
      exact hready
  | @store i b hmem =>
      rw [Tx.load] at hload ⊢
      have hcard := Finset.card_erase_add_one hmem
      rw [Tx.store_ready]
      rw [Tx.store]
      split_ifs with hroom
      · rw [List.length_append, List.length_singleton]
        omega
      · simp only
        omega
  | @send x rest hfifo =>
      rw [Tx.load, hfifo, List.length_cons] at hload
      rw [Tx.load]
      simp only
      omega

omit [DecidableEq ι] in
/-- A writer that is ready has a place. -/
lemma Tx.room (hload : s.load ≤ depth) {i : ι} (hready : i ∈ s.ready) : s.fifo.length < depth := by
  have hpos := Finset.card_pos.mpr ⟨i, hready⟩
  rw [Tx.load] at hload
  omega

/-- **Nothing is lost** while the load is within the depth. -/
lemma Step.fits (hstep : Step depth s e s') (hload : s.load ≤ depth) : s'.lost = s.lost := by
  cases hstep with
  | check hidle hempty => rfl
  | store hready => rw [Tx.store, if_pos (Tx.room hload hready)]
  | send hfifo => rfl

/-- **What was stored is on the line or on its way**, in order. -/
lemma Step.sent (hstep : Step depth s e s') (hload : s.load ≤ depth) :
    s'.line ++ s'.fifo = s.line ++ s.fifo ++ e.stored.toList := by
  cases hstep with
  | check hidle hempty => simp [Event.stored]
  | store hready =>
      rw [Tx.store, if_pos (Tx.room hload hready)]
      simp [Event.stored]
  | send hfifo => simp [hfifo, Event.stored]

end

end TxFifo
