import Mathlib.Tactic

/-!
# Computations that emit events and may stop

`Emit κ ε α` is what a computation has emitted, oldest event first, together with its end: a value of `α`, or a stop
with a reason in `ε`.  What was emitted before a stop stays emitted, and nothing follows it.

`emits l` only emits, `stop e` only stops.  A computation that is known to run through is one equation `p = emits l`,
and `emits_bind_emits` and `forM_emits` put such equations together.
-/

namespace EventLog

/-- Events, oldest first, and the end. -/
structure Emit (κ ε α : Type) where
  out : List κ
  res : Except ε α

variable {κ ε α β : Type}

/-- One computation after the other. -/
def Emit.bind (p : Emit κ ε α) (f : α → Emit κ ε β) : Emit κ ε β :=
  match p.res with
  | .ok a => ⟨p.out ++ (f a).out, (f a).res⟩
  | .error e => ⟨p.out, .error e⟩

instance : Monad (Emit κ ε) where
  pure a := ⟨[], .ok a⟩
  bind := Emit.bind

/-- Emit `l`. -/
def emits (l : List κ) : Emit κ ε Unit := ⟨l, .ok ()⟩

/-- Stop. -/
def stop (e : ε) : Emit κ ε α := ⟨[], .error e⟩

instance : LawfulMonad (Emit κ ε) := LawfulMonad.mk' _
  (by rintro α ⟨l, _ | a⟩ <;> simp [Functor.map, Emit.bind])
  (by intro α β a f; simp [Bind.bind, Pure.pure, Emit.bind])
  (by
    rintro α β γ ⟨l, _ | a⟩ f g
    · rfl
    · rcases hf : f a with ⟨l', _ | b⟩ <;> simp [Bind.bind, Emit.bind, hf])

@[simp] lemma stop_bind (e : ε) (f : α → Emit κ ε β) : (stop e >>= f) = stop e := rfl

lemma emits_bind (l : List κ) (f : Unit → Emit κ ε β) :
    (emits l >>= f) = ⟨l ++ (f ()).out, (f ()).res⟩ := rfl

lemma emits_bind_emits (l l' : List κ) :
    ((emits l >>= fun _ => emits l') : Emit κ ε Unit) = emits (l ++ l') := rfl

lemma emits_bind_stop (l : List κ) (e : ε) :
    ((emits l >>= fun _ => stop e) : Emit κ ε α) = ⟨l, .error e⟩ := by
  rw [emits_bind]
  simp [stop]

/-- A loop whose rounds only emit. -/
lemma forM_emits {ι : Type} (g : ι → List κ) :
    ∀ l : List ι, (l.forM fun i => (emits (g i) : Emit κ ε Unit)) = emits (l.flatMap g)
  | [] => rfl
  | i :: l => by
      rw [List.forM, forM_emits g l, emits_bind_emits, List.flatMap_cons]

end EventLog
