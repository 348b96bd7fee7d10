import NetStack.Lib.Concurrent

/-!
# What a program does when it runs alone

`Prog.trace` lists the operations of an undisturbed run, in order.

A loop of the source that need not end becomes a program with a bound, which gives up with `none` when the
bound is used up: a program in `Bounded`.  `Extends p p'` says that `p'` does what `p` does and may go on where
`p` gives up, so a larger bound only adds to the end of the trace (`Extends.trace`) and changes no result
(`Extends.run`).
-/

namespace Concurrent

variable {ε : Type} {ρ : ε → Type} {α β σ : Type} {exec : (e : ε) → σ → ρ e × σ}

/-! ## Traces -/

/-- The operations of a run without interference. -/
def Prog.trace (exec : (e : ε) → σ → ρ e × σ) : Prog ε ρ α → σ → List ε
  | .ret _, _ => []
  | .op e k, s => e :: (k (exec e s).1).trace exec (exec e s).2

lemma trace_bind (exec : (e : ε) → σ → ρ e × σ) (f : α → Prog ε ρ β) : ∀ (p : Prog ε ρ α) (s : σ),
    (p >>= f).trace exec s = p.trace exec s ++ (f (p.run exec s).1).trace exec (p.run exec s).2
  | .ret _, _ => rfl
  | .op e k, s => congrArg (e :: ·) (trace_bind exec f (k (exec e s).1) (exec e s).2)

/-! ## Programs with a bound -/

/-- Programs that may give up. -/
abbrev Bounded (ε : Type) (ρ : ε → Type) : Type → Type := OptionT (Prog ε ρ)

/-- `p'` does what `p` does, and may go on where `p` gives up. -/
inductive Extends : Prog ε ρ (Option α) → Prog ε ρ (Option α) → Prop
  | gaveUp (p : Prog ε ρ (Option α)) : Extends (.ret none) p
  | ret (a : α) : Extends (.ret (some a)) (.ret (some a))
  | op (e : ε) {k k' : ρ e → Prog ε ρ (Option α)} (h : ∀ r, Extends (k r) (k' r)) : Extends (.op e k) (.op e k')

lemma Extends.refl : ∀ p : Prog ε ρ (Option α), Extends p p
  | .ret none => .gaveUp _
  | .ret (some a) => .ret a
  | .op e k => .op e fun r => Extends.refl (k r)

/-- Sequencing: the first program that gives up ends the whole. -/
lemma Extends.bind {p p' : Bounded ε ρ α} {f f' : α → Bounded ε ρ β} (h : Extends p p')
    (hf : ∀ a, Extends (f a) (f' a)) : Extends (p >>= f : Bounded ε ρ β) (p' >>= f' : Bounded ε ρ β) := by
  induction h with
  | gaveUp p => exact .gaveUp _
  | ret a => exact hf a
  | op e h ih => exact .op e ih

/-- A larger bound adds to the end of the trace. -/
lemma Extends.trace {p p' : Prog ε ρ (Option α)} (h : Extends p p') (s : σ) :
    p.trace exec s <+: p'.trace exec s := by
  induction h generalizing s with
  | gaveUp p => exact List.nil_prefix
  | ret a => exact List.prefix_rfl
  | op e h ih => exact List.cons_prefix_cons.mpr ⟨rfl, ih _ _⟩

/-- A larger bound changes no result. -/
lemma Extends.run {p p' : Prog ε ρ (Option α)} (h : Extends p p') {s s' : σ} {a : α}
    (hp : p.run exec s = (some a, s')) : p'.run exec s = (some a, s') := by
  induction h generalizing s with
  | gaveUp p => exact absurd (congrArg Prod.fst hp) (by simp [Prog.run])
  | ret a => exact hp
  | op e h ih => exact ih _ hp

/-- Nothing is added where there is a result. -/
lemma Extends.trace_eq {p p' : Prog ε ρ (Option α)} (h : Extends p p') {s s' : σ} {a : α}
    (hp : p.run exec s = (some a, s')) : p'.trace exec s = p.trace exec s := by
  induction h generalizing s with
  | gaveUp p => exact absurd (congrArg Prod.fst hp) (by simp [Prog.run])
  | ret a => rfl
  | op e h ih => exact congrArg (e :: ·) (ih _ hp)

section

variable {p : Bounded ε ρ α} {f : α → Bounded ε ρ β} {s s' : σ}

lemma run_optionBind_some {a : α} (h : Prog.run exec p s = (some a, s')) :
    Prog.run exec (p >>= f : Bounded ε ρ β) s = Prog.run exec (f a) s' := by
  have hbind := run_bind exec (fun o : Option α => match o with
    | some a => f a
    | none => (pure none : Prog ε ρ (Option β))) p s
  rw [h] at hbind
  exact hbind

lemma run_optionBind_none (h : Prog.run exec p s = (none, s')) :
    Prog.run exec (p >>= f : Bounded ε ρ β) s = (none, s') := by
  have hbind := run_bind exec (fun o : Option α => match o with
    | some a => f a
    | none => (pure none : Prog ε ρ (Option β))) p s
  rw [h] at hbind
  exact hbind

lemma trace_optionBind_some {a : α} (h : Prog.run exec p s = (some a, s')) :
    Prog.trace exec (p >>= f : Bounded ε ρ β) s = Prog.trace exec p s ++ Prog.trace exec (f a) s' := by
  have hbind := trace_bind exec (fun o : Option α => match o with
    | some a => f a
    | none => (pure none : Prog ε ρ (Option β))) p s
  rw [h] at hbind
  exact hbind

lemma trace_optionBind_none (h : Prog.run exec p s = (none, s')) :
    Prog.trace exec (p >>= f : Bounded ε ρ β) s = Prog.trace exec p s := by
  have hbind := trace_bind exec (fun o : Option α => match o with
    | some a => f a
    | none => (pure none : Prog ε ρ (Option β))) p s
  rw [h] at hbind
  exact hbind.trans (List.append_nil _)

end

end Concurrent
