import NetStack.Lib.Transition
import Mathlib.Logic.Relation

/-!
# Programs under interference

A program is a tree of operations on a shared state, each with a response that the rest of the
program depends on.  Between any two operations the environment may change the state.  `wp p Q s`
is the weakest condition under which `p`, started in `s`, meets the requirement `G` at every
operation and `Q` where it returns, whatever the environment does in between; it is stable under the
environment by construction.  `Run.wp` carries it along every run of a program that is restarted each
time it returns, which is how a driver's entry points are called again and again.
-/

namespace Concurrent

open Transition Relation

/-- A program over operations `ε` with responses `ρ`. -/
inductive Prog (ε : Type) (ρ : ε → Type) (α : Type) : Type
  | ret (a : α) : Prog ε ρ α
  | op (e : ε) (k : ρ e → Prog ε ρ α) : Prog ε ρ α

variable {ε : Type} {ρ : ε → Type} {α β : Type} {σ : Type}

/-- Sequencing. -/
def Prog.bind : Prog ε ρ α → (α → Prog ε ρ β) → Prog ε ρ β
  | .ret a, f => f a
  | .op e k, f => .op e fun r => (k r).bind f

instance : Monad (Prog ε ρ) where
  pure := .ret
  bind := .bind

@[simp] lemma pure_eq (a : α) : (pure a : Prog ε ρ α) = .ret a := rfl

@[simp] lemma ret_bind (a : α) (f : α → Prog ε ρ β) : (Prog.ret a >>= f : Prog ε ρ β) = f a := rfl

@[simp] lemma op_bind (e : ε) (k : ρ e → Prog ε ρ α) (f : α → Prog ε ρ β) :
    (Prog.op e k >>= f : Prog ε ρ β) = .op e fun r => k r >>= f := rfl

lemma bind_bind {γ : Type} (f : α → Prog ε ρ β) (g : β → Prog ε ρ γ) : ∀ p : Prog ε ρ α,
    (p >>= f) >>= g = p >>= fun a => f a >>= g
  | .ret _ => rfl
  | .op e k => congrArg (Prog.op e) (funext fun r => bind_bind f g (k r))

/-! ## Running alone -/

/-- A run without interference. -/
def Prog.run (exec : (e : ε) → σ → ρ e × σ) : Prog ε ρ α → σ → α × σ
  | .ret a, s => (a, s)
  | .op e k, s => (k (exec e s).1).run exec (exec e s).2

lemma run_bind (exec : (e : ε) → σ → ρ e × σ) (f : α → Prog ε ρ β) : ∀ (p : Prog ε ρ α) (s : σ),
    (p >>= f).run exec s = (f (p.run exec s).1).run exec (p.run exec s).2
  | .ret _, _ => rfl
  | .op e k, s => run_bind exec f (k (exec e s).1) (exec e s).2

/-- A run on one kind of state, seen on another. -/
lemma run_map {τ : Type} {exec : (e : ε) → σ → ρ e × σ} {exec' : (e : ε) → τ → ρ e × τ} {f : σ → τ}
    (hf : ∀ e s, exec' e (f s) = ((exec e s).1, f (exec e s).2)) : ∀ (p : Prog ε ρ α) (s : σ),
    p.run exec' (f s) = ((p.run exec s).1, f (p.run exec s).2)
  | .ret _, _ => rfl
  | .op e k, s => by
      rw [Prog.run, Prog.run, hf]
      exact run_map hf (k (exec e s).1) (exec e s).2

lemma run_if_pos {exec : (e : ε) → σ → ρ e × σ} {c : Prop} [Decidable c] {p p' : Prog ε ρ α} {s : σ} {r : α × σ}
    (hc : c) (h : p.run exec s = r) : (if c then p else p').run exec s = r := by rwa [if_pos hc]

lemma run_if_neg {exec : (e : ε) → σ → ρ e × σ} {c : Prop} [Decidable c] {p p' : Prog ε ρ α} {s : σ} {r : α × σ}
    (hc : ¬ c) (h : p'.run exec s = r) : (if c then p else p').run exec s = r := by rwa [if_neg hc]

/-! ## Syntactic restrictions -/

/-- Every operation the program can perform satisfies `A`. -/
def Only (A : ε → Prop) : Prog ε ρ α → Prop
  | .ret _ => True
  | .op e k => A e ∧ ∀ r, Only A (k r)

lemma Only.bind {A : ε → Prop} {f : α → Prog ε ρ β} : ∀ {p : Prog ε ρ α}, Only A p →
    (∀ a, Only A (f a)) → Only A (p >>= f)
  | .ret a, _, hf => hf a
  | .op _ _, ⟨he, hk⟩, hf => ⟨he, fun r => (hk r).bind hf⟩

lemma Only.mono {A B : ε → Prop} (hAB : ∀ e, A e → B e) : ∀ {p : Prog ε ρ α}, Only A p → Only B p
  | .ret _, _ => trivial
  | .op _ _, ⟨he, hk⟩ => ⟨hAB _ he, fun r => (hk r).mono hAB⟩

lemma Only.run {A : ε → Prop} {P : σ → Prop} {exec : (e : ε) → σ → ρ e × σ}
    (hA : ∀ e, A e → ∀ t, P t → P (exec e t).2) : ∀ {p : Prog ε ρ α} {s : σ}, Only A p → P s → P (p.run exec s).2
  | .ret _, _, _, h => h
  | .op e _, s, hp, h => by
      have hrest := Only.run hA (hp.2 (exec e s).1) (hA e hp.1 s h)
      exact hrest

/-- What every operation keeps, a run keeps. -/
lemma run_keeps {P : σ → Prop} {exec : (e : ε) → σ → ρ e × σ} (hP : ∀ e t, P t → P (exec e t).2) :
    ∀ (p : Prog ε ρ α) {s : σ}, P s → P (p.run exec s).2
  | .ret _, _, h => h
  | .op e k, s, h => run_keeps hP (k (exec e s).1) (hP e s h)

lemma Only.forM {A : ε → Prop} {ι : Type} {f : ι → Prog ε ρ PUnit} :
    ∀ {l : List ι}, (∀ i ∈ l, Only A (f i)) → Only A (l.forM f)
  | [], _ => trivial
  | i :: _, h =>
      (h i List.mem_cons_self).bind fun _ =>
        Only.forM fun j hj => h j (List.mem_cons_of_mem i hj)

/-- Every path of the program ends, in a value that satisfies `R`, whatever the responses are. -/
def Ends (R : α → Prop) : Prog ε ρ α → Prop
  | .ret a => R a
  | .op _ k => ∀ r, Ends R (k r)

lemma Ends.bind {R : β → Prop} {f : α → Prog ε ρ β} (hf : ∀ a, Ends R (f a)) : ∀ p : Prog ε ρ α, Ends R (p >>= f)
  | .ret a => hf a
  | .op _ k => fun r => Ends.bind hf (k r)

/-- From an operation in `A` on, the program is sure to end in `R`. -/
def EndsAfter (A : ε → Prop) (R : α → Prop) : Prog ε ρ α → Prop
  | .ret _ => True
  | .op e k => ∀ r, EndsAfter A R (k r) ∧ (A e → Ends R (k r))

lemma Ends.run {R : α → Prop} {exec : (e : ε) → σ → ρ e × σ} : ∀ {p : Prog ε ρ α} (s : σ), Ends R p → R (p.run exec s).1
  | .ret _, _, h => h
  | .op e k, s, h => Ends.run (p := k _) (exec e s).2 (h _)

lemma Ends.after {A : ε → Prop} {R : α → Prop} : ∀ {p : Prog ε ρ α}, Ends R p → EndsAfter A R p
  | .ret _, _ => trivial
  | .op _ _, h => fun r => ⟨(h r).after, fun _ => h r⟩

lemma EndsAfter.op {A : ε → Prop} {R : α → Prop} {e : ε} {k : ρ e → Prog ε ρ α} (he : ¬ A e)
    (hk : ∀ r, EndsAfter A R (k r)) : EndsAfter A R (.op e k) := fun r => ⟨hk r, fun h => absurd h he⟩

lemma EndsAfter.bind {A : ε → Prop} {R : β → Prop} {f : α → Prog ε ρ β} (hf : ∀ a, EndsAfter A R (f a)) :
    ∀ {p : Prog ε ρ α}, Only (fun e => ¬ A e) p → EndsAfter A R (p >>= f)
  | .ret a, _ => hf a
  | .op _ _, hp => fun r => ⟨EndsAfter.bind hf (hp.2 r), fun he => absurd he hp.1⟩

/-! ## Weakest preconditions -/

/-- Operations of a program and steps of its environment on a common state. -/
structure Interference (ε : Type) (ρ : ε → Type) (σ : Type) where
  exec : (e : ε) → σ → ρ e × σ
  env : σ → σ → Prop

section

variable (M : Interference ε ρ σ) (A G : ε → σ → Prop) (Q : α → σ → Prop)

/-- The environment cannot invalidate `P`. -/
def Interference.Stable (P : σ → Prop) : Prop := ∀ s s', M.env s s' → P s → P s'

lemma Interference.Stable.star {M : Interference ε ρ σ} {P : σ → Prop} (hP : M.Stable P) {s s' : σ}
    (h : ReflTransGen M.env s s') (hs : P s) : P s' := by
  induction h with
  | refl => exact hs
  | tail _ hstep ih => exact hP _ _ hstep ih

/-- The weakest precondition: `G` at every operation, `Q` at the end, as long as operations are
performed in states with `A` only. -/
def wpUnder : Prog ε ρ α → σ → Prop
  | .ret a, s => ∀ s', ReflTransGen M.env s s' → Q a s'
  | .op e k, s => ∀ s', ReflTransGen M.env s s' →
      G e s' ∧ (A e s' → wpUnder (k (M.exec e s').1) (M.exec e s').2)

/-- Without an assumption. -/
abbrev wp : Prog ε ρ α → σ → Prop := wpUnder M (fun _ _ => True) G Q

end

section

variable {M : Interference ε ρ σ} {A G : ε → σ → Prop} {Q : α → σ → Prop} {P : σ → Prop} {s s' : σ}

lemma wp_stable (p : Prog ε ρ α) : M.Stable (wpUnder M A G Q p) := by
  intro s s' henv h
  cases p with
  | ret a => exact fun t ht => h t (.head henv ht)
  | op e k => exact fun t ht => h t (.head henv ht)

lemma wp_ret {a : α} (hQ : M.Stable (Q a)) (h : Q a s) : wpUnder M A G Q (.ret a) s :=
  fun _ ht => hQ.star ht h

/-- An operation is performed in a state the environment has had its way with: `P` is what it
leaves. -/
lemma wp_op {e : ε} {k : ρ e → Prog ε ρ α} (hP : M.Stable P) (h : P s)
    (hop : ∀ t, P t → G e t ∧ (A e t → wpUnder M A G Q (k (M.exec e t).1) (M.exec e t).2)) :
    wpUnder M A G Q (.op e k) s :=
  fun _ ht => hop _ (hP.star ht h)

lemma wp_bind {f : α → Prog ε ρ β} {Q' : β → σ → Prop} : ∀ {p : Prog ε ρ α} {s : σ},
    wpUnder M A G (fun a => wpUnder M A G Q' (f a)) p s → wpUnder M A G Q' (p >>= f) s
  | .ret _, _, h => h _ .refl
  | .op _ _, _, h => fun t ht => ⟨(h t ht).1, fun hA => wp_bind ((h t ht).2 hA)⟩

/-- A program that is followed by a return only. -/
lemma wp_of_bind_ret {f : α → β} {Q' : β → σ → Prop} : ∀ {p : Prog ε ρ α} {s : σ},
    wpUnder M A G Q' (p >>= fun a => .ret (f a)) s → wpUnder M A G (fun a => Q' (f a)) p s
  | .ret _, _, h => h
  | .op _ _, _, h => fun t ht => ⟨(h t ht).1, fun hA => wp_of_bind_ret ((h t ht).2 hA)⟩

lemma wp_mono {G' : ε → σ → Prop} {Q' : α → σ → Prop} (hG : ∀ e t, G e t → G' e t) (hQ : ∀ a t, Q a t → Q' a t) :
    ∀ {p : Prog ε ρ α} {s : σ}, wpUnder M A G Q p s → wpUnder M A G' Q' p s
  | .ret a, _, h => fun t ht => hQ a t (h t ht)
  | .op e _, _, h => fun t ht => ⟨hG e t (h t ht).1, fun hA => wp_mono hG hQ ((h t ht).2 hA)⟩

/-- What every operation that `G` allows keeps holds at the end as well. -/
lemma wp_and (hP : M.Stable P) (hstep : ∀ e t, G e t → P t → P (M.exec e t).2) : ∀ {p : Prog ε ρ α} {s : σ},
    wpUnder M A G Q p s → P s → wpUnder M A G (fun a t => Q a t ∧ P t) p s
  | .ret _, _, h, hs => fun t ht => ⟨h t ht, hP.star ht hs⟩
  | .op e _, _, h, hs => fun t ht =>
      ⟨(h t ht).1, fun hA => wp_and hP hstep ((h t ht).2 hA) (hstep e t (h t ht).1 (hP.star ht hs))⟩

/-- Running alone is one of the ways to run. -/
lemma wp_run : ∀ {p : Prog ε ρ α} {s : σ}, wp M G Q p s → Q (p.run M.exec s).1 (p.run M.exec s).2
  | .ret _, _, h => h _ .refl
  | .op _ k, _, h => wp_run (p := k _) ((h _ .refl).2 trivial)

/-- A program whose operations all keep `P` keeps `P`. -/
lemma wp_of_only {B : ε → Prop} (hP : M.Stable P)
    (hB : ∀ e, B e → ∀ t, P t → G e t ∧ P (M.exec e t).2) (hQ : ∀ a t, P t → Q a t) :
    ∀ {p : Prog ε ρ α} {s : σ}, Only B p → P s → wpUnder M A G Q p s
  | .ret a, _, _, h => fun t ht => hQ a t (hP.star ht h)
  | .op e _, _, hp, h => fun t ht => by
      obtain ⟨hG, hkeep⟩ := hB e hp.1 t (hP.star ht h)
      exact ⟨hG, fun _ => wp_of_only hP hB hQ (hp.2 _) hkeep⟩

/-- **A program that cannot tell that it is not alone** does what it does alone.  `R s t` says that `s` looks to the
operations with `B` like the state `t` of a run alone; `c` is where that run ends. -/
lemma wp_alone {τ : Type} {exec : (e : ε) → τ → ρ e × τ} {R : σ → τ → Prop} {B : ε → Prop} {c : α × τ}
    (hR : ∀ t, M.Stable fun s => R s t)
    (hB : ∀ e, B e → ∀ s t, R s t → (M.exec e s).1 = (exec e t).1 ∧ R (M.exec e s).2 (exec e t).2)
    (hG : ∀ e k s t, B e → R s t → (Prog.op e k).run exec t = c → G e s) (hQ : ∀ s, R s c.2 → Q c.1 s) :
    ∀ {p : Prog ε ρ α} {s : σ} {t : τ}, Only B p → R s t → p.run exec t = c → wpUnder M A G Q p s
  | .ret _, s, t, _, h, hrun => by
      subst hrun
      exact fun _ hs => hQ _ ((hR t).star hs h)
  | .op e k, s, t, hp, h, hrun => fun s' hs => by
      have hs' := (hR t).star hs h
      obtain ⟨hresp, hnext⟩ := hB e hp.1 s' t hs'
      refine ⟨hG e k s' t hp.1 hs' hrun, fun _ => wp_alone hR hB hG hQ (hp.2 _) hnext ?_⟩
      rw [hresp]
      exact hrun

end

/-! ## Runs -/

/-- Whose step it is. -/
inductive Turn
  | program
  | call
  | environment
  deriving DecidableEq, Repr

/-- One step of a program and its environment.  A program that has returned `a` may be restarted as
any `p` with `restart a p`. -/
inductive Interference.Step (M : Interference ε ρ σ) (restart : α → Prog ε ρ α → Prop) :
    Prog ε ρ α × σ → Turn → Prog ε ρ α × σ → Prop
  | op (e : ε) (k : ρ e → Prog ε ρ α) (s : σ) :
      M.Step restart (.op e k, s) .program (k (M.exec e s).1, (M.exec e s).2)
  | call {a : α} {p : Prog ε ρ α} (s : σ) (h : restart a p) :
      M.Step restart (.ret a, s) .call (p, s)
  | env {s s' : σ} (p : Prog ε ρ α) (h : M.env s s') :
      M.Step restart (p, s) .environment (p, s')

/-- Some run gets to a point with `P`. -/
def Interference.Can (M : Interference ε ρ σ) (restart : α → Prog ε ρ α → Prop) (P : Prog ε ρ α → σ → Prop)
    (p : Prog ε ρ α) (s : σ) : Prop := ∃ ls c, Run (M.Step restart) (p, s) ls c ∧ P c.1 c.2

section

variable {M : Interference ε ρ σ} {restart : α → Prog ε ρ α → Prop} {P : Prog ε ρ α → σ → Prop}

lemma Interference.Can.now {p : Prog ε ρ α} {s : σ} (h : P p s) : M.Can restart P p s := ⟨[], _, .nil _, h⟩

lemma Interference.Can.op {e : ε} {k : ρ e → Prog ε ρ α} {s : σ}
    (h : M.Can restart P (k (M.exec e s).1) (M.exec e s).2) : M.Can restart P (.op e k) s := by
  rcases h with ⟨ls, c, hrun, hP⟩
  exact ⟨.program :: ls, c, .cons (.op e k s) hrun, hP⟩

lemma Interference.Can.call {a : α} {p : Prog ε ρ α} {s : σ} (hr : restart a p) (h : M.Can restart P p s) :
    M.Can restart P (.ret a) s := by
  rcases h with ⟨ls, c, hrun, hP⟩
  exact ⟨.call :: ls, c, .cons (.call s hr) hrun, hP⟩

lemma Interference.Can.env {p : Prog ε ρ α} {s s' : σ} (henv : M.env s s') (h : M.Can restart P p s') :
    M.Can restart P p s := by
  rcases h with ⟨ls, c, hrun, hP⟩
  exact ⟨.environment :: ls, c, .cons (.env p henv) hrun, hP⟩

lemma Interference.Can.envs {p : Prog ε ρ α} {s s' : σ} (henv : ReflTransGen M.env s s') (h : M.Can restart P p s') :
    M.Can restart P p s := by
  induction henv with
  | refl => exact h
  | tail _ hstep ih => exact ih (h.env hstep)

/-- The environment may leave the program alone to its end. -/
lemma Interference.Can.alone : ∀ {p : Prog ε ρ α} {s : σ},
    M.Can restart P (.ret (p.run M.exec s).1) (p.run M.exec s).2 → M.Can restart P p s
  | .ret _, _, h => h
  | .op _ k, _, h => .op (Can.alone (p := k _) h)

lemma Interference.Can.cond {c : Prop} [Decidable c] {p p' : Prog ε ρ β} {f : β → Prog ε ρ α} {s : σ} (hc : c)
    (h : M.Can restart P (p >>= f) s) : M.Can restart P ((if c then p else p') >>= f) s := by rwa [if_pos hc]

/-- The environment may leave a piece of the program alone. -/
lemma Interference.Can.bind {f : β → Prog ε ρ α} : ∀ {p : Prog ε ρ β} {s : σ},
    M.Can restart P (f (p.run M.exec s).1) (p.run M.exec s).2 → M.Can restart P (p >>= f) s
  | .ret _, _, h => h
  | .op _ k, _, h => .op (Can.bind (p := k _) h)

end

/-- A step that performs an operation in a state with `A` only. -/
def Interference.StepUnder (M : Interference ε ρ σ) (A : ε → σ → Prop) (restart : α → Prog ε ρ α → Prop)
    (c : Prog ε ρ α × σ) (t : Turn) (c' : Prog ε ρ α × σ) : Prop :=
  M.Step restart c t c' ∧ (t = .program → ∀ e k, c.1 = .op e k → A e c.2)

variable {M : Interference ε ρ σ} {A G : ε → σ → Prop} {Q : α → σ → Prop} {restart : α → Prog ε ρ α → Prop}

lemma Interference.StepUnder.wp {c c' : Prog ε ρ α × σ} {t : Turn}
    (hcall : ∀ a p s, restart a p → Q a s → wpUnder M A G Q p s) (hstep : M.StepUnder A restart c t c')
    (h : wpUnder M A G Q c.1 c.2) : wpUnder M A G Q c'.1 c'.2 := by
  rcases hstep with ⟨hstep, hA⟩
  cases hstep with
  | op e k s => exact (h s .refl).2 (hA rfl e k rfl)
  | call s hr => exact hcall _ _ _ hr (h s .refl)
  | env p henv => exact wp_stable p _ _ henv h

/-- The environment may leave a program alone to its end, if `A` holds at each of its operations. -/
lemma Run.alone {P : σ → Prop} (hP : ∀ e t, P t → A e t ∧ P (M.exec e t).2) : ∀ (p : Prog ε ρ α) {s : σ}, P s →
    ∃ ls, Run (M.StepUnder A restart) (p, s) ls (.ret (p.run M.exec s).1, (p.run M.exec s).2)
  | .ret a, s, _ => ⟨[], .nil _⟩
  | .op e k, s, h => by
      obtain ⟨hA, hnext⟩ := hP e s h
      obtain ⟨ls, hrun⟩ := Run.alone hP (k (M.exec e s).1) hnext
      refine ⟨.program :: ls, .cons ⟨.op e k s, ?_⟩ hrun⟩
      rintro - e' k' ⟨⟩
      exact hA

/-- **The rule for runs.**  If every entry point can be called where the previous call may return,
then at every point of every run the program is at an operation that `G` allows or has returned in
a state that satisfies `Q`. -/
theorem Run.wpUnder {c c' : Prog ε ρ α × σ} {ls : List Turn}
    (hcall : ∀ a p s, restart a p → Q a s → wpUnder M A G Q p s) (hrun : Run (M.StepUnder A restart) c ls c')
    (h : Concurrent.wpUnder M A G Q c.1 c.2) :
    match c'.1 with
    | .ret a => Q a c'.2
    | .op e _ => G e c'.2 := by
  have hwp : Concurrent.wpUnder M A G Q c'.1 c'.2 :=
    hrun.invariant (P := fun c => Concurrent.wpUnder M A G Q c.1 c.2) (fun _ _ _ hstep hc => hstep.wp hcall hc) h
  obtain ⟨p, s⟩ := c'
  cases p with
  | ret a => exact hwp s .refl
  | op e k => exact (hwp s .refl).1

theorem Run.wp {c c' : Prog ε ρ α × σ} {ls : List Turn}
    (hcall : ∀ a p s, restart a p → Q a s → wp M G Q p s) (hrun : Run (M.Step restart) c ls c')
    (h : Concurrent.wp M G Q c.1 c.2) :
    match c'.1 with
    | .ret a => Q a c'.2
    | .op e _ => G e c'.2 :=
  Run.wpUnder hcall (hrun.mono fun _ _ _ hstep => ⟨hstep, fun _ _ _ _ => trivial⟩) h

/-! ## Calls that leave a trace -/

/-- The same, where an entry may also change the state: the caller prepares its arguments, and a record may be kept
of them. -/
inductive Interference.Serve (M : Interference ε ρ σ) (enter : α → σ → Prog ε ρ α → σ → Prop) :
    Prog ε ρ α × σ → Turn → Prog ε ρ α × σ → Prop
  | op (e : ε) (k : ρ e → Prog ε ρ α) (s : σ) :
      M.Serve enter (.op e k, s) .program (k (M.exec e s).1, (M.exec e s).2)
  | call {a : α} {p : Prog ε ρ α} {s s' : σ} (h : enter a s p s') : M.Serve enter (.ret a, s) .call (p, s')
  | env {s s' : σ} (p : Prog ε ρ α) (h : M.env s s') : M.Serve enter (p, s) .environment (p, s')

/-- A call may be left alone to its end. -/
lemma Run.serve_alone {enter : α → σ → Prog ε ρ α → σ → Prop} : ∀ (p : Prog ε ρ α) (s : σ),
    ∃ ls, Run (M.Serve enter) (p, s) ls (.ret (p.run M.exec s).1, (p.run M.exec s).2)
  | .ret _, _ => ⟨[], .nil _⟩
  | .op e k, s => by
      obtain ⟨ls, hrun⟩ := Run.serve_alone (k (M.exec e s).1) (M.exec e s).2
      exact ⟨.program :: ls, .cons (.op e k s) hrun⟩

/-- **The rule for runs of such calls.** -/
theorem Run.serve {enter : α → σ → Prog ε ρ α → σ → Prop} {c c' : Prog ε ρ α × σ} {ls : List Turn}
    (hcall : ∀ a s p s', enter a s p s' → Q a s → Concurrent.wp M G Q p s') (hrun : Run (M.Serve enter) c ls c')
    (h : Concurrent.wp M G Q c.1 c.2) :
    match c'.1 with
    | .ret a => Q a c'.2
    | .op e _ => G e c'.2 := by
  have hwp : Concurrent.wp M G Q c'.1 c'.2 := by
    refine hrun.invariant (P := fun c => Concurrent.wp M G Q c.1 c.2) (fun c t c'' hstep hc => ?_) h
    cases hstep with
    | op e k s => exact (hc s .refl).2 trivial
    | call hent => exact hcall _ _ _ _ hent (hc _ .refl)
    | env p henv => exact wp_stable p _ _ henv hc
  obtain ⟨p, s⟩ := c'
  cases p with
  | ret a => exact hwp s .refl
  | op e k => exact (hwp s .refl).1

end Concurrent
