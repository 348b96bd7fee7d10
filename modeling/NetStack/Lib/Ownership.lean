import NetStack.Lib.Transition

/-!
# Private memory

A part of a system's memory that one party owns, in a system where many act.  `put e x` is what the
event `e` puts at the location `x`, if the owner writes there; `Owner` says that nothing else
happens to what the owner has: each step leaves it the locations and, except for what is put there,
their contents.

`Owner.read_back` is the consequence for runs.  Whoever else acts in between, the owner reads back what
it wrote last, and what was there before if it has not written at all.
-/

namespace Ownership

open Transition

variable {σ ε α β : Type*}

/-- What was put at `x` last. -/
def written (put : ε → α → Option β) : List ε → α → Option β
  | [], _ => none
  | e :: es, x => (written put es x).or (put e x)

/-- Nobody has put anything there. -/
lemma written_eq_none {put : ε → α → Option β} {es : List ε} {x : α} (h : ∀ e ∈ es, put e x = none) :
    written put es x = none := by
  induction es with
  | nil => rfl
  | cons e es ih =>
      have hes := ih fun e' he' => h e' (List.mem_cons_of_mem e he')
      rw [written, hes, h e List.mem_cons_self]
      rfl

/-- **An owner of memory**: under the invariant `I`, the events in `B` leave it its locations, and their contents
up to what they put there. -/
structure Owner (step : σ → ε → σ → Prop) (I : σ → Prop) (B : ε → Prop) (own : σ → Set α) (data : σ → α → β)
    (put : ε → α → Option β) : Prop where
  inv : ∀ s e s', step s e s' → I s → I s'
  keeps : ∀ s e s', step s e s' → I s → B e → ∀ x ∈ own s, x ∈ own s' ∧ data s' x = (put e x).getD (data s x)

variable {step : σ → ε → σ → Prop} {I : σ → Prop} {B : ε → Prop} {own : σ → Set α} {data : σ → α → β}
  {put : ε → α → Option β}

/-- **The owner reads back what it wrote.** -/
theorem Owner.read_back (h : Owner step I B own data put) {s s' : σ} {es : List ε} (hrun : Run step s es s')
    (hI : I s) (hB : ∀ e ∈ es, B e) {x : α} (hx : x ∈ own s) :
    x ∈ own s' ∧ data s' x = (written put es x).getD (data s x) := by
  induction hrun with
  | nil s => exact ⟨hx, rfl⟩
  | @cons s s₁ s₂ e es hstep _ ih =>
      obtain ⟨hx₁, hdata⟩ := h.keeps s e s₁ hstep hI (hB e List.mem_cons_self) x hx
      obtain ⟨hx₂, hrest⟩ := ih (h.inv s e s₁ hstep hI) (fun e' he' => hB e' (List.mem_cons_of_mem e he')) hx₁
      refine ⟨hx₂, hrest.trans ?_⟩
      rw [written, hdata]
      cases written put es x <;> rfl

/-- **A party that does nothing** finds its memory as it left it. -/
theorem Owner.untouched (h : Owner step I B own data put) {s s' : σ} {es : List ε} (hrun : Run step s es s')
    (hI : I s) (hB : ∀ e ∈ es, B e) (hput : ∀ e ∈ es, ∀ x, put e x = none) {x : α} (hx : x ∈ own s) :
    x ∈ own s' ∧ data s' x = data s x := by
  have hread := h.read_back hrun hI hB hx
  rw [written_eq_none fun e he => hput e he x] at hread
  exact hread

end Ownership
