import Mathlib.Tactic

/-!
# Null-terminated chains

A singly linked list threaded through its own nodes is a successor function `next` together with a
distinguished `null`.  `IsChain next null p l` says that following `next` from the pointer `p`
visits exactly the nodes `l`, in that order, and then stops at `null`.

A chain is determined by its first pointer (`IsChain.unique`), never repeats a node
(`IsChain.nodup`: a repeated node would repeat forever), and survives any change of `next` away
from its own nodes (`IsChain.congr`).
-/

namespace LinkedChain

variable {α : Type*}

/-- Following `next` from `p` visits exactly `l` and then reaches `null`. -/
def IsChain (next : α → α) (null : α) : α → List α → Prop
  | p, [] => p = null
  | p, a :: l => p = a ∧ a ≠ null ∧ IsChain next null (next a) l

variable {next next' : α → α} {null p : α} {l l' : List α}

@[simp] lemma isChain_nil : IsChain next null p [] ↔ p = null := Iff.rfl

@[simp] lemma isChain_cons {a : α} :
    IsChain next null p (a :: l) ↔ p = a ∧ a ≠ null ∧ IsChain next null (next a) l := Iff.rfl

lemma IsChain.null_notMem : ∀ {p : α} {l : List α}, IsChain next null p l → null ∉ l
  | _, [], _ => List.not_mem_nil
  | _, _ :: _, ⟨_, ha, hl⟩ => by
      rw [List.mem_cons, not_or]
      exact ⟨Ne.symm ha, hl.null_notMem⟩

/-- The first pointer determines the whole chain. -/
lemma IsChain.unique : ∀ {p : α} {l l' : List α},
    IsChain next null p l → IsChain next null p l' → l = l'
  | _, [], [], _, _ => rfl
  | _, [], _ :: _, h, ⟨h', hne, _⟩ => absurd (h'.symm.trans h) hne
  | _, _ :: _, [], ⟨h, hne, _⟩, h' => absurd (h.symm.trans h') hne
  | _, a :: l, b :: l', ⟨ha, _, hl⟩, ⟨hb, _, hl'⟩ => by
      obtain rfl : a = b := ha.symm.trans hb
      rw [hl.unique hl']

/-- Conversely, the nodes determine the first pointer. -/
lemma IsChain.head_eq : ∀ {l : List α} {p p' : α},
    IsChain next null p l → IsChain next' null p' l → p = p'
  | [], _, _, h, h' => h.trans h'.symm
  | _ :: _, _, _, h, h' => h.1.trans h'.1.symm

/-- A chain depends on the successor of its own nodes only. -/
lemma IsChain.congr : ∀ {p : α} {l : List α}, (∀ a ∈ l, next a = next' a) →
    IsChain next null p l → IsChain next' null p l
  | _, [], _, h => h
  | _, a :: l, hag, ⟨hp, ha, hl⟩ => by
      refine ⟨hp, ha, ?_⟩
      rw [← hag a List.mem_cons_self]
      exact hl.congr fun b hb => hag b (List.mem_cons_of_mem _ hb)

/-- The suffix of a chain from one of its nodes on is the chain of that node's pointer. -/
lemma IsChain.drop : ∀ {p a : α} {l₁ l₂ : List α},
    IsChain next null p (l₁ ++ a :: l₂) → IsChain next null a (a :: l₂)
  | _, _, [], _, ⟨_, ha, hl⟩ => ⟨rfl, ha, hl⟩
  | _, _, _ :: _, _, ⟨_, _, hl⟩ => hl.drop

/-- What hangs behind a node of a chain. -/
lemma IsChain.behind {a : α} {l₁ l₂ : List α} (hc : IsChain next null p (l₁ ++ [a] ++ l₂)) :
    IsChain next null (next a) l₂ := by
  rw [List.append_assoc, List.singleton_append] at hc
  exact hc.drop.2.2

/-- Cut behind the node `a` and continued from its new successor. -/
lemma IsChain.splice {a : α} {l₂ l₃ : List α} : ∀ {p : α} {l₁ : List α},
    IsChain next null p (l₁ ++ [a] ++ l₂) → (∀ q ∈ l₁, next q = next' q) →
      IsChain next' null (next' a) l₃ → IsChain next' null p (l₁ ++ [a] ++ l₃)
  | _, [], ⟨hp, ha, _⟩, _, hrest => ⟨hp, ha, hrest⟩
  | _, b :: l₁, ⟨hp, hb, hl⟩, hag, hrest => by
      refine ⟨hp, hb, ?_⟩
      rw [← hag b List.mem_cons_self]
      exact IsChain.splice hl (fun q hq => hag q (List.mem_cons_of_mem _ hq)) hrest

/-- **A chain never repeats a node.**  The suffixes at two occurrences of one node would be equal,
hence of equal length. -/
lemma IsChain.nodup : ∀ {p : α} {l : List α}, IsChain next null p l → l.Nodup
  | _, [], _ => List.nodup_nil
  | _, a :: l, ⟨hp, ha, hl⟩ => by
      refine List.nodup_cons.mpr ⟨fun hmem => ?_, hl.nodup⟩
      obtain ⟨l₁, l₂, rfl⟩ := List.append_of_mem hmem
      have htail := (hl.drop).2.2
      have hlen := congrArg List.length (hl.unique htail)
      simp only [List.length_append, List.length_cons] at hlen
      omega

end LinkedChain
