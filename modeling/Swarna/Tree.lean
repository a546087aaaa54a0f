import Swarna.Xor
import Mathlib.Data.Finset.Union
import Mathlib.Order.Lattice.Nat
import Mathlib.Data.Finset.Lattice.Fold
import Mathlib.Data.Finset.Lattice.Union
import Mathlib.Logic.Relation

/-!
# Swarna.Tree

Finite rooted trees by parent pointers (forests, strictly: a root is a node without a parent). The
rank decreases towards the root, as a routing rank does.

* `children_first`: induction from the leaves up.
* `subtree_eq`, `disjoint_subtree`, `notMem_subtree`: a subtree is its root and the disjoint
  subtrees of the root's children.
* `xorOver_subtree`, `sup_subtree`: aggregates over a subtree, from those of the children.
-/

namespace Swarna

structure Tree (ι : Type) where
  parent : ι → Option ι
  rank : ι → Nat
  rank_lt : ∀ {c p : ι}, parent c = some p → rank p < rank c

namespace Tree

variable {ι : Type} (T : Tree ι)

def IsChild (c p : ι) : Prop := T.parent c = some p

theorem rank_le {m n : ι} (h : Relation.ReflTransGen T.IsChild m n) : T.rank n ≤ T.rank m := by
  induction h with
  | refl => exact Nat.le_refl _
  | tail _ hc ih => exact Nat.le_trans (Nat.le_of_lt (T.rank_lt hc)) ih

variable [Fintype ι]

/-- What holds of a node whenever it holds of its children holds of all nodes. -/
theorem children_first {P : ι → Prop} (h : ∀ n, (∀ c, T.parent c = some n → P c) → P n) (n : ι) :
    P n := by
  -- the distance to the greatest rank decreases from a node to its children
  induction hk : Finset.univ.sup T.rank - T.rank n using Nat.strong_induction_on generalizing n with
  | _ k ih =>
    refine h n fun c hc => ih _ ?_ c rfl
    have h₁ := T.rank_lt hc
    have h₂ : T.rank c ≤ Finset.univ.sup T.rank := Finset.le_sup (Finset.mem_univ c)
    omega

open Classical in
/-- The node and everything below it. -/
noncomputable def subtree (n : ι) : Finset ι :=
  Finset.univ.filter fun m => Relation.ReflTransGen T.IsChild m n

variable {T}

theorem mem_subtree {m n : ι} : m ∈ T.subtree n ↔ Relation.ReflTransGen T.IsChild m n := by
  simp [subtree]

theorem self_mem_subtree (n : ι) : n ∈ T.subtree n := mem_subtree.2 .refl

theorem subtree_subset {c n : ι} (h : T.parent c = some n) : T.subtree c ⊆ T.subtree n :=
  fun _ hm => mem_subtree.2 ((mem_subtree.1 hm).tail h)

theorem notMem_subtree {c n : ι} (h : T.parent c = some n) : n ∉ T.subtree c := by
  intro hn
  have h₁ := T.rank_le (mem_subtree.1 hn)
  have h₂ := T.rank_lt h
  omega

theorem disjoint_subtree {c d n : ι} (hc : T.parent c = some n) (hd : T.parent d = some n)
    (hne : c ≠ d) : Disjoint (T.subtree c) (T.subtree d) := by
  have hunique : Relator.RightUnique T.IsChild := by
    intro a b b' h h'
    simp only [IsChild] at h h'
    rw [h] at h'
    exact Option.some.inj h'
  -- of two siblings neither is above the other
  have hapart : ∀ {a b : ι}, T.parent a = some n → T.parent b = some n → a ≠ b →
      ¬ Relation.ReflTransGen T.IsChild a b := by
    intro a b ha hb hab h
    rcases Relation.ReflTransGen.cases_head h with heq | ⟨p, hp, hpb⟩
    · exact hab heq
    · simp only [IsChild] at hp
      rw [ha] at hp
      cases hp
      have h₁ := T.rank_le hpb
      have h₂ := T.rank_lt hb
      omega
  rw [Finset.disjoint_left]
  intro m hmc hmd
  rcases Relation.ReflTransGen.total_of_right_unique hunique (mem_subtree.1 hmc)
    (mem_subtree.1 hmd) with h | h
  · exact hapart hc hd hne h
  · exact hapart hd hc hne.symm h

variable [DecidableEq ι]

variable (T) in
def children (n : ι) : Finset ι := Finset.univ.filter fun c => T.parent c = some n

@[simp] theorem mem_children {c n : ι} : c ∈ T.children n ↔ T.parent c = some n := by
  simp [children]

theorem subtree_eq (n : ι) : T.subtree n = insert n ((T.children n).biUnion T.subtree) := by
  ext m
  simp only [Finset.mem_insert, Finset.mem_biUnion, mem_children, mem_subtree]
  constructor
  · intro h
    rcases Relation.ReflTransGen.cases_tail h with heq | ⟨c, hmc, hc⟩
    · exact .inl heq.symm
    · exact .inr ⟨c, hc, hmc⟩
  · rintro (rfl | ⟨c, hc, hmc⟩)
    · exact .refl
    · exact hmc.tail hc

theorem subtree_leaf {n : ι} (h : ∀ c, T.parent c ≠ some n) : T.subtree n = {n} := by
  have : T.children n = ∅ := by
    ext c
    simp [h c]
  rw [subtree_eq, this]
  simp

theorem notMem_biUnion_subtree (n : ι) : n ∉ (T.children n).biUnion T.subtree := by
  simp only [Finset.mem_biUnion, mem_children, not_exists, not_and]
  exact fun c hc => notMem_subtree hc

theorem pairwiseDisjoint_subtree (n : ι) :
    (T.children n : Set ι).PairwiseDisjoint T.subtree := by
  intro c hc d hd hne
  exact disjoint_subtree (mem_children.1 (by simpa using hc)) (mem_children.1 (by simpa using hd))
    hne

theorem xorOver_subtree {w : Nat} (f : ι → BitVec w) (n : ι) :
    xorOver (T.subtree n) f =
      f n ^^^ xorOver (T.children n) fun c => xorOver (T.subtree c) f := by
  rw [subtree_eq, xorOver_insert (notMem_biUnion_subtree n),
    xorOver_biUnion (pairwiseDisjoint_subtree n)]

theorem sup_subtree (f : ι → Nat) (n : ι) :
    (T.subtree n).sup f = f n ⊔ (T.children n).sup fun c => (T.subtree c).sup f := by
  rw [subtree_eq, Finset.sup_insert, Finset.sup_biUnion]

end Tree

end Swarna
