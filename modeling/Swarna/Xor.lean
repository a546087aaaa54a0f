import Mathlib.Data.BitVec
import Mathlib.Data.Finset.Dedup
import Mathlib.Data.Finset.Union
import Mathlib.Data.Fintype.Basic

/-!
# Swarna.Xor

XOR aggregates of fixed-width words: of a list (`xorAll`) and of a function over a finite set
(`xorOver`). Both forget the order of their terms (`xorAll_perm`, `xorOver_eq`), and both see a
change of exactly one term (`xorOver_ne`), which is what an aggregate of checksums is for.
-/

namespace Swarna

/-- The XOR of a list of words. -/
def xorAll {w : Nat} (l : List (BitVec w)) : BitVec w := l.foldr (· ^^^ ·) 0

@[simp] theorem xorAll_nil {w : Nat} : xorAll ([] : List (BitVec w)) = 0 := rfl

@[simp] theorem xorAll_cons {w : Nat} (a : BitVec w) (l : List (BitVec w)) :
    xorAll (a :: l) = a ^^^ xorAll l := rfl

@[simp] theorem xorAll_append {w : Nat} (l m : List (BitVec w)) :
    xorAll (l ++ m) = xorAll l ^^^ xorAll m := by
  induction l with
  | nil => simp
  | cons a l ih => simp [ih, BitVec.xor_assoc]

theorem xorAll_flatMap {α : Type} {w : Nat} (f : α → List (BitVec w)) (l : List α) :
    xorAll (l.flatMap f) = xorAll (l.map fun x => xorAll (f x)) := by
  induction l with
  | nil => rfl
  | cons a l ih => simp [ih]

theorem xorAll_perm {w : Nat} {l m : List (BitVec w)} (h : l.Perm m) : xorAll l = xorAll m := by
  induction h with
  | nil => rfl
  | cons a _ ih => simp [ih]
  | swap a b l => simp [← BitVec.xor_assoc, BitVec.xor_comm]
  | trans _ _ ih₁ ih₂ => rw [ih₁, ih₂]

theorem xor_left_cancel {w : Nat} {a b c : BitVec w} (h : a ^^^ b = a ^^^ c) : b = c := by
  have := congrArg (a ^^^ ·) h
  simpa [← BitVec.xor_assoc] using this

section Finite

variable {ι : Type} {w : Nat}

/-- The XOR of `f` over a finite set. -/
noncomputable def xorOver (s : Finset ι) (f : ι → BitVec w) : BitVec w := xorAll (s.toList.map f)

/-- Any enumeration of the set, in any order, computes the aggregate. -/
theorem xorOver_eq {s : Finset ι} {l : List ι} (hn : l.Nodup) (hm : ∀ x, x ∈ l ↔ x ∈ s)
    (f : ι → BitVec w) : xorOver s f = xorAll (l.map f) := by
  refine xorAll_perm (List.Perm.map f ?_)
  exact (List.perm_ext_iff_of_nodup s.nodup_toList hn).2 fun x => by simp [hm]

@[simp] theorem xorOver_singleton (a : ι) (f : ι → BitVec w) : xorOver {a} f = f a := by
  rw [xorOver_eq (l := [a]) (by simp) (by simp)]
  simp

theorem xorOver_congr {s : Finset ι} {f g : ι → BitVec w} (h : ∀ x ∈ s, f x = g x) :
    xorOver s f = xorOver s g := by
  unfold xorOver
  rw [List.map_congr_left fun x hx => h x (Finset.mem_toList.1 hx)]

theorem xorOver_insert [DecidableEq ι] {s : Finset ι} {a : ι} (ha : a ∉ s) (f : ι → BitVec w) :
    xorOver (insert a s) f = f a ^^^ xorOver s f := by
  rw [xorOver_eq (l := a :: s.toList) (by simp [ha, Finset.nodup_toList]) (by simp)]
  simp [xorOver]

/-- The aggregate over a union of disjoint sets, set by set. -/
theorem xorOver_biUnion {κ : Type} [DecidableEq ι] {s : Finset κ} {t : κ → Finset ι}
    (hd : (s : Set κ).PairwiseDisjoint t) (f : ι → BitVec w) :
    xorOver (s.biUnion t) f = xorOver s fun k => xorOver (t k) f := by
  have hn : (s.toList.flatMap fun k => (t k).toList).Nodup := by
    rw [List.nodup_flatMap]
    refine ⟨fun k _ => (t k).nodup_toList, ?_⟩
    refine s.nodup_toList.imp_of_mem fun {a b} ha hb hab => ?_
    rw [Function.onFun_apply, List.disjoint_left]
    intro x hxa hxb
    exact Finset.disjoint_left.1 (hd (Finset.mem_toList.1 ha) (Finset.mem_toList.1 hb) hab)
      (Finset.mem_toList.1 hxa) (Finset.mem_toList.1 hxb)
  rw [xorOver_eq hn (by simp), List.map_flatMap, xorAll_flatMap]
  rfl

/-- An aggregate changes when exactly one of its terms changes. -/
theorem xorOver_ne [DecidableEq ι] {s : Finset ι} {f g : ι → BitVec w} {a : ι} (ha : a ∈ s)
    (hne : f a ≠ g a) (hsame : ∀ x ∈ s, x ≠ a → f x = g x) : xorOver s f ≠ xorOver s g := by
  intro h
  rw [← Finset.insert_erase ha, xorOver_insert (Finset.notMem_erase a s),
    xorOver_insert (Finset.notMem_erase a s)] at h
  have hrest : xorOver (s.erase a) f = xorOver (s.erase a) g :=
    xorOver_congr fun x hx => hsame x (Finset.mem_of_mem_erase hx) (Finset.ne_of_mem_erase hx)
  rw [hrest, BitVec.xor_comm (f a), BitVec.xor_comm (g a)] at h
  exact hne (xor_left_cancel h)

end Finite

end Swarna
