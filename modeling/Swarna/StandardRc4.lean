import Mathlib.Logic.Equiv.Basic
import Swarna.Rc4

/-!
# Swarna.StandardRc4

The generator of `attestation_lib.c` against RC4 as it is defined. Both loops of the program add
the index `j` to itself where RC4 adds the s-box entry to it (`j += j`).

* `low_rc4Next`: the program's generator in the terms of RC4: one byte for each index.
* `rc4Swap_inj`: from a permutation, exchanges with different partners lead to different s-boxes.
* `first_bytes_iff`: whatever the key, the program has left RC4 after three bytes. Up to two bytes
  it agrees when the key schedules do and the doubled index is still 0.
* `zero_key_differs`: the s-boxes for the key of four zeros.
-/

namespace Swarna

/-! ## RC4 -/

namespace StandardRc4

structure State where
  i : BitVec 8
  j : BitVec 8
  s : Sbox

def identity : Sbox := Vector.ofFn fun i => BitVec.ofNat 8 i

/-- The key schedule, with `n` rounds to go. -/
def schedule {length : Nat} [NeZero length] (key : Vector (BitVec 8) length) :
    (n : Nat) → (i : Nat) → (j : BitVec 8) → Sbox → Sbox
  | 0, _, _, s => s
  | n + 1, i, j, s =>
    have := Rc4.mod_lt_length length i
    let j := j + s.get (BitVec.ofNat 8 i) + key[i % length]
    schedule key n (i + 1) j (Rc4.rc4Swap s (BitVec.ofNat 8 i) j)

def start {length : Nat} [NeZero length] (key : Vector (BitVec 8) length) : State :=
  ⟨0, 0, schedule key 256 0 0 identity⟩

def next (g : State) : BitVec 8 × State :=
  let i := g.i + 1
  let j := g.j + g.s.get i
  let s := Rc4.rc4Swap g.s i j
  (s.get (s.get i + s.get j), ⟨i, j, s⟩)

end StandardRc4

/-- The next `n` bytes and the state after them. -/
def keystream {γ : Type} (next : γ → BitVec 8 × γ) : (n : Nat) → γ → List (BitVec 8) × γ
  | 0, g => ([], g)
  | n + 1, g =>
    let r := keystream next n (next g).2
    ((next g).1 :: r.1, r.2)

/-! ## S-boxes -/

namespace Rc4

theorem get_rc4Swap (s : Sbox) (i j k : BitVec 8) :
    (rc4Swap s i j).get k = s.get (Equiv.swap i j k) := by
  rw [Equiv.swap_apply_def]
  simp only [rc4Swap, Sbox.get, Vector.getElem_set]
  by_cases hj : k = j
  · subst hj
    by_cases hi : k = i
    · simp [hi]
    · simp [hi]
  · have hj' : ¬ j.toNat = k.toNat := fun e => hj (BitVec.eq_of_toNat_eq e.symm)
    by_cases hi : k = i
    · subst hi
      simp [hj']
    · have hi' : ¬ i.toNat = k.toNat := fun e => hi (BitVec.eq_of_toNat_eq e.symm)
      simp [hi, hj, hi', hj']

/-- No entry occurs twice. -/
def Permutes (s : Sbox) : Prop := Function.Injective s.get

theorem Permutes.rc4Swap {s : Sbox} (h : Permutes s) (i j : BitVec 8) :
    Permutes (rc4Swap s i j) := by
  intro a b hab
  rw [get_rc4Swap, get_rc4Swap] at hab
  exact (Equiv.swap i j).injective (h hab)

theorem rc4Swap_inj {s : Sbox} (h : Permutes s) {i j j' : BitVec 8}
    (hs : Rc4.rc4Swap s i j = Rc4.rc4Swap s i j') : j = j' := by
  have hget := congrArg (fun s => Sbox.get s i) hs
  simp only [get_rc4Swap, Equiv.swap_apply_left] at hget
  exact h hget

theorem permutes_identity : Permutes StandardRc4.identity := by
  intro a b h
  simpa [StandardRc4.identity, Sbox.get] using h

theorem permutes_schedule {length : Nat} [NeZero length] (key : Vector (BitVec 8) length)
    (n i : Nat) (j : BitVec 8) {s : Sbox} (h : Permutes s) :
    Permutes (StandardRc4.schedule key n i j s) := by
  induction n generalizing i j s with
  | zero => exact h
  | succ n ih => exact ih _ _ (h.rc4Swap _ _)

/-! ## The program's generator in bytes -/

/-- The low bytes of the indices. -/
def low (g : Rc4) : StandardRc4.State := ⟨g.i.setWidth 8, g.j.setWidth 8, g.s⟩

/-- RC4, with its index doubled in each step. -/
def doubled (g : StandardRc4.State) : BitVec 8 × StandardRc4.State :=
  let i := g.i + 1
  let j := g.j + g.j + g.s.get i
  let s := rc4Swap g.s i j
  (s.get (s.get i + s.get j), ⟨i, j, s⟩)

theorem setWidth_mod_256 (x : BitVec 16) : (x % 256).setWidth 8 = x.setWidth 8 := by
  apply BitVec.eq_of_toNat_eq
  have h256 : (256 : BitVec 16).toNat = 256 := rfl
  rw [BitVec.toNat_setWidth, BitVec.toNat_setWidth, BitVec.toNat_umod, h256]
  omega

theorem low_rc4Next (g : Rc4) :
    doubled (low g) = ((rc4Next g).1, low (rc4Next g).2) := by
  have hi : ((g.i + 1) % 256).setWidth 8 = g.i.setWidth 8 + 1 := by
    rw [setWidth_mod_256, BitVec.setWidth_add _ _ (by omega)]
    rfl
  have hj : ((g.j + g.j + (g.s.get (g.i.setWidth 8 + 1)).setWidth 16) % 256).setWidth 8 =
      g.j.setWidth 8 + g.j.setWidth 8 + g.s.get (g.i.setWidth 8 + 1) := by
    rw [setWidth_mod_256, BitVec.setWidth_add _ _ (by omega), BitVec.setWidth_add _ _ (by omega),
      BitVec.setWidth_setWidth_of_le _ (by omega), BitVec.setWidth_eq]
  simp only [doubled, rc4Next, low, hi, hj]

theorem keystream_low (g : Rc4) (n : Nat) : keystream doubled n (low g) =
    ((keystream rc4Next n g).1, low (keystream rc4Next n g).2) := by
  induction n generalizing g with
  | zero => rfl
  | succ n ih =>
    rw [keystream, keystream, low_rc4Next, ih]

/-- As long as the index is 0, doubling it does nothing. -/
theorem doubled_of_zero {a : StandardRc4.State} (h : a.j = 0) :
    doubled a = StandardRc4.next a := by
  simp [doubled, StandardRc4.next, h]

/-- Otherwise the exchange has another partner. -/
theorem doubled_sbox_iff {a : StandardRc4.State} (h : Permutes a.s) :
    (doubled a).2.s = (StandardRc4.next a).2.s ↔ a.j = 0 := by
  constructor
  · intro hs
    have hj : a.j + a.j + a.s.get (a.i + 1) = a.j + a.s.get (a.i + 1) := rc4Swap_inj h hs
    have hjj : a.j + a.j = a.j + 0#8 :=
      ((BitVec.add_left_inj _).1 hj).trans (BitVec.add_zero _).symm
    exact (BitVec.add_right_inj _).1 hjj
  · intro hj
    rw [doubled_of_zero hj]

/-! ## The first bytes -/

section Agreement

variable {length : Nat} [NeZero length] (key : Vector (BitVec 8) length)

/-- Keyed with `key`, the program returns the first `n` bytes of RC4, and its s-box is that of RC4
after them. -/
def IsRc4 (g : Rc4) (n : Nat) : Prop :=
  (keystream rc4Next n (rc4Init key g)).1 =
      (keystream StandardRc4.next n (StandardRc4.start key)).1 ∧
    (keystream rc4Next n (rc4Init key g)).2.s =
      (keystream StandardRc4.next n (StandardRc4.start key)).2.s

variable {key} {g : Rc4}

theorem permutes_start : Permutes (StandardRc4.start key).s := by
  rw [StandardRc4.start]
  apply permutes_schedule
  exact permutes_identity

/-- Both generators start alike, as the index does not matter yet. -/
theorem doubled_start :
    doubled (StandardRc4.start key) = StandardRc4.next (StandardRc4.start key) := by
  apply doubled_of_zero
  unfold StandardRc4.start
  rfl

/-- After the first byte the index is entry 1. -/
theorem next_start_j :
    (StandardRc4.next (StandardRc4.start key)).2.j = (StandardRc4.start key).s.get 1 := by
  unfold StandardRc4.start
  exact BitVec.zero_add _

theorem isRc4_zero : IsRc4 key g 0 ↔ (rc4Init key g).s = (StandardRc4.start key).s :=
  ⟨fun h => h.2, fun h => ⟨rfl, h⟩⟩

/-- With the same s-box to start with, both are the same machine but for the doubled index. -/
theorem isRc4_iff (hi : g.i = 0) (hj : g.j = 0)
    (hs : (rc4Init key g).s = (StandardRc4.start key).s) (n : Nat) :
    IsRc4 key g n ↔ (keystream doubled n (StandardRc4.start key)).1 =
        (keystream StandardRc4.next n (StandardRc4.start key)).1 ∧
      (keystream doubled n (StandardRc4.start key)).2.s =
        (keystream StandardRc4.next n (StandardRc4.start key)).2.s := by
  have hlow : low (rc4Init key g) = StandardRc4.start key := by
    have hi' : (rc4Init key g).i = 0 := by rw [rc4Init, hi]
    have hj' : (rc4Init key g).j = 0 := by rw [rc4Init, hj]
    rw [low, hi', hj', hs, StandardRc4.start]
    congr 1
  rw [← hlow, keystream_low, hlow]
  exact Iff.rfl

theorem isRc4_one (hi : g.i = 0) (hj : g.j = 0)
    (hs : (rc4Init key g).s = (StandardRc4.start key).s) : IsRc4 key g 1 := by
  rw [isRc4_iff hi hj hs, keystream, keystream, doubled_start]
  exact ⟨rfl, rfl⟩

theorem isRc4_two (hi : g.i = 0) (hj : g.j = 0)
    (hs : (rc4Init key g).s = (StandardRc4.start key).s) :
    IsRc4 key g 2 ↔ (StandardRc4.start key).s.get 1 = 0 := by
  let a := (StandardRc4.next (StandardRc4.start key)).2
  have ha : Permutes a.s := permutes_start.rc4Swap _ _
  have haj : a.j = (StandardRc4.start key).s.get 1 := next_start_j
  rw [isRc4_iff hi hj hs, ← haj]
  simp only [keystream, doubled_start]
  constructor
  · exact fun h => (doubled_sbox_iff ha).1 h.2
  · intro h
    rw [doubled_of_zero (a := a) h]
    exact ⟨rfl, rfl⟩

/-- Two steps with index 0 exchange entries 1 and 0, so the index of the third is not 0. -/
theorem not_isRc4_three (hi : g.i = 0) (hj : g.j = 0)
    (hs : (rc4Init key g).s = (StandardRc4.start key).s)
    (hone : (StandardRc4.start key).s.get 1 = 0) : ¬ IsRc4 key g 3 := by
  let a := (StandardRc4.next (StandardRc4.start key)).2
  let a' := (StandardRc4.next a).2
  have haj : a.j = 0 := next_start_j.trans hone
  have hsecond : doubled a = StandardRc4.next a := doubled_of_zero haj
  have ha : Permutes a.s := permutes_start.rc4Swap _ _
  have ha' : Permutes a'.s := ha.rc4Swap _ _
  rw [isRc4_iff hi hj hs]
  simp only [keystream, doubled_start]
  rw [show doubled (StandardRc4.next (StandardRc4.start key)).2 = _ from hsecond]
  intro h
  have haj' : a'.j = 0 := (doubled_sbox_iff ha').1 h.2
  have htwo : a.s.get 2 = 0 := by
    have hadd : a'.j = 0#8 + a.s.get 2 := congrArg (· + a.s.get 2) haj
    rw [← haj', hadd, BitVec.zero_add]
  have hzero : a.s.get 0 = 0 := by
    have hswap : a.s = rc4Swap (StandardRc4.start key).s 1 a.j := rfl
    rw [hswap, get_rc4Swap, haj, Equiv.swap_apply_right, hone]
  exact absurd (ha (htwo.trans hzero.symm)) (by decide)

theorem first_bytes_iff (hi : g.i = 0) (hj : g.j = 0) :
    (¬ ∀ n, IsRc4 key g n) ∧ ∀ N, (∀ n ≤ N, IsRc4 key g n) ↔
      N ≤ 2 ∧ (rc4Init key g).s = (StandardRc4.start key).s ∧
        (N = 2 → (StandardRc4.start key).s.get 1 = 0) := by
  have hthree : ¬ ∀ n ≤ 3, IsRc4 key g n := by
    intro h
    have hs := isRc4_zero.1 (h 0 (by omega))
    have hone := (isRc4_two hi hj hs).1 (h 2 (by omega))
    exact not_isRc4_three hi hj hs hone (h 3 (by omega))
  refine ⟨fun h => hthree fun n _ => h n, fun N => ⟨fun h => ?_, ?_⟩⟩
  · have hs := isRc4_zero.1 (h 0 (by omega))
    refine ⟨?_, hs, fun hN => (isRc4_two hi hj hs).1 (h 2 (by omega))⟩
    by_contra hN
    exact hthree fun n hn => h n (by omega)
  · rintro ⟨hN, hs, hone⟩ n hn
    match n with
    | 0 => exact isRc4_zero.2 hs
    | 1 => exact isRc4_one hi hj hs
    | 2 => exact (isRc4_two hi hj hs).2 (hone (by omega))
    | n + 3 => omega

end Agreement

theorem first_bytes_key : ¬ ∀ n, IsRc4 #v[1, 2, 3, 4] Rc4.start n :=
  (first_bytes_iff rfl rfl).1

end Rc4

/-! ## A run in packed form -/

namespace Packed

/-- `StandardRc4.schedule` with the s-box in one number. -/
def schedule (key : Vector (BitVec 8) 4) : (n : Nat) → (i : Nat) → (j : Nat) → (S : Nat) → Nat
  | 0, _, _, S => S
  | n + 1, i, j, S =>
    have := mod_four_lt i
    let j := (j + byteAt S i + key[i % 4].toNat) % 256
    schedule key n (i + 1) j (swap S i j)

theorem holds_schedule (key : Vector (BitVec 8) 4) :
    ∀ (n i : Nat) (j : BitVec 8) (S : Nat) (s : Sbox), i + n ≤ 256 → Holds S s →
      Holds (schedule key n i j.toNat S) (StandardRc4.schedule key n i j s) := by
  intro n
  induction n with
  | zero => intro i j S s _ h; exact h
  | succ n ih =>
    intro i j S s hi h
    let j' := j + s.get (BitVec.ofNat 8 i) + key[i % 4]
    have hj : (j.toNat + byteAt S i + key[i % 4].toNat) % 256 = j'.toNat := by
      simp only [j', h.byteAt_eq (show i < 256 by omega), BitVec.toNat_add]
      omega
    simp only [schedule, hj, StandardRc4.schedule]
    exact ih (i + 1) j' _ _ (by omega) (h.swap_ofNat (by omega) j')

end Packed

namespace Rc4

theorem zero_key_differs : (rc4Init #v[0, 0, 0, 0] Rc4.start).s.get 1 = 225 ∧
    (StandardRc4.start #v[0, 0, 0, 0]).s.get 1 = 35 ∧ ¬ IsRc4 #v[0, 0, 0, 0] Rc4.start 0 := by
  have hprogram : (rc4Init #v[0, 0, 0, 0] Rc4.start).s.get 1 = 225 := by
    have hs := Packed.holds_shuffle #v[0, 0, 0, 0] 256 0 0 _ _ (by omega) Packed.holds_identity 1
    apply BitVec.eq_of_toNat_eq
    rw [rc4Init, ← hs]
    decide +kernel
  have hrc4 : (StandardRc4.start #v[0, 0, 0, 0]).s.get 1 = 35 := by
    have hs := Packed.holds_schedule #v[0, 0, 0, 0] 256 0 0 _ _ (by omega)
      Packed.holds_identity 1
    apply BitVec.eq_of_toNat_eq
    rw [StandardRc4.start, StandardRc4.identity, ← hs]
    decide +kernel
  refine ⟨hprogram, hrc4, fun h => ?_⟩
  rw [isRc4_zero.1 h, hrc4] at hprogram
  exact absurd hprogram (by decide)

end Rc4
end Swarna
