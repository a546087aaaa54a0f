import Mathlib.Data.BitVec
import Mathlib.Data.Nat.Bitwise

/-!
# Swarna.Rc4

The pseudorandom generator of `attestation_lib.c`, an RC4 that doubles its index `j` at each step,
and its view as a `Generator`.

`Packed` is the same generator with the s-box in one number, for runs on fixed inputs:
`packed_simulates` says that it draws the same bytes.
-/

namespace Swarna

/-! ## Generators -/

/-- A generator of bytes, started from a key of four bytes. -/
structure Generator (γ : Type) where
  seed : Vector (BitVec 8) 4 → γ → γ
  next : γ → BitVec 8 × γ

namespace Generator

variable {γ δ : Type}

/-- States related by `R` draw the same bytes, and stay related. -/
structure Simulates (R : γ → δ → Prop) (G : Generator γ) (H : Generator δ) : Prop where
  seed : ∀ {a b}, R a b → ∀ key, R (G.seed key a) (H.seed key b)
  next : ∀ {a b}, R a b → (G.next a).1 = (H.next b).1 ∧ R (G.next a).2 (H.next b).2

theorem Simulates.refl (G : Generator γ) : Simulates Eq G G where
  seed := by rintro a _ rfl key; rfl
  next := by rintro a _ rfl; exact ⟨rfl, rfl⟩

/-- The state after `n` bytes. -/
def discard (G : Generator γ) : (n : Nat) → γ → γ
  | 0, g => g
  | n + 1, g => discard G n (G.next g).2

theorem discard_of_next {G : Generator γ} {g g' : γ} (h : G.next g = G.next g') (n : Nat) :
    G.discard (n + 1) g = G.discard (n + 1) g' := by
  rw [discard, discard, h]

theorem Simulates.discard {R : γ → δ → Prop} {G : Generator γ} {H : Generator δ}
    (h : Simulates R G H) (n : Nat) {a : γ} {b : δ} (hab : R a b) :
    R (G.discard n a) (H.discard n b) := by
  induction n generalizing a b with
  | zero => exact hab
  | succ n ih => exact ih (h.next hab).2

end Generator

/-! ## RC4 -/

/-- `rc4_s`. -/
abbrev Sbox := Vector (BitVec 8) 256

def Sbox.get (s : Sbox) (i : BitVec 8) : BitVec 8 :=
  have := i.isLt
  s[i.toNat]

/-- `rc4_i`, `rc4_j` and `rc4_s`. -/
structure Rc4 where
  i : BitVec 16
  j : BitVec 16
  s : Sbox

namespace Rc4

/-- The globals at start-up. -/
def start : Rc4 := ⟨0, 0, Vector.replicate 256 0⟩

def rc4Swap (s : Sbox) (i j : BitVec 8) : Sbox :=
  (s.set i.toNat (s.get j) i.isLt).set j.toNat (s.get i) j.isLt

theorem mod_lt_length (length : Nat) [NeZero length] (i : Nat) : i % length < length :=
  Nat.mod_lt i (Nat.pos_of_neZero length)

/-- The second loop of `rc4_init`, with `n` rounds to go. The local `j` is used modulo 256. -/
def rc4Shuffle {length : Nat} [NeZero length] (key : Vector (BitVec 8) length) :
    (n : Nat) → (i : Nat) → (j : BitVec 8) → Sbox → Sbox
  | 0, _, _, s => s
  | n + 1, i, j, s =>
    have := mod_lt_length length i
    let j := j + j + s.get (BitVec.ofNat 8 i) + key[i % length]
    rc4Shuffle key n (i + 1) j (rc4Swap s (BitVec.ofNat 8 i) j)

/-- `rc4_init`. It sets the s-box alone. -/
def rc4Init {length : Nat} [NeZero length] (key : Vector (BitVec 8) length) (g : Rc4) : Rc4 :=
  { g with s := rc4Shuffle key 256 0 0 (Vector.ofFn fun i => BitVec.ofNat 8 i) }

def rc4Next (g : Rc4) : BitVec 8 × Rc4 :=
  let i := (g.i + 1) % 256
  let j := (g.j + g.j + (g.s.get (i.setWidth 8)).setWidth 16) % 256
  let s := rc4Swap g.s (i.setWidth 8) (j.setWidth 8)
  (s.get (s.get (i.setWidth 8) + s.get (j.setWidth 8)), ⟨i, j, s⟩)

theorem toNat_256 : (256 : BitVec 16).toNat = 256 := rfl

/-- `rc4_next` doubles `rc4_j` before it uses it. -/
theorem rc4Next_doubled {g g' : Rc4} (hi : g.i = g'.i)
    (hj : (g.j + g.j) % 256 = (g'.j + g'.j) % 256) (hs : g.s = g'.s) :
    rc4Next g = rc4Next g' := by
  have hadd : ∀ x : BitVec 16, (g.j + g.j + x) % 256 = (g'.j + g'.j + x) % 256 := by
    intro x
    have h := congrArg BitVec.toNat hj
    apply BitVec.eq_of_toNat_eq
    simp only [BitVec.toNat_umod, BitVec.toNat_add, toNat_256] at h ⊢
    omega
  simp only [rc4Next, hi, hs, hadd]

def generator : Generator Rc4 := ⟨rc4Init, rc4Next⟩

end Rc4

/-! ## The s-box in one number -/

/-- Byte `i` of a number, the least significant first. -/
def byteAt (S i : Nat) : Nat := S >>> (8 * i) % 256

theorem byteAt_lt (S i : Nat) : byteAt S i < 256 := Nat.mod_lt _ (by omega)

theorem byteAt_xor (S T i : Nat) : byteAt (S ^^^ T) i = byteAt S i ^^^ byteAt T i := by
  simp only [byteAt, Nat.shiftRight_xor_distrib]
  exact Nat.xor_mod_two_pow (n := 8)

theorem testBit_byteAt (S i k : Nat) :
    (byteAt S i).testBit k = (decide (k < 8) && S.testBit (8 * i + k)) := by
  rw [byteAt, show 256 = 2 ^ 8 from rfl, Nat.testBit_mod_two_pow, Nat.testBit_shiftRight]

theorem byteAt_shiftLeft {x : Nat} (hx : x < 256) (i k : Nat) :
    byteAt (x <<< (8 * i)) k = if k = i then x else 0 := by
  apply Nat.eq_of_testBit_eq
  intro n
  rw [testBit_byteAt, Nat.testBit_shiftLeft]
  have hhigh : ∀ m, 8 ≤ m → x.testBit m = false := by
    intro m hm
    have hpow : 2 ^ 8 ≤ 2 ^ m := Nat.pow_le_pow_right (by omega) hm
    exact Nat.testBit_lt_two_pow (by omega)
  rcases Nat.lt_trichotomy k i with h | rfl | h
  · by_cases hn : n < 8
    · have : ¬ 8 * i ≤ 8 * k + n := by omega
      simp [this, Nat.ne_of_lt h]
    · simp [hn, Nat.ne_of_lt h]
  · by_cases hn : n < 8
    · simp [hn]
    · simp [hn, hhigh n (by omega)]
  · have : 8 ≤ 8 * k + n - 8 * i := by omega
    simp [hhigh _ this, Nat.ne_of_gt h]

/-- The generator with its s-box in one number, entry `k` at byte `k`. -/
structure Packed where
  i : Nat
  j : Nat
  s : Nat
  deriving DecidableEq, Repr

namespace Packed

/-- Exchange two bytes, by adding their difference to both. -/
def swap (S i j : Nat) : Nat :=
  S ^^^ (byteAt S i ^^^ byteAt S j) <<< (8 * i) ^^^ (byteAt S i ^^^ byteAt S j) <<< (8 * j)

theorem mod_four_lt (i : Nat) : i % 4 < 4 := Nat.mod_lt i (by decide)

def shuffle (key : Vector (BitVec 8) 4) : (n : Nat) → (i : Nat) → (j : Nat) → (S : Nat) → Nat
  | 0, _, _, S => S
  | n + 1, i, j, S =>
    have := mod_four_lt i
    let j := (j + j + byteAt S i + key[i % 4].toNat) % 256
    shuffle key n (i + 1) j (swap S i j)

/-- The number whose byte `k` is `k`, for `k < n`. -/
def identity : (n : Nat) → Nat
  | 0 => 0
  | n + 1 => identity n ^^^ n <<< (8 * n)

def next (p : Packed) : BitVec 8 × Packed :=
  let i := (p.i + 1) % 256
  let j := (p.j + p.j + byteAt p.s i) % 256
  let S := swap p.s i j
  (BitVec.ofNat 8 (byteAt S ((byteAt S i + byteAt S j) % 256)), ⟨i, j, S⟩)

def generator : Generator Packed :=
  ⟨fun key p => { p with s := shuffle key 256 0 0 (identity 256) }, next⟩

/-- A number that holds the entries of an s-box. -/
def Holds (S : Nat) (s : Sbox) : Prop := ∀ k : BitVec 8, byteAt S k.toNat = (s.get k).toNat

theorem byteAt_swap (S i j k : Nat) :
    byteAt (swap S i j) k = if k = j then byteAt S i else if k = i then byteAt S j
      else byteAt S k := by
  have hx : byteAt S i ^^^ byteAt S j < 256 :=
    Nat.xor_lt_two_pow (n := 8) (byteAt_lt S i) (byteAt_lt S j)
  rw [swap, byteAt_xor, byteAt_xor, byteAt_shiftLeft hx, byteAt_shiftLeft hx]
  by_cases hj : k = j
  · by_cases hi : k = i
    · simp [← hi, ← hj]
    · subst hj
      simp [hi, Nat.xor_comm (byteAt S i)]
  · by_cases hi : k = i
    · subst hi
      simp [hj]
    · simp [hi, hj]

theorem Holds.swap {S : Nat} {s : Sbox} (h : Holds S s) (i j : BitVec 8) :
    Holds (swap S i.toNat j.toNat) (Rc4.rc4Swap s i j) := by
  intro k
  rw [byteAt_swap, h i, h j, h k]
  simp only [Rc4.rc4Swap, Sbox.get, Vector.getElem_set]
  by_cases hj : k = j
  · simp [hj]
  · have hj' : ¬ k.toNat = j.toNat := fun e => hj (BitVec.eq_of_toNat_eq e)
    by_cases hi : k = i
    · subst hi
      simp [hj', Ne.symm hj']
    · have hi' : ¬ k.toNat = i.toNat := fun e => hi (BitVec.eq_of_toNat_eq e)
      simp [hi', hj', Ne.symm hi', Ne.symm hj']

theorem Holds.byteAt_eq {S : Nat} {s : Sbox} (h : Holds S s) {i : Nat} (hi : i < 256) :
    byteAt S i = (s.get (BitVec.ofNat 8 i)).toNat := by
  rw [← h, BitVec.toNat_ofNat, Nat.mod_eq_of_lt hi]

theorem Holds.swap_ofNat {S : Nat} {s : Sbox} (h : Holds S s) {i : Nat} (hi : i < 256)
    (j : BitVec 8) : Holds (Packed.swap S i j.toNat) (Rc4.rc4Swap s (BitVec.ofNat 8 i) j) := by
  have hswap := h.swap (BitVec.ofNat 8 i) j
  rwa [BitVec.toNat_ofNat, Nat.mod_eq_of_lt hi] at hswap

theorem byteAt_identity : ∀ n k, n ≤ 256 → k < n → byteAt (identity n) k = k := by
  have hpast : ∀ n k, n ≤ 256 → n ≤ k → byteAt (identity n) k = 0 := by
    intro n
    induction n with
    | zero => intro k _ _; simp [identity, byteAt]
    | succ n ih =>
      intro k hn hk
      rw [identity, byteAt_xor, ih k (by omega) (by omega), byteAt_shiftLeft (by omega),
        if_neg (by omega)]
      rfl
  intro n
  induction n with
  | zero => intro k _ hk; omega
  | succ n ih =>
    intro k hn hk
    rw [identity, byteAt_xor, byteAt_shiftLeft (by omega)]
    by_cases he : k = n
    · rw [if_pos he, he, hpast n n (by omega) (by omega), Nat.zero_xor]
    · rw [if_neg he, ih k (by omega) (by omega), Nat.xor_zero]

theorem holds_identity : Holds (identity 256) (Vector.ofFn fun i => BitVec.ofNat 8 i) := by
  intro k
  rw [byteAt_identity 256 k.toNat (by omega) k.isLt]
  simp [Sbox.get]

theorem holds_shuffle (key : Vector (BitVec 8) 4) :
    ∀ (n i : Nat) (j : BitVec 8) (S : Nat) (s : Sbox), i + n ≤ 256 → Holds S s →
      Holds (shuffle key n i j.toNat S) (Rc4.rc4Shuffle key n i j s) := by
  intro n
  induction n with
  | zero => intro i j S s _ h; exact h
  | succ n ih =>
    intro i j S s hi h
    let j' := j + j + s.get (BitVec.ofNat 8 i) + key[i % 4]
    have hj : (j.toNat + j.toNat + byteAt S i + key[i % 4].toNat) % 256 = j'.toNat := by
      simp only [j', h.byteAt_eq (show i < 256 by omega), BitVec.toNat_add]
      omega
    simp only [shuffle, hj, Rc4.rc4Shuffle]
    exact ih (i + 1) j' _ _ (by omega) (h.swap_ofNat (by omega) j')

/-- The packed form and the generator in the same state. -/
structure Related (p : Packed) (g : Rc4) : Prop where
  i : p.i = g.i.toNat
  j : p.j = g.j.toNat
  s : Holds p.s g.s

theorem simulates : Generator.Simulates Related generator Rc4.generator where
  seed := by
    intro p g h key
    have hs := holds_shuffle key 256 0 0 _ _ (by omega) holds_identity
    constructor
    · simp only [generator, Rc4.generator, Rc4.rc4Init, h.i]
    · simp only [generator, Rc4.generator, Rc4.rc4Init, h.j]
    · simp only [generator, Rc4.generator, Rc4.rc4Init]
      exact hs
  next := by
    intro p g h
    let i := (g.i + 1) % 256
    let j := (g.j + g.j + (g.s.get (i.setWidth 8)).setWidth 16) % 256
    have hi : (p.i + 1) % 256 = i.toNat := by
      simp only [i, h.i, BitVec.toNat_umod, BitVec.toNat_add, Rc4.toNat_256]
      have : (1 : BitVec 16).toNat = 1 := rfl
      omega
    have hi8 : (i.setWidth 8).toNat = i.toNat := by
      have : i.toNat < 256 := by rw [← hi]; omega
      rw [BitVec.toNat_setWidth, Nat.mod_eq_of_lt this]
    have hget : byteAt p.s i.toNat = (g.s.get (i.setWidth 8)).toNat := by rw [← hi8, h.s]
    have hj : (p.j + p.j + byteAt p.s i.toNat) % 256 = j.toNat := by
      simp only [j, h.j, hget, BitVec.toNat_umod, BitVec.toNat_add, BitVec.toNat_setWidth,
        Rc4.toNat_256]
      omega
    have hj8 : (j.setWidth 8).toNat = j.toNat := by
      have : j.toNat < 256 := by rw [← hj]; omega
      rw [BitVec.toNat_setWidth, Nat.mod_eq_of_lt this]
    have hs := h.s.swap (i.setWidth 8) (j.setWidth 8)
    rw [hi8, hj8] at hs
    have hnext : next p = (BitVec.ofNat 8 (byteAt (swap p.s i.toNat j.toNat)
        ((byteAt (swap p.s i.toNat j.toNat) i.toNat +
          byteAt (swap p.s i.toNat j.toNat) j.toNat) % 256)),
        ⟨i.toNat, j.toNat, swap p.s i.toNat j.toNat⟩) := by
      simp only [next, hi, hj]
    have hsum : ∀ s : Sbox, Holds (swap p.s i.toNat j.toNat) s →
        (byteAt (swap p.s i.toNat j.toNat) i.toNat +
          byteAt (swap p.s i.toNat j.toNat) j.toNat) % 256 =
            (s.get (i.setWidth 8) + s.get (j.setWidth 8)).toNat := by
      intro s hs
      rw [BitVec.toNat_add, ← hs, ← hs, hi8, hj8]
    constructor
    · change (next p).1 = (Rc4.rc4Next g).1
      rw [hnext, hsum _ hs, hs, BitVec.ofNat_toNat, BitVec.setWidth_eq]
      rfl
    · change Related (next p).2 (Rc4.rc4Next g).2
      rw [hnext]
      exact ⟨rfl, rfl, hs⟩

end Packed

end Swarna
