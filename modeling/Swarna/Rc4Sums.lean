import Swarna.Machine
import Swarna.StandardRc4

/-!
# Swarna.Rc4Sums

The generator in the widths of the program, with every sum checked: `rc4_init` adds in 32 bits,
`rc4_next` moves its indices in 16 bits and adds two entries of the s-box in 32.

* `addTo`: a sum that fails if it does not fit.
* `initSums_eq`, `nextSums_eq`: no sum fails, and the results are those of `rc4Init` and `rc4Next`.
* `calls_valid`: after `rc4_init` and any further calls the s-box is a permutation and the indices
  are below 256.
-/

namespace Swarna
namespace Rc4

inductive Overflow where
  | sum
  deriving DecidableEq, Repr

/-- `x += y`. -/
def addTo {w : Nat} (x y : BitVec w) : Except Overflow (BitVec w) :=
  if x.toNat + y.toNat < 2 ^ w then .ok (x + y) else .error .sum

theorem addTo_eq {w : Nat} {x y : BitVec w} (h : x.toNat + y.toNat < 2 ^ w) :
    addTo x y = .ok (x + y) := if_pos h

/-- The second loop of `rc4_init`, with `n` rounds to go. -/
def shuffleSums {length : Nat} [NeZero length] (key : Vector (BitVec 8) length) :
    (n : Nat) → (i j : BitVec 32) → Sbox → Except Overflow Sbox
  | 0, _, _, s => .ok s
  | n + 1, i, j, s => do
    have := Nat.mod_lt i.toNat (Nat.pos_of_neZero length)
    let j ← addTo j j
    let j ← addTo j ((s.get (i.setWidth 8)).setWidth 32)
    let j ← addTo j (key[i.toNat % length].setWidth 32)
    let j := j % 256
    let s := rc4Swap s (i.setWidth 8) (j.setWidth 8)
    let i ← addTo i 1
    shuffleSums key n i j s

def initSums {length : Nat} [NeZero length] (key : Vector (BitVec 8) length) (g : Rc4) :
    Except Overflow Rc4 := do
  let s ← shuffleSums key 256 0 0 (Vector.ofFn fun i => BitVec.ofNat 8 i)
  .ok { g with s := s }

def nextSums (g : Rc4) : Except Overflow (BitVec 8 × Rc4) := do
  let i ← addTo g.i 1
  let i := i % 256
  let j ← addTo g.j g.j
  let j ← addTo j ((g.s.get (i.setWidth 8)).setWidth 16)
  let j := j % 256
  let s := rc4Swap g.s (i.setWidth 8) (j.setWidth 8)
  let tmp ← addTo ((s.get (i.setWidth 8)).setWidth 32) ((s.get (j.setWidth 8)).setWidth 32)
  let tmp := tmp % 256
  .ok (s.get (tmp.setWidth 8), ⟨i, j, s⟩)

/-! ## The sums fit -/

theorem setWidth_mod {w : Nat} (hw : 8 < w) (x : BitVec w) :
    (x % 256).setWidth 8 = x.setWidth 8 := by
  have hpow : 2 ^ 8 < 2 ^ w := Nat.pow_lt_pow_right (by omega) hw
  have h256 : (256 : BitVec w).toNat = 256 := Nat.mod_eq_of_lt hpow
  apply BitVec.eq_of_toNat_eq
  rw [BitVec.toNat_setWidth, BitVec.toNat_setWidth, BitVec.toNat_umod, h256]
  omega

theorem toNat_mod {w : Nat} (hw : 8 < w) (x : BitVec w) : (x % 256).toNat < 256 := by
  have hpow : 2 ^ 8 < 2 ^ w := Nat.pow_lt_pow_right (by omega) hw
  have h256 : (256 : BitVec w).toNat = 256 := Nat.mod_eq_of_lt hpow
  rw [BitVec.toNat_umod, h256]
  omega

/-- A byte in more bits. -/
theorem toNat_byte {w : Nat} (hw : 8 ≤ w) (x : BitVec 8) : (x.setWidth w).toNat < 256 := by
  rw [BitVec.toNat_setWidth_of_le hw]
  exact x.isLt

theorem shuffleSums_eq {length : Nat} [NeZero length] (key : Vector (BitVec 8) length) (n : Nat) :
    ∀ (i j : BitVec 32) (s : Sbox), i.toNat + n = 256 → j.toNat < 256 →
      shuffleSums key n i j s = .ok (rc4Shuffle key n i.toNat (j.setWidth 8) s) := by
  induction n with
  | zero => exact fun _ _ _ _ _ => rfl
  | succ n ih =>
    intro i j s hi hj
    have hlt := Nat.mod_lt i.toNat (Nat.pos_of_neZero length)
    let x := (s.get (i.setWidth 8)).setWidth 32
    let k := key[i.toNat % length].setWidth 32
    have hx : x.toNat < 256 := toNat_byte (by omega) _
    have hk : k.toNat < 256 := toNat_byte (by omega) _
    have hjj : (j + j).toNat = j.toNat + j.toNat := by rw [BitVec.toNat_add]; omega
    have hjx : (j + j + x).toNat = j.toNat + j.toNat + x.toNat := by
      rw [BitVec.toNat_add, hjj]
      omega
    have hone : (1 : BitVec 32).toNat = 1 := rfl
    have hnext : (i + 1).toNat = i.toNat + 1 := by rw [BitVec.toNat_add, hone]; omega
    have hindex : BitVec.ofNat 8 i.toNat = i.setWidth 8 := BitVec.ofNat_toNat ..
    have hlow : ((j + j + x + k) % 256).setWidth 8 =
        j.setWidth 8 + j.setWidth 8 + s.get (i.setWidth 8) + key[i.toNat % length] := by
      rw [setWidth_mod (by omega), BitVec.setWidth_add _ _ (by omega),
        BitVec.setWidth_add _ _ (by omega), BitVec.setWidth_add _ _ (by omega),
        BitVec.setWidth_setWidth_of_le _ (by omega), BitVec.setWidth_setWidth_of_le _ (by omega),
        BitVec.setWidth_eq, BitVec.setWidth_eq]
    have hsums : shuffleSums key (n + 1) i j s = shuffleSums key n (i + 1) ((j + j + x + k) % 256)
        (rc4Swap s (i.setWidth 8) (((j + j + x + k) % 256).setWidth 8)) := by
      rw [shuffleSums, addTo_eq (by omega)]
      show (do let j' ← addTo (j + j) x; _) = _
      rw [addTo_eq (by omega)]
      show (do let j' ← addTo (j + j + x) k; _) = _
      rw [addTo_eq (by omega)]
      show (do let i' ← addTo i 1; _) = _
      rw [addTo_eq (by omega)]
      rfl
    rw [hsums, ih _ _ _ (by omega) (toNat_mod (by omega) _), hnext, hlow, rc4Shuffle, hindex]

theorem initSums_eq {length : Nat} [NeZero length] (key : Vector (BitVec 8) length) (g : Rc4) :
    initSums key g = .ok (rc4Init key g) := by
  rw [initSums, shuffleSums_eq key 256 0 0 _ rfl (by decide)]
  rfl

theorem nextSums_eq {g : Rc4} (hi : g.i.toNat < 256) (hj : g.j.toNat < 256) :
    nextSums g = .ok (rc4Next g) := by
  let i := (g.i + 1) % 256
  let x := (g.s.get (i.setWidth 8)).setWidth 16
  let j := (g.j + g.j + x) % 256
  let s := rc4Swap g.s (i.setWidth 8) (j.setWidth 8)
  let a := (s.get (i.setWidth 8)).setWidth 32
  let b := (s.get (j.setWidth 8)).setWidth 32
  have hone : (1 : BitVec 16).toNat = 1 := rfl
  have hx : x.toNat < 256 := toNat_byte (by omega) _
  have ha : a.toNat < 256 := toNat_byte (by omega) _
  have hb : b.toNat < 256 := toNat_byte (by omega) _
  have hjj : (g.j + g.j).toNat = g.j.toNat + g.j.toNat := by rw [BitVec.toNat_add]; omega
  have hlow : ((a + b) % 256).setWidth 8 = s.get (i.setWidth 8) + s.get (j.setWidth 8) := by
    rw [setWidth_mod (by omega), BitVec.setWidth_add _ _ (by omega),
      BitVec.setWidth_setWidth_of_le _ (by omega), BitVec.setWidth_setWidth_of_le _ (by omega),
      BitVec.setWidth_eq, BitVec.setWidth_eq]
  have hsums : nextSums g = .ok (s.get (((a + b) % 256).setWidth 8), ⟨i, j, s⟩) := by
    rw [nextSums, addTo_eq (by omega)]
    show (do let j' ← addTo g.j g.j; _) = _
    rw [addTo_eq (by omega)]
    show (do let j' ← addTo (g.j + g.j) x; _) = _
    rw [addTo_eq (by omega)]
    show (do let tmp ← addTo a b; _) = _
    rw [addTo_eq (by omega)]
    rfl
  rw [hsums, hlow]
  rfl

/-! ## Calls -/

/-- What the traversal calls; a key has at least one byte. -/
inductive Call where
  | rc4Init {n : Nat} (key : Vector (BitVec 8) (n + 1))
  | rc4Next

/-- The outputs are the bytes returned. -/
def machine : Machine Rc4 Call (BitVec 8) Overflow where
  step
    | g, .rc4Init key => (initSums key g).map fun g => (g, [])
    | g, .rc4Next => (nextSums g).map fun r => (r.2, [r.1])

/-- The state after a call, in the model without sums. -/
def call (g : Rc4) : Call → Rc4
  | .rc4Init key => rc4Init key g
  | .rc4Next => (rc4Next g).2

structure Valid (g : Rc4) : Prop where
  i_lt : g.i.toNat < 256
  j_lt : g.j.toNat < 256
  permutation : Function.Bijective g.s.get

instance : Finite (BitVec 8) :=
  Finite.of_injective BitVec.toFin fun _ _ => BitVec.eq_of_toFin_eq

theorem Permutes.bijective {s : Sbox} (h : Permutes s) : Function.Bijective s.get :=
  Finite.injective_iff_bijective.1 h

theorem permutes_shuffle {length : Nat} [NeZero length] (key : Vector (BitVec 8) length)
    (n i : Nat) (j : BitVec 8) {s : Sbox} (h : Permutes s) : Permutes (rc4Shuffle key n i j s) := by
  induction n generalizing i j s with
  | zero => exact h
  | succ n ih => exact ih _ _ (h.rc4Swap _ _)

/-- `rc4_init` makes the s-box a permutation, whatever it was. -/
theorem valid_rc4Init {length : Nat} [NeZero length] (key : Vector (BitVec 8) length) {g : Rc4}
    (hi : g.i.toNat < 256) (hj : g.j.toNat < 256) : Valid (rc4Init key g) := by
  rw [rc4Init]
  refine ⟨hi, hj, Permutes.bijective ?_⟩
  apply permutes_shuffle
  exact permutes_identity

theorem Valid.rc4Next {g : Rc4} (h : Valid g) : Valid (rc4Next g).2 :=
  ⟨toNat_mod (by omega) _, toNat_mod (by omega) _,
    (Permutes.rc4Swap h.permutation.injective _ _).bijective⟩

theorem Valid.after_call {g : Rc4} (h : Valid g) (x : Call) :
    Valid (g.call x) ∧ ∃ out, machine.step g x = .ok (g.call x, out) := by
  cases x with
  | rc4Init key =>
    refine ⟨valid_rc4Init key h.i_lt h.j_lt, [], ?_⟩
    simp only [machine, initSums_eq]
    rfl
  | rc4Next =>
    refine ⟨h.rc4Next, [(g.rc4Next).1], ?_⟩
    simp only [machine, nextSums_eq h.i_lt h.j_lt]
    rfl

theorem Valid.after_calls {g : Rc4} (h : Valid g) (calls : List Call) :
    Valid (calls.foldl call g) ∧ ∃ t, machine.exec g calls = .ok (t, calls.foldl call g) := by
  induction calls generalizing g with
  | nil => exact ⟨h, [], rfl⟩
  | cons x calls ih =>
    obtain ⟨hx, out, hstep⟩ := h.after_call x
    obtain ⟨hvalid, t, hexec⟩ := ih hx
    exact ⟨hvalid, (x, out) :: t, Machine.exec_cons.2 ⟨_, out, t, hstep, hexec, rfl⟩⟩

theorem calls_valid {n : Nat} (key : Vector (BitVec 8) (n + 1)) (calls : List Call) :
    Valid (calls.foldl call (rc4Init key start)) ∧
      ∃ t, machine.exec start (.rc4Init key :: calls) =
        .ok (t, calls.foldl call (rc4Init key start)) := by
  have hinit : Valid (rc4Init key start) := valid_rc4Init key (by decide) (by decide)
  obtain ⟨hvalid, t, hexec⟩ := hinit.after_calls calls
  have hstep : machine.step start (.rc4Init key) = .ok (rc4Init key start, []) := by
    simp only [machine, initSums_eq]
    rfl
  exact ⟨hvalid, _, Machine.exec_cons.2 ⟨_, _, t, hstep, hexec, rfl⟩⟩

end Rc4
end Swarna
