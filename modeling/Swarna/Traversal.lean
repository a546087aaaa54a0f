import Swarna.AttestationLib

/-!
# Swarna.Traversal

Which addresses `attestation` reads at. `next_addr` is meant to draw until an address is in the
attested memory; it calls itself again, but returns the address of its own draw.

* `drawn_split`: each address read is the result of one call, in the state the calls before it
  have left.
* `traversal_in_range_iff`: a call returns an address in range exactly when its own three bytes
  make one, and a traversal stays in range exactly when this holds of every call it reads at.
* `traversal_leaves_range`: nonce 0 starts at address 75164.
-/

namespace Swarna
namespace AttestationLib

/-- The attested memory. -/
def InRange (addr : BitVec 32) : Prop := 16384 ≤ addr.toNat ∧ addr.toNat ≤ 65504

instance (addr : BitVec 32) : Decidable (InRange addr) := inferInstanceAs (Decidable (_ ∧ _))

section Draws

variable {γ : Type} (G : Generator γ)

/-- The next three bytes of the generator make an address in range: the first is in 32..127, and if
it is 127, the second is below 240, or it is 240 and the third is even. -/
def DrawsInRange (g : γ) : Prop :=
  let b₁ := G.next g
  let b₂ := G.next b₁.2
  let b₃ := G.next b₂.2
  32 ≤ b₁.1.toNat ∧ b₁.1.toNat ≤ 127 ∧
    (b₁.1.toNat = 127 → b₂.1.toNat < 240 ∨ b₂.1.toNat = 240 ∧ b₃.1.toNat % 2 = 0)

variable {G}

theorem addr_toNat (b₁ b₂ b₃ : BitVec 8) :
    ((b₁.setWidth 32 <<< 8 + b₂.setWidth 32) <<< 1 + (b₃ &&& 1).setWidth 32).toNat =
      b₁.toNat * 512 + b₂.toNat * 2 + b₃.toNat % 2 := by
  have h₁ := b₁.isLt
  have h₂ := b₂.isLt
  have h₃ : (b₃ &&& 1).toNat = b₃.toNat % 2 := by
    rw [BitVec.toNat_and]
    exact Nat.and_one_is_mod _
  simp only [BitVec.toNat_add, BitVec.toNat_shiftLeft, BitVec.toNat_setWidth, h₃,
    Nat.shiftLeft_eq]
  omega

theorem drawAddr_toNat (g : γ) : (drawAddr G g).1.toNat =
    (G.next g).1.toNat * 512 + (G.next (G.next g).2).1.toNat * 2 +
      (G.next (G.next (G.next g).2).2).1.toNat % 2 := addr_toNat _ _ _

theorem inRange_drawAddr (g : γ) : InRange (drawAddr G g).1 ↔ DrawsInRange G g := by
  have h₂ := (G.next (G.next g).2).1.isLt
  simp only [InRange, DrawsInRange, drawAddr_toNat]
  omega

theorem nextAddr_addr {fuel : Nat} {g g' : γ} {addr : BitVec 32}
    (h : nextAddr G fuel g = some (addr, g')) : addr = (drawAddr G g).1 := by
  cases fuel with
  | zero => cases h
  | succ fuel =>
    rw [nextAddr_succ] at h
    obtain ⟨g₁, -, h⟩ := Option.bind_eq_some_iff.1 h
    obtain ⟨g₂, -, h⟩ := Option.map_eq_some_iff.1 h
    exact (Prod.mk.inj h).1.symm

/-- Address `i` of a sequence drawn is the result of a call after `i` calls. -/
theorem drawn_split {fuel n i : Nat} {g g' : γ} {as : List (BitVec 32)}
    (h : drawn G fuel n g = some (as, g')) (hi : i < n) :
    ∃ l g₁ g₂, drawn G fuel i g = some (l, g₁) ∧ nextAddr G fuel g₁ = some (as.getD i 0, g₂) := by
  induction n generalizing g as i with
  | zero => omega
  | succ n ih =>
    obtain ⟨⟨a, g₁⟩, h₁, h₂⟩ := Option.bind_eq_some_iff.1 h
    obtain ⟨⟨as', g₂⟩, h₃, he⟩ := Option.map_eq_some_iff.1 h₂
    obtain ⟨rfl, rfl⟩ := Prod.mk.inj he
    cases i with
    | zero => exact ⟨[], g, g₁, rfl, h₁⟩
    | succ i =>
      obtain ⟨l, g₃, g₄, hl, hn⟩ := ih h₃ (Nat.lt_of_succ_lt_succ hi)
      exact ⟨a :: l, g₃, g₄, by rw [drawn, h₁, Option.bind_some, hl]; rfl, hn⟩

/-- The first `n` calls draw addresses in range. -/
def StaysInRange (G : Generator γ) (fuel n : Nat) (g : γ) : Prop :=
  ∀ i < n, ∀ l g', drawn G fuel i g = some (l, g') → DrawsInRange G g'

theorem drawn_in_range_iff {fuel n k : Nat} {g g' : γ} {as : List (BitVec 32)}
    (h : drawn G fuel n g = some (as, g')) (hk : k ≤ n) :
    (∀ i < k, InRange (as.getD i 0)) ↔ StaysInRange G fuel k g := by
  constructor
  · intro hrange i hi l g₁ hl
    obtain ⟨l', g₂, g₃, hl', hn⟩ := drawn_split h (show i < n by omega)
    rw [hl] at hl'
    cases hl'
    rw [← inRange_drawAddr, ← nextAddr_addr hn]
    exact hrange i hi
  · intro hstays i hi
    obtain ⟨l, g₁, g₂, hl, hn⟩ := drawn_split h (show i < n by omega)
    rw [nextAddr_addr hn, inRange_drawAddr]
    exact hstays i hi l g₁ hl

end Draws

theorem traversal_in_range_iff (g : Rc4) :
    (∀ fuel g' addr, nextAddr Rc4.generator fuel g = some (addr, g') →
      (InRange addr ↔ DrawsInRange Rc4.generator g)) ∧
    ∀ accesses fuel nonce g' x,
      attestation Rc4.generator accesses fuel nonce g = some (x, g') →
        ∃ as, drawn Rc4.generator fuel (accesses + 1)
            (Rc4.generator.discard 256 (Rc4.generator.seed (nonceBytes nonce) g)) = some (as, g') ∧
          x = result (as.getD · 0) (fun i => readByteFar (as.getD i 0)) accesses ∧
          ((∀ i < accesses, InRange (as.getD i 0)) ↔ StaysInRange Rc4.generator fuel accesses
            (Rc4.generator.discard 256 (Rc4.generator.seed (nonceBytes nonce) g))) := by
  refine ⟨fun fuel g' addr h => ?_, fun accesses fuel nonce g' x h => ?_⟩
  · rw [nextAddr_addr h]
    exact inRange_drawAddr g
  · obtain ⟨as, has, hx⟩ := attestation_eq h
    exact ⟨as, has, hx, drawn_in_range_iff has (Nat.le_succ accesses)⟩

/-- The first call of `next_addr` for a nonce on a freshly started node. -/
def FirstAddr (nonce addr : BitVec 32) : Prop :=
  ∃ fuel g', nextAddr Rc4.generator fuel
    (Rc4.generator.discard 256 (Rc4.generator.seed (nonceBytes nonce) .start)) = some (addr, g')

theorem firstAddr_of_packed {nonce addr : BitVec 32}
    (h : (nextAddr Packed.generator 20 (Packed.generator.discard 256
      (Packed.generator.seed (nonceBytes nonce) packedStart))).map Prod.fst = some addr) :
    FirstAddr nonce addr := by
  obtain ⟨⟨x, p⟩, hp, rfl⟩ := Option.map_eq_some_iff.1 h
  have hrel := Packed.simulates.discard 256
    (Packed.simulates.seed packedStart_related (nonceBytes nonce))
  obtain ⟨g', hg', -⟩ := nextAddr_of Packed.simulates (Nat.le_refl 20) hrel hp
  exact ⟨20, g', hg'⟩

theorem traversal_in_range_first : FirstAddr 3 54912 ∧ DrawsInRange Rc4.generator
    (Rc4.generator.discard 256 (Rc4.generator.seed (nonceBytes 3) .start)) := by
  have h : FirstAddr 3 54912 := firstAddr_of_packed (by decide +kernel)
  obtain ⟨fuel, g', hg'⟩ := h
  exact ⟨⟨fuel, g', hg'⟩, ((traversal_in_range_iff _).1 fuel g' 54912 hg').1 (by decide)⟩

/-- Nonce 0 on a freshly started node: the first draw is past the attested memory, and its address
is returned. -/
theorem traversal_leaves_range : FirstAddr 0 75164 ∧ ¬ InRange 75164 :=
  ⟨firstAddr_of_packed (by decide +kernel), by decide⟩

end AttestationLib
end Swarna
