import Swarna.Rc4

/-!
# Swarna.AttestationLib

The memory checksum of a node (`attestation_lib.c`): addresses drawn from RC4 keyed with a nonce,
and a checksum of eight bytes updated with the byte read at each address.

`next_addr` calls itself until an address is in range, which no bound in the source limits, so the
functions that draw addresses take fuel, and `none` means that it ran out.

* `attestation_eq`: the update loop draws its addresses whatever it reads, so the result is
  `result` of these addresses and the bytes read there.
* `update_inj`, `pack_inj`: nothing of the state is lost in a round, nor in packing it.
* `tampered_read_detected`: one changed byte changes the result.
* `attestation_of_indices`: a call depends on the earlier ones through `rc4_i` and twice `rc4_j`
  alone.
-/

namespace Swarna
namespace AttestationLib

abbrev checksumLength : Nat := 8

/-- The bound of the update loop as compiled. -/
def memoryAccesses : Nat := 15

/-! ## Addresses -/

section Addresses

variable {γ : Type} (G : Generator γ)

/-- The address a call of `next_addr` draws: 17 bits from three bytes. -/
def drawAddr (g : γ) : BitVec 32 × γ :=
  let (b₁, g) := G.next g
  let (b₂, g) := G.next g
  let (b₃, g) := G.next g
  ((b₁.setWidth 32 <<< 8 + b₂.setWidth 32) <<< 1 + (b₃ &&& 1).setWidth 32, g)

/-- `next_addr`. The results of its calls of itself are dropped: an address out of range is
returned, and the generator moves on. -/
def nextAddr : (fuel : Nat) → γ → Option (BitVec 32 × γ)
  | 0, _ => none
  | fuel + 1, g =>
    let (addr, g) := drawAddr G g
    (if addr < 16384 then (nextAddr fuel g).map Prod.snd else some g).bind fun g =>
      (if addr > 65504 then (nextAddr fuel g).map Prod.snd else some g).map fun g => (addr, g)

theorem nextAddr_succ (fuel : Nat) (g : γ) : nextAddr G (fuel + 1) g =
    (if (drawAddr G g).1 < 16384 then (nextAddr G fuel (drawAddr G g).2).map Prod.snd
      else some (drawAddr G g).2).bind fun g' =>
        (if (drawAddr G g).1 > 65504 then (nextAddr G fuel g').map Prod.snd else some g').map
          fun g' => ((drawAddr G g).1, g') := rfl

/-- `n` addresses, one after the other. -/
def drawn (fuel : Nat) : (n : Nat) → γ → Option (List (BitVec 32) × γ)
  | 0, g => some ([], g)
  | n + 1, g =>
    (nextAddr G fuel g).bind fun x => (drawn fuel n x.2).map fun y => (x.1 :: y.1, y.2)

end Addresses

/-- `read_byte_far`. -/
def readByteFar (_addr : BitVec 32) : BitVec 8 := 3

/-! ## The checksum -/

/-- The variables `checksum` and `byte` of the update loop. -/
structure Loop where
  checksum : Vector (BitVec 8) checksumLength
  byte : BitVec 8
  byte_lt : byte.toNat < checksumLength

def Loop.start : Loop := ⟨Vector.replicate checksumLength 0, 0, by decide⟩

/-- `x % CHECKSUM_LENGTH`. -/
def wrap (x : BitVec 8) : BitVec 8 := x % BitVec.ofNat 8 checksumLength

theorem wrap_lt (x : BitVec 8) : (wrap x).toNat < checksumLength := by
  rw [wrap, BitVec.toNat_umod]
  exact Nat.mod_lt _ (by decide)

/-- Add `tmp` to a checksum byte and rotate it left by one bit. -/
def mix (old tmp : BitVec 8) : BitVec 8 :=
  let x := old + tmp
  let carry := x >>> 7
  x <<< 1 + carry

/-- The body of the update loop up to the next address, for the byte `r` read. The index `tmp` is a
`uint8_t`, so `byte - 2` wraps before it is reduced. -/
def update (r : BitVec 8) (lastAddr : BitVec 32) (l : Loop) : Loop :=
  have := l.byte_lt
  have := wrap_lt (l.byte - 2)
  { checksum :=
      l.checksum.set l.byte.toNat (mix l.checksum[l.byte.toNat]
        ((r ^^^ l.checksum[(wrap (l.byte - 2)).toNat]) + lastAddr.setWidth 8))
    byte := wrap (l.byte + 5)
    byte_lt := wrap_lt _ }

/-- The last loop of `attestation`: the bytes in one word, the first most significant. -/
def pack (checksum : Vector (BitVec 8) checksumLength) : BitVec 64 :=
  checksum.toList.foldl (fun result x => result <<< 8 + x.setWidth 64) 0

/-! ## `attestation` -/

def nonceBytes (nonce : BitVec 32) : Vector (BitVec 8) 4 :=
  #v[((nonce &&& 0xff000000) >>> 24).setWidth 8, ((nonce &&& 0x00ff0000) >>> 16).setWidth 8,
    ((nonce &&& 0x0000ff00) >>> 8).setWidth 8, (nonce &&& 0x000000ff).setWidth 8]

section Attestation

variable {γ : Type} (G : Generator γ)

/-- The update loop, with `n` rounds to go. -/
def updateLoop (fuel : Nat) : (n : Nat) → (lastAddr currentAddr : BitVec 32) → Loop → γ →
    Option (Loop × γ)
  | 0, _, _, l, g => some (l, g)
  | n + 1, lastAddr, currentAddr, l, g =>
    let l := update (readByteFar currentAddr) lastAddr l
    (nextAddr G fuel g).bind fun x => updateLoop fuel n currentAddr x.1 l x.2

/-- `attestation`, with `accesses` rounds of the update loop. -/
def attestation (accesses fuel : Nat) (nonce : BitVec 32) (g : γ) : Option (BitVec 64 × γ) :=
  (nextAddr G fuel (G.discard 256 (G.seed (nonceBytes nonce) g))).bind fun x =>
    (updateLoop G fuel accesses x.1 x.1 Loop.start x.2).map fun y => (pack y.1.checksum, y.2)

end Attestation

/-- The loop after `n` rounds, for the addresses drawn and the bytes read. Round `i` reads at
address `i`, and the last address is that of the round before; in the first it is the same. -/
def rounds (addr : Nat → BitVec 32) (read : Nat → BitVec 8) : (n : Nat) → Loop
  | 0 => Loop.start
  | n + 1 => update (read n) (addr (n - 1)) (rounds addr read n)

/-- The result of `n` rounds. -/
def result (addr : Nat → BitVec 32) (read : Nat → BitVec 8) (n : Nat) : BitVec 64 :=
  pack (rounds addr read n).checksum

/-! ## What the result depends on -/

section Simulation

variable {γ δ : Type} {G : Generator γ} {H : Generator δ} {R : γ → δ → Prop}
  (h : Generator.Simulates R G H) {fuel fuel' : Nat}
include h

theorem drawAddr_of {a : γ} {b : δ} (hab : R a b) :
    (drawAddr G a).1 = (drawAddr H b).1 ∧ R (drawAddr G a).2 (drawAddr H b).2 := by
  have h₁ := h.next hab
  have h₂ := h.next h₁.2
  have h₃ := h.next h₂.2
  refine ⟨?_, h₃.2⟩
  simp only [drawAddr, h₁.1, h₂.1, h₃.1]

/-- What a generator draws, one that simulates it draws as well, with at least as much fuel. -/
theorem nextAddr_of {a a' : γ} {b : δ} {addr : BitVec 32} (hf : fuel ≤ fuel') (hab : R a b)
    (ha : nextAddr G fuel a = some (addr, a')) :
    ∃ b', nextAddr H fuel' b = some (addr, b') ∧ R a' b' := by
  induction fuel generalizing fuel' a a' b addr with
  | zero => cases ha
  | succ fuel ih =>
    obtain ⟨fuel', rfl⟩ : ∃ k, fuel' = k + 1 := ⟨fuel' - 1, by omega⟩
    obtain ⟨hd, hr⟩ := drawAddr_of h hab
    -- a call that is made or not, its result dropped
    have hagain : ∀ {c : Prop} [Decidable c] {a a' : γ} {b : δ}, R a b →
        (if c then (nextAddr G fuel a).map Prod.snd else some a) = some a' →
          ∃ b', (if c then (nextAddr H fuel' b).map Prod.snd else some b) = some b' ∧ R a' b' := by
      intro c _ a a' b hab he
      by_cases hc : c
      · rw [if_pos hc] at he ⊢
        obtain ⟨⟨x, y⟩, hx, rfl⟩ := Option.map_eq_some_iff.1 he
        obtain ⟨b', hb, hR⟩ := ih (Nat.le_of_succ_le_succ hf) hab hx
        exact ⟨b', by rw [hb]; rfl, hR⟩
      · rw [if_neg hc] at he ⊢
        cases he
        exact ⟨b, rfl, hab⟩
    rw [nextAddr_succ, hd] at ha
    obtain ⟨a₁, h₁, ha⟩ := Option.bind_eq_some_iff.1 ha
    obtain ⟨a₂, h₂, he⟩ := Option.map_eq_some_iff.1 ha
    obtain ⟨rfl, rfl⟩ := Prod.mk.inj he
    obtain ⟨b₁, hb₁, hR₁⟩ := hagain hr h₁
    obtain ⟨b₂, hb₂, hR₂⟩ := hagain hR₁ h₂
    refine ⟨b₂, ?_, hR₂⟩
    rw [nextAddr_succ, hb₁, Option.bind_some, hb₂, Option.map_some]

theorem updateLoop_of {n : Nat} {last cur : BitVec 32} {l l' : Loop} {a a' : γ} {b : δ}
    (hf : fuel ≤ fuel') (hab : R a b) (ha : updateLoop G fuel n last cur l a = some (l', a')) :
    ∃ b', updateLoop H fuel' n last cur l b = some (l', b') ∧ R a' b' := by
  induction n generalizing last cur l a b with
  | zero => cases ha; exact ⟨b, rfl, hab⟩
  | succ n ih =>
    obtain ⟨⟨addr, a₁⟩, h₁, ha⟩ := Option.bind_eq_some_iff.1 ha
    obtain ⟨b₁, hb₁, hR⟩ := nextAddr_of h hf hab h₁
    obtain ⟨b', hb, hR'⟩ := ih hR ha
    exact ⟨b', Option.bind_eq_some_iff.2 ⟨_, hb₁, hb⟩, hR'⟩

theorem attestation_of {accesses : Nat} {nonce : BitVec 32} {x : BitVec 64} {a a' : γ} {b : δ}
    (hf : fuel ≤ fuel') (hab : R a b) (ha : attestation G accesses fuel nonce a = some (x, a')) :
    ∃ b', attestation H accesses fuel' nonce b = some (x, b') ∧ R a' b' := by
  obtain ⟨⟨addr, a₁⟩, h₁, ha⟩ := Option.bind_eq_some_iff.1 ha
  obtain ⟨⟨l, a₂⟩, h₂, he⟩ := Option.map_eq_some_iff.1 ha
  cases he
  obtain ⟨b₁, hb₁, hR₁⟩ := nextAddr_of h hf (h.discard 256 (h.seed hab _)) h₁
  obtain ⟨b₂, hb₂, hR₂⟩ := updateLoop_of h hf hR₁ h₂
  exact ⟨b₂, Option.bind_eq_some_iff.2 ⟨_, hb₁, by rw [hb₂]; rfl⟩, hR₂⟩

end Simulation

/-! ## The addresses do not depend on what is read -/

section Drawn

variable {γ : Type} {G : Generator γ} {fuel : Nat}

/-- The loop at round `k` of a sequence of addresses, with `n` rounds to go: it draws the next `n`
addresses of the sequence and ends at round `k + n`. -/
theorem updateLoop_drawn {n : Nat} {last cur : BitVec 32} {l l' : Loop} {g g' : γ}
    (h : updateLoop G fuel n last cur l g = some (l', g')) :
    ∃ as, drawn G fuel n g = some (as, g') ∧ ∀ (addr : Nat → BitVec 32) (k : Nat),
      l = rounds addr (fun i => readByteFar (addr i)) k → last = addr (k - 1) → cur = addr k →
        (∀ i < n, as.getD i 0 = addr (k + 1 + i)) →
          l' = rounds addr (fun i => readByteFar (addr i)) (k + n) := by
  induction n generalizing last cur l g with
  | zero =>
    cases h
    exact ⟨[], rfl, fun addr k hl _ _ _ => hl⟩
  | succ n ih =>
    obtain ⟨⟨a, g₁⟩, h₁, h₂⟩ := Option.bind_eq_some_iff.1 h
    obtain ⟨as, has, hl'⟩ := ih h₂
    refine ⟨a :: as, by rw [drawn, h₁, Option.bind_some, has]; rfl, ?_⟩
    intro addr k hl hlast hcur hmem
    rw [show k + (n + 1) = k + 1 + n by omega]
    refine hl' addr (k + 1) ?_ hcur (hmem 0 (by omega)) fun i hi => ?_
    · rw [rounds, ← hl, ← hlast, ← hcur]
    · rw [show k + 1 + 1 + i = k + 1 + (i + 1) by omega]
      exact hmem (i + 1) (by omega)

/-- What `attestation` returns is the result for the addresses it draws and the bytes there. -/
theorem attestation_eq {accesses : Nat} {nonce : BitVec 32} {x : BitVec 64} {g g' : γ}
    (h : attestation G accesses fuel nonce g = some (x, g')) :
    ∃ as, drawn G fuel (accesses + 1) (G.discard 256 (G.seed (nonceBytes nonce) g)) =
        some (as, g') ∧
      x = result (as.getD · 0) (fun i => readByteFar (as.getD i 0)) accesses := by
  obtain ⟨⟨a, g₁⟩, h₁, h₂⟩ := Option.bind_eq_some_iff.1 h
  obtain ⟨⟨l, g₂⟩, h₃, he⟩ := Option.map_eq_some_iff.1 h₂
  obtain ⟨rfl, rfl⟩ := Prod.mk.inj he
  obtain ⟨as, has, hl⟩ := updateLoop_drawn h₃
  refine ⟨a :: as, by rw [drawn, h₁, Option.bind_some, has]; rfl, ?_⟩
  have hrounds := hl ((a :: as).getD · 0) 0 rfl rfl rfl fun i _ => by
    rw [show 0 + 1 + i = i + 1 by omega]
    rfl
  rw [hrounds, Nat.zero_add]
  rfl

end Drawn

/-! ## A changed byte changes the result -/

theorem rotate_inj {x y : BitVec 8} (h : x <<< 1 + x >>> 7 = y <<< 1 + y >>> 7) : x = y := by
  -- the top bit goes to the bottom, so each half of the bytes is mapped by a line
  have hval : ∀ z : BitVec 8, (z <<< 1 + z >>> 7).toNat =
      if z.toNat < 128 then 2 * z.toNat else 2 * z.toNat - 255 := by
    intro z
    have hz := z.isLt
    simp only [BitVec.toNat_add, BitVec.toNat_shiftLeft, BitVec.toNat_ushiftRight,
      Nat.shiftLeft_eq, Nat.shiftRight_eq_div_pow]
    split
    · have : z.toNat / 2 ^ 7 = 0 := by omega
      omega
    · have : z.toNat / 2 ^ 7 = 1 := by omega
      omega
  have hn := congrArg BitVec.toNat h
  rw [hval, hval] at hn
  apply BitVec.eq_of_toNat_eq
  split at hn <;> split at hn <;> omega

theorem mix_old_inj {x y tmp : BitVec 8} (h : mix x tmp = mix y tmp) : x = y :=
  BitVec.add_left_inj tmp |>.1 (rotate_inj h)

theorem mix_tmp_inj {x tmp tmp' : BitVec 8} (h : mix x tmp = mix x tmp') : tmp = tmp' :=
  BitVec.add_right_inj x |>.1 (rotate_inj h)

/-- The byte read from is not the byte written to. -/
theorem back_ne (b : BitVec 8) : b.toNat ≠ (wrap (b - 2)).toNat := by
  have h₁ : (wrap (b - 2)).toNat = (b - 2).toNat % 8 := BitVec.toNat_umod
  have h₂ : (b - 2).toNat = (256 - 2 + b.toNat) % 256 := BitVec.toNat_sub ..
  omega

/-- A round forgets nothing: the byte it changes is mixed with one it leaves alone. -/
theorem update_inj {r : BitVec 8} {a : BitVec 32} {l l' : Loop} (hb : l.byte = l'.byte)
    (h : (update r a l).checksum = (update r a l').checksum) : l.checksum = l'.checksum := by
  obtain ⟨old, b, hlt⟩ := l
  obtain ⟨old', b', hlt'⟩ := l'
  obtain rfl : b = b' := hb
  have hother : ∀ i (hi : i < checksumLength), b.toNat ≠ i → old[i] = old'[i] := by
    intro i hi hne
    have := congrArg (fun v => v[i]) h
    simpa only [update, Vector.getElem_set_ne _ _ hne] using this
  have hback := hother _ (wrap_lt (b - 2)) (back_ne b)
  have hself : old[b.toNat] = old'[b.toNat] := by
    have := congrArg (fun v => v[b.toNat]) h
    simp only [update, Vector.getElem_set_self, hback] at this
    exact mix_old_inj this
  apply Vector.ext
  intro i hi
  by_cases he : b.toNat = i
  · subst he
    exact hself
  · exact hother i hi he

/-- Two different bytes read in the same round leave different checksums. -/
theorem update_read_inj {r r' : BitVec 8} {a : BitVec 32} {l : Loop}
    (h : (update r a l).checksum = (update r' a l).checksum) : r = r' := by
  have hlt := l.byte_lt
  have := congrArg (fun v => v[l.byte.toNat]) h
  simp only [update, Vector.getElem_set_self] at this
  exact (BitVec.xor_left_inj _).1 ((BitVec.add_left_inj _).1 (mix_tmp_inj this))

theorem rounds_byte (addr : Nat → BitVec 32) (read read' : Nat → BitVec 8) (n : Nat) :
    (rounds addr read n).byte = (rounds addr read' n).byte := by
  induction n with
  | zero => rfl
  | succ n ih => simp only [rounds, update, ih]

theorem rounds_congr {addr : Nat → BitVec 32} {read read' : Nat → BitVec 8} {n : Nat}
    (h : ∀ i < n, read i = read' i) : rounds addr read n = rounds addr read' n := by
  induction n with
  | zero => rfl
  | succ n ih => rw [rounds, rounds, ih fun i hi => h i (by omega), h n (by omega)]

/-- The bytes of a list in one word. -/
def word (l : List (BitVec 8)) : BitVec 64 :=
  l.foldl (fun result x => result <<< 8 + x.setWidth 64) 0

theorem word_snoc (l : List (BitVec 8)) (x : BitVec 8) (h : (word l).toNat < 256 ^ 7) :
    (word (l ++ [x])).toNat = (word l).toNat * 256 + x.toNat := by
  have hfold : word (l ++ [x]) = word l <<< 8 + x.setWidth 64 := by simp [word]
  have hx := x.isLt
  rw [hfold, BitVec.toNat_add, BitVec.toNat_shiftLeft, BitVec.toNat_setWidth, Nat.shiftLeft_eq]
  omega

theorem word_lt (l : List (BitVec 8)) (h : l.length ≤ 8) : (word l).toNat < 256 ^ l.length := by
  induction l using List.reverseRecOn with
  | nil => simp [word]
  | append_singleton l x ih =>
    rw [List.length_append, List.length_singleton] at h
    have hl := ih (by omega)
    have h7 : 256 ^ l.length ≤ 256 ^ 7 := Nat.pow_le_pow_right (by omega) (by omega)
    have hx := x.isLt
    rw [word_snoc l x (by omega), List.length_append, List.length_singleton, Nat.pow_succ]
    omega

theorem word_inj {l l' : List (BitVec 8)} (hlen : l.length = l'.length) (h8 : l.length ≤ 8)
    (h : word l = word l') : l = l' := by
  induction l using List.reverseRecOn generalizing l' with
  | nil => exact (List.length_eq_zero_iff.1 hlen.symm).symm
  | append_singleton l x ih =>
    rcases List.eq_nil_or_concat l' with rfl | ⟨m, y, rfl⟩
    · simp at hlen
    · rw [List.concat_eq_append] at *
      simp only [List.length_append, List.length_singleton] at hlen h8
      have hl := word_lt l (by omega)
      have hm := word_lt m (by omega)
      have hl7 : 256 ^ l.length ≤ 256 ^ 7 := Nat.pow_le_pow_right (by omega) (by omega)
      have hm7 : 256 ^ m.length ≤ 256 ^ 7 := Nat.pow_le_pow_right (by omega) (by omega)
      have hn := congrArg BitVec.toNat h
      rw [word_snoc l x (by omega), word_snoc m y (by omega)] at hn
      have hx := x.isLt
      have hy := y.isLt
      have hxy : x = y := BitVec.eq_of_toNat_eq (by omega)
      have hlm : l = m := ih (by omega) (by omega) (BitVec.eq_of_toNat_eq (by omega))
      rw [hxy, hlm]

theorem pack_inj {c c' : Vector (BitVec 8) checksumLength} (h : pack c = pack c') : c = c' :=
  Vector.toList_inj.1 (word_inj (by simp) (by simp) h)

/-- Two runs of the update loop on the same addresses that read a different byte in exactly one
round have different results. -/
theorem tampered_read_detected (addr : Nat → BitVec 32) {read read' : Nat → BitVec 8} {n k : Nat}
    (hk : k < n) (hne : read k ≠ read' k) (hsame : ∀ i < n, i ≠ k → read i = read' i) :
    result addr read n ≠ result addr read' n := by
  intro h
  have hsum : (rounds addr read n).checksum = (rounds addr read' n).checksum := pack_inj h
  -- go back from round `n` to the round after the change
  have hback : ∀ m, k < m → m ≤ n →
      (rounds addr read m).checksum ≠ (rounds addr read' m).checksum := by
    intro m
    induction m with
    | zero => intro hm; omega
    | succ m ih =>
      intro hm hle he
      by_cases hkm : m = k
      · subst hkm
        have hpre : rounds addr read m = rounds addr read' m :=
          rounds_congr fun i hi => hsame i (by omega) (by omega)
        rw [rounds, rounds, hpre] at he
        exact hne (update_read_inj he)
      · rw [rounds, rounds, hsame m (by omega) hkm] at he
        exact ih (by omega) (by omega) (update_inj (rounds_byte addr read read' m) he)
  exact hback n hk (Nat.le_refl n) hsum

/-- The compiled number of rounds, with the last byte changed. -/
theorem tampered_read_detected_last :
    result (fun i => BitVec.ofNat 32 (16384 + i)) (fun _ => 3) memoryAccesses ≠
      result (fun i => BitVec.ofNat 32 (16384 + i)) (fun i => if i = 14 then 4 else 3)
        memoryAccesses :=
  tampered_read_detected _ (k := 14) (by decide) (by decide) fun i _ hi => by simp [hi]

/-! ## Calls -/

/-- A call of `attestation`, as compiled, that returns `x`. -/
def Returns (g : Rc4) (nonce : BitVec 32) (x : BitVec 64) (g' : Rc4) : Prop :=
  ∃ fuel, attestation Rc4.generator memoryAccesses fuel nonce g = some (x, g')

/-- The state of a node after calls with the nonces of a list, from start-up. -/
inductive Called : List (BitVec 32) → Rc4 → Prop
  | start : Called [] .start
  | call {nonces : List (BitVec 32)} {g g' : Rc4} {nonce : BitVec 32} {x : BitVec 64} :
      Called nonces g → Returns g nonce x g' → Called (nonces ++ [nonce]) g'

/-- A call with `nonce` in state `g` returns what it returns on a freshly started node. -/
def SameAsFresh (g : Rc4) (nonce : BitVec 32) : Prop :=
  ∀ x, (∃ g', Returns g nonce x g') ↔ ∃ g', Returns .start nonce x g'

theorem Returns.unique {g g₁ g₂ : Rc4} {nonce : BitVec 32} {x y : BitVec 64}
    (h₁ : Returns g nonce x g₁) (h₂ : Returns g nonce y g₂) : x = y := by
  obtain ⟨fuel₁, h₁⟩ := h₁
  obtain ⟨fuel₂, h₂⟩ := h₂
  have hrefl := Generator.Simulates.refl Rc4.generator
  obtain ⟨_, h₁', -⟩ := attestation_of hrefl (Nat.le_max_left fuel₁ fuel₂) rfl h₁
  obtain ⟨_, h₂', -⟩ := attestation_of hrefl (Nat.le_max_right fuel₁ fuel₂) rfl h₂
  rw [h₁'] at h₂'
  exact (Prod.mk.inj (Option.some.inj h₂')).1

/-- `rc4_init` sets the s-box anew, and the first of the bytes discarded doubles `rc4_j`, so a call
depends on the earlier ones through `rc4_i` and twice `rc4_j` modulo 256 alone. -/
theorem attestation_of_indices {g g' : Rc4} (hi : g.i = g'.i)
    (hj : (g.j + g.j) % 256 = (g'.j + g'.j) % 256) (accesses fuel : Nat) (nonce : BitVec 32) :
    attestation Rc4.generator accesses fuel nonce g =
      attestation Rc4.generator accesses fuel nonce g' := by
  have hnext : Rc4.generator.next (Rc4.generator.seed (nonceBytes nonce) g) =
      Rc4.generator.next (Rc4.generator.seed (nonceBytes nonce) g') := by
    refine Rc4.rc4Next_doubled ?_ ?_ ?_ <;> simp only [Rc4.generator, Rc4.rc4Init, hi, hj]
  rw [attestation, attestation, Generator.discard_of_next hnext 255]

/-- Where `rc4_i` is 0 and `rc4_j` is 0 or 128, every nonce gives the checksum of a freshly started
node, whatever was called before. -/
theorem nonce_alone {g : Rc4} (hi : g.i = 0) (hj : g.j = 0 ∨ g.j = 128) (nonce : BitVec 32) :
    SameAsFresh g nonce := by
  have hdouble : (g.j + g.j) % 256 = (Rc4.start.j + Rc4.start.j) % 256 := by
    rcases hj with hj | hj <;> rw [hj] <;> rfl
  intro x
  have hfresh := attestation_of_indices (show g.i = Rc4.start.i from hi) hdouble
  simp only [Returns, hfresh]

/-! ## Calls on the packed generator -/

/-- The states after some calls, on the packed generator. -/
def packedCalls (fuel : Nat) : List (BitVec 32) → Packed → Option Packed
  | [], p => some p
  | nonce :: nonces, p =>
    (attestation Packed.generator memoryAccesses fuel nonce p).bind fun x =>
      packedCalls fuel nonces x.2

def packedStart : Packed := ⟨0, 0, 0⟩

theorem packedStart_related : Packed.Related packedStart .start where
  i := rfl
  j := rfl
  s := by
    intro k
    simp [packedStart, Rc4.start, byteAt, Sbox.get]

theorem returns_of_packed {fuel : Nat} {nonce : BitVec 32} {x : BitVec 64} {p p' : Packed}
    {g : Rc4} (hp : Packed.Related p g)
    (h : attestation Packed.generator memoryAccesses fuel nonce p = some (x, p')) :
    ∃ g', Returns g nonce x g' ∧ Packed.Related p' g' := by
  obtain ⟨g', hg', hrel⟩ := attestation_of Packed.simulates (Nat.le_refl fuel) hp h
  exact ⟨g', ⟨fuel, hg'⟩, hrel⟩

theorem called_of_packed {fuel : Nat} {earlier nonces : List (BitVec 32)} {p p' : Packed} {g : Rc4}
    (hg : Called earlier g) (hp : Packed.Related p g) (h : packedCalls fuel nonces p = some p') :
    ∃ g', Called (earlier ++ nonces) g' ∧ Packed.Related p' g' := by
  induction nonces generalizing earlier p g with
  | nil =>
    cases h
    exact ⟨g, by simpa using hg, hp⟩
  | cons nonce nonces ih =>
    obtain ⟨⟨x, p₁⟩, h₁, h₂⟩ := Option.bind_eq_some_iff.1 h
    obtain ⟨g₁, hret, hrel⟩ := returns_of_packed hp h₁
    rw [show earlier ++ nonce :: nonces = (earlier ++ [nonce]) ++ nonces by simp]
    exact ih (.call hg hret) hrel h₂

/-- Five calls after which `rc4_i` is 0 again and `rc4_j` is 128. -/
theorem nonce_alone_five : ∃ g, Called [0, 4, 18, 2, 32] g ∧ g.j = 128 ∧ SameAsFresh g 7 := by
  obtain ⟨p, hp, hi, hj⟩ : ∃ p, packedCalls 20 [0, 4, 18, 2, 32] packedStart = some p ∧
      p.i = 0 ∧ p.j = 128 := by
    have h : (packedCalls 20 [0, 4, 18, 2, 32] packedStart).map (fun p => (p.i, p.j)) =
        some (0, 128) := by
      decide +kernel
    obtain ⟨p, hp, he⟩ := Option.map_eq_some_iff.1 h
    exact ⟨p, hp, Prod.mk.inj he⟩
  obtain ⟨g, hg, hrel⟩ := called_of_packed .start packedStart_related hp
  have hi' : g.i = 0 := BitVec.eq_of_toNat_eq (by rw [← hrel.i, hi]; rfl)
  have hj' : g.j = 128 := BitVec.eq_of_toNat_eq (by rw [← hrel.j, hj]; rfl)
  exact ⟨g, hg, hj', nonce_alone hi' (.inr hj') 7⟩

/-- The same nonce twice: the second call returns another checksum. -/
theorem second_call_differs : ∃ g, Called [0] g ∧ ¬ SameAsFresh g 0 := by
  have h₁ : (attestation Packed.generator memoryAccesses 20 0 packedStart).map Prod.fst =
      some 234918314718116318 := by
    decide +kernel
  have h₂ : ((packedCalls 20 [0] packedStart).bind fun p =>
      attestation Packed.generator memoryAccesses 20 0 p).map Prod.fst =
        some 16718603142203209047 := by
    decide +kernel
  obtain ⟨⟨x, p₁⟩, hx, rfl⟩ := Option.map_eq_some_iff.1 h₁
  obtain ⟨⟨y, p₂⟩, hy, rfl⟩ := Option.map_eq_some_iff.1 h₂
  obtain ⟨p, hp, hy⟩ := Option.bind_eq_some_iff.1 hy
  obtain ⟨g, hg, hrel⟩ := called_of_packed .start packedStart_related hp
  obtain ⟨g₁, hret₁, -⟩ := returns_of_packed packedStart_related hx
  obtain ⟨g₂, hret₂, -⟩ := returns_of_packed hrel hy
  refine ⟨g, hg, fun hsame => ?_⟩
  obtain ⟨g₃, hret₃⟩ := (hsame _).1 ⟨g₂, hret₂⟩
  exact absurd (hret₁.unique hret₃) (by decide)

end AttestationLib
end Swarna
