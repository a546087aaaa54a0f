import Mathlib.Data.List.Basic

/-!
# Swarna.Digits

Reading a text from its front: labels, numbers to a base up to 16, lists of numbers.

* `skip`: the text after a label.
* `number`: the number a text starts with; `number_toDigits`: what was written is read.
* `listed`: numbers with a comma after each; `listed_flatMap`: what was written is read.
-/

namespace Swarna
namespace Digits

/-- The text after a label. -/
def skip : List Char → List Char → Option (List Char)
  | [], s => some s
  | _ :: _, [] => none
  | c :: p, d :: s => if c = d then skip p s else none

theorem skip_append (p s : List Char) : skip p (p ++ s) = some s := by
  induction p with
  | nil => rfl
  | cons c p ih => rw [List.cons_append, skip, if_pos rfl, ih]

/-- The digit a character stands for. -/
def digit? (b : Nat) (c : Char) : Option Nat := (List.range b).find? fun d => Nat.digitChar d = c

/-- The rest of a number of which `n` was read, and what comes after it. -/
def digits (b : Nat) : Nat → List Char → Nat × List Char
  | n, [] => (n, [])
  | n, c :: cs =>
    match digit? b c with
    | none => (n, c :: cs)
    | some d => digits b (n * b + d) cs

/-- A number has at least one digit. -/
def number (b : Nat) (cs : List Char) : Option (Nat × List Char) :=
  if (cs.head?.bind (digit? b)).isSome then some (digits b 0 cs) else none

/-- Numbers, each with a comma after it; `n` was read of the first. -/
def listed (b : Nat) : Nat → List Char → Option (List Nat)
  | _, [] => some []
  | n, c :: cs =>
    if c = ',' then (listed b 0 cs).map (n :: ·)
    else match digit? b c with
      | none => none
      | some d => listed b (n * b + d) cs

section

variable {b : Nat}

theorem digitChar_inj {d e : Nat} (hd : d < 16) (he : e < 16)
    (h : Nat.digitChar d = Nat.digitChar e) : d = e := by
  have hall : ∀ d < 16, ∀ e < 16, Nat.digitChar d = Nat.digitChar e → d = e := by decide
  exact hall d hd e he h

theorem digit?_digitChar (hle : b ≤ 16) {d : Nat} (hd : d < b) :
    digit? b (Nat.digitChar d) = some d := by
  rw [digit?, List.find?_range_eq_some]
  refine ⟨decide_eq_true rfl, List.mem_range.2 hd, fun e he => ?_⟩
  have hne : Nat.digitChar e ≠ Nat.digitChar d := fun h =>
    Nat.ne_of_lt he (digitChar_inj (by omega) (by omega) h)
  simp [hne]

/-- A function of the digits read so far sees a number written to base `b` as its value. -/
theorem read_toDigits {β : Type} (hb : 1 < b) {f : Nat → List Char → β}
    (hf : ∀ n d cs, d < b → f n (Nat.digitChar d :: cs) = f (n * b + d) cs) (n : Nat)
    (rest : List Char) : f 0 (Nat.toDigits b n ++ rest) = f n rest := by
  induction n using Nat.strongRecOn generalizing rest with
  | ind n ih =>
    by_cases hn : n < b
    · rw [Nat.toDigits_of_lt_base hn, List.singleton_append, hf 0 n rest hn, Nat.zero_mul,
        Nat.zero_add]
    · have hmod := Nat.mod_lt n (Nat.zero_lt_of_lt hb)
      rw [Nat.toDigits_of_base_le hb (Nat.not_lt.1 hn), List.append_assoc,
        ih (n / b) (Nat.div_lt_self (by omega) hb), List.singleton_append, hf _ _ _ hmod,
        Nat.div_add_mod']

/-- What holds of the digits holds of all characters of a number. -/
theorem forall_mem_toDigits (hb : 1 < b) {p : Char → Prop} (hp : ∀ d < b, p (Nat.digitChar d))
    (n : Nat) : ∀ c ∈ Nat.toDigits b n, p c := by
  induction n using Nat.strongRecOn with
  | ind n ih =>
    by_cases hn : n < b
    · rw [Nat.toDigits_of_lt_base hn]
      exact List.forall_mem_singleton.2 (hp n hn)
    · rw [Nat.toDigits_of_base_le hb (Nat.not_lt.1 hn)]
      exact List.forall_mem_append.2 ⟨ih _ (Nat.div_lt_self (by omega) hb),
        List.forall_mem_singleton.2 (hp _ (Nat.mod_lt n (by omega)))⟩

theorem head?_toDigits (hb : 1 < b) (n : Nat) :
    ∃ d cs, d < b ∧ Nat.toDigits b n = Nat.digitChar d :: cs := by
  induction n using Nat.strongRecOn with
  | ind n ih =>
    by_cases hn : n < b
    · exact ⟨n, [], hn, Nat.toDigits_of_lt_base hn⟩
    · obtain ⟨d, cs, hd, h⟩ := ih (n / b) (Nat.div_lt_self (by omega) hb)
      refine ⟨d, cs ++ [Nat.digitChar (n % b)], hd, ?_⟩
      rw [Nat.toDigits_of_base_le hb (Nat.not_lt.1 hn), h]
      rfl

/-- A number is read back, if what comes after it is no digit. -/
theorem number_toDigits (hb : 1 < b) (hle : b ≤ 16) (n : Nat) {rest : List Char}
    (hrest : ∀ c ∈ rest.head?, digit? b c = none) :
    number b (Nat.toDigits b n ++ rest) = some (n, rest) := by
  obtain ⟨d, cs, hd, hhead⟩ := head?_toDigits hb n
  have hsome : ((Nat.toDigits b n ++ rest).head?.bind (digit? b)).isSome := by
    rw [hhead, List.cons_append, List.head?_cons, Option.bind_some, digit?_digitChar hle hd]
    rfl
  have hread : digits b 0 (Nat.toDigits b n ++ rest) = digits b n rest :=
    read_toDigits hb (fun n d cs hd => by rw [digits, digit?_digitChar hle hd]) n rest
  rw [number, if_pos hsome, hread]
  cases rest with
  | nil => rfl
  | cons c rest => rw [digits, hrest c rfl]

/-- Reading stops before a character that is no digit. -/
theorem digits_rest {c : Char} (hc : digit? b c = none) {cs : List Char} (hmem : c ∈ cs)
    (n : Nat) : (digits b n cs).2 ≠ [] := by
  induction cs generalizing n with
  | nil => cases hmem
  | cons d cs ih =>
    rw [digits]
    split
    · exact List.cons_ne_nil _ _
    · rename_i e he
      rcases List.mem_cons.1 hmem with rfl | hmem
      · rw [hc] at he
        cases he
      · exact ih hmem _

theorem listed_toDigits (hb : 1 < b) (hle : b ≤ 16) (n : Nat) (rest : List Char) :
    listed b 0 (Nat.toDigits b n ++ ',' :: rest) = (listed b 0 rest).map (n :: ·) := by
  have hcomma : ∀ d < 16, Nat.digitChar d ≠ ',' := by decide
  have hread : listed b 0 (Nat.toDigits b n ++ ',' :: rest) = listed b n (',' :: rest) :=
    read_toDigits hb (fun n d cs hd => by
      rw [listed, if_neg (hcomma d (by omega)), digit?_digitChar hle hd]) n _
  rw [hread, listed, if_pos rfl]

/-- Numbers are read back. -/
theorem listed_flatMap (hb : 1 < b) (hle : b ≤ 16) (ns : List Nat) :
    listed b 0 (ns.flatMap fun n => Nat.toDigits b n ++ [',']) = some ns := by
  induction ns with
  | nil => rfl
  | cons n ns ih =>
    rw [List.flatMap_cons, List.append_assoc, List.singleton_append, listed_toDigits hb hle, ih]
    rfl

end

end Digits
end Swarna
