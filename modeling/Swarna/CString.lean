import Mathlib.Algebra.Group.Nat.Defs
import Mathlib.Data.List.Infix
import Mathlib.Data.List.TakeWhile

/-!
# Swarna.CString

Functions of the C library on strings, as lists of characters: `fgets`, `strtok`, `strstr`,
`strncmp`, `atoi`. A string ends before its first NUL; the functions that take a string expect
that part.

`readAll` calls a reader until it returns nothing: `fgetsAll` are the lines a file is read in,
`strtokAll` the tokens of a string.
-/

namespace Swarna
namespace CString

/-- The string a buffer holds. -/
def cstr (buf : List Char) : List Char := buf.takeWhile (· ≠ '\x00')

theorem cstr_eq {s : List Char} (h : '\x00' ∉ s) : cstr s = s := by
  rw [cstr, List.takeWhile_eq_self_iff]
  intro c hc
  have : c ≠ '\x00' := fun he => h (he ▸ hc)
  simpa using this

/-! ## Reading until there is nothing left -/

section

variable (next : List Char → Option (List Char × List Char))

def readUpTo : Nat → List Char → List (List Char)
  | 0, _ => []
  | n + 1, s =>
    match next s with
    | none => []
    | some (x, rest) => x :: readUpTo n rest

/-- What a reader that takes at least one character at a time reads. -/
def readAll (s : List Char) : List (List Char) := readUpTo next (s.length + 1) s

variable {next}

theorem readUpTo_eq (h : ∀ s x rest, next s = some (x, rest) → rest.length < s.length) {n m : Nat}
    {s : List Char} (hn : s.length < n) (hm : s.length < m) :
    readUpTo next n s = readUpTo next m s := by
  induction n generalizing s m with
  | zero => exact absurd hn (Nat.not_lt_zero _)
  | succ n ih =>
    cases m with
    | zero => exact absurd hm (Nat.not_lt_zero _)
    | succ m =>
      cases hs : next s with
      | none => simp only [readUpTo, hs]
      | some p =>
        have hlt := h s p.1 p.2 hs
        simp only [readUpTo, hs]
        rw [ih (m := m) (by omega) (by omega)]

theorem readAll_none {s : List Char} (hs : next s = none) : readAll next s = [] := by
  simp only [readAll, readUpTo, hs]

theorem readAll_some (h : ∀ s x rest, next s = some (x, rest) → rest.length < s.length)
    {s x rest : List Char} (hs : next s = some (x, rest)) :
    readAll next s = x :: readAll next rest := by
  have hlt := h s x rest hs
  simp only [readAll]
  rw [readUpTo]
  simp only [hs]
  rw [readUpTo_eq h hlt (Nat.lt_succ_self _)]

end

/-! ## `fgets` -/

/-- At most `room` characters, up to and including the first newline; and what is left. -/
def fgetsLine : (room : Nat) → List Char → List Char × List Char
  | 0, s => ([], s)
  | _ + 1, [] => ([], [])
  | room + 1, c :: s =>
    if c = '\n' then ([c], s)
    else
      let (line, rest) := fgetsLine room s
      (c :: line, rest)

/-- `fgets` into a buffer of `size` characters. -/
def fgets (size : Nat) (s : List Char) : Option (List Char × List Char) :=
  if s = [] then none else some (fgetsLine (size - 1) s)

def fgetsAll (size : Nat) : List Char → List (List Char) := readAll (fgets size)

theorem fgetsLine_length (room : Nat) (s : List Char) :
    (fgetsLine room s).2.length ≤ s.length := by
  fun_induction fgetsLine room s with
  | case1 => exact Nat.le_refl _
  | case2 => exact Nat.le_refl _
  | case3 => simp
  | case4 room c s _ line rest heq ih =>
    rw [heq] at ih
    exact Nat.le_trans ih (Nat.le_succ _)

theorem fgets_length {size : Nat} (hsize : 2 ≤ size) (s line rest : List Char)
    (h : fgets size s = some (line, rest)) : rest.length < s.length := by
  obtain ⟨room, hroom⟩ : ∃ room, size - 1 = room + 1 := ⟨size - 2, by omega⟩
  cases s with
  | nil => cases h
  | cons c s =>
    simp only [fgets, List.cons_ne_nil, if_false, Option.some.injEq, hroom, fgetsLine] at h
    split at h
    · cases h
      exact Nat.lt_succ_self _
    · have hle := fgetsLine_length room s
      cases h
      exact Nat.lt_succ_of_le hle

theorem fgetsLine_newline {room : Nat} {l : List Char} (rest : List Char) (hl : '\n' ∉ l)
    (hroom : l.length < room) : fgetsLine room (l ++ '\n' :: rest) = (l ++ ['\n'], rest) := by
  induction l generalizing room with
  | nil =>
    obtain ⟨room, rfl⟩ := Nat.exists_eq_succ_of_ne_zero (Nat.ne_of_gt hroom)
    simp [fgetsLine]
  | cons c l ih =>
    rw [List.length_cons] at hroom
    obtain ⟨room, rfl⟩ := Nat.exists_eq_succ_of_ne_zero (Nat.ne_of_gt (Nat.zero_lt_of_lt hroom))
    simp only [List.mem_cons, not_or] at hl
    simp [fgetsLine, Ne.symm hl.1, ih hl.2 (Nat.lt_of_succ_lt_succ hroom)]

theorem fgetsLine_end {room : Nat} {l : List Char} (hl : '\n' ∉ l) (hroom : l.length ≤ room) :
    fgetsLine room l = (l, []) := by
  induction l generalizing room with
  | nil => cases room <;> rfl
  | cons c l ih =>
    rw [List.length_cons] at hroom
    obtain ⟨room, rfl⟩ := Nat.exists_eq_succ_of_ne_zero (Nat.ne_of_gt (Nat.zero_lt_of_lt hroom))
    simp only [List.mem_cons, not_or] at hl
    simp [fgetsLine, Ne.symm hl.1, ih hl.2 (Nat.le_of_succ_le_succ hroom)]

/-- A line that fits the buffer is read whole. -/
theorem fgetsAll_line {size : Nat} {l : List Char} (rest : List Char) (hl : '\n' ∉ l)
    (hsize : l.length + 1 < size) :
    fgetsAll size (l ++ '\n' :: rest) = (l ++ ['\n']) :: fgetsAll size rest := by
  refine readAll_some (fgets_length (by omega)) ?_
  rw [fgets, if_neg (by simp), fgetsLine_newline rest hl (by omega)]

/-- So is a last line without a newline. -/
theorem fgetsAll_end {size : Nat} {l : List Char} (hl : '\n' ∉ l) (hne : l ≠ [])
    (hsize : l.length < size) : fgetsAll size l = [l] := by
  have hpos : 0 < l.length := List.length_pos_of_ne_nil hne
  have hs : fgets size l = some (l, []) := by
    rw [fgets, if_neg hne, fgetsLine_end hl (by omega)]
  rw [fgetsAll, readAll_some (fgets_length (by omega)) hs, readAll_none rfl]

theorem fgetsLine_full {room : Nat} {l : List Char} (rest : List Char) (hl : '\n' ∉ l)
    (hroom : l.length = room) : fgetsLine room (l ++ rest) = (l, rest) := by
  induction l generalizing room with
  | nil =>
    subst hroom
    rfl
  | cons c l ih =>
    subst hroom
    simp only [List.mem_cons, not_or] at hl
    simp [fgetsLine, Ne.symm hl.1, ih hl.2 rfl]

/-- What is too long for the buffer is cut. -/
theorem fgetsAll_full {size : Nat} {l : List Char} (rest : List Char) (hl : '\n' ∉ l)
    (hne : l ≠ []) (hsize : l.length + 1 = size) :
    fgetsAll size (l ++ rest) = l :: fgetsAll size rest := by
  have hpos : 0 < l.length := List.length_pos_of_ne_nil hne
  refine readAll_some (fgets_length (by omega)) ?_
  rw [fgets, if_neg (List.append_ne_nil_of_left_ne_nil hne _), fgetsLine_full rest hl (by omega)]

/-! ## `strtok` -/

/-- One call of `strtok`, on a string or on what the last call left: the token, and what is left.
The delimiter after the token is overwritten by the NUL that ends it. -/
def strtok (delims s : List Char) : Option (List Char × List Char) :=
  match s.dropWhile (delims.contains ·) with
  | [] => none
  | c :: s =>
    some ((c :: s).takeWhile (!delims.contains ·), ((c :: s).dropWhile (!delims.contains ·)).tail)

def strtokAll (delims : List Char) : List Char → List (List Char) := readAll (strtok delims)

section

variable {delims : List Char}

theorem strtok_length (s tok rest : List Char) (h : strtok delims s = some (tok, rest)) :
    rest.length < s.length := by
  simp only [strtok] at h
  split at h
  · cases h
  · rename_i c s' hs
    cases h
    have h₁ : (c :: s').length ≤ s.length := hs ▸ (List.dropWhile_suffix _).length_le
    have h₂ := (List.dropWhile_suffix (l := c :: s') fun x => !delims.contains x).length_le
    rw [List.length_tail]
    rw [List.length_cons] at h₁ h₂
    omega

/-- Delimiters in front are skipped. -/
theorem strtok_delim {c : Char} (hc : c ∈ delims) (s : List Char) :
    strtok delims (c :: s) = strtok delims s := by
  simp [strtok, List.dropWhile_cons, hc]

theorem strtok_token {tok : List Char} (hne : tok ≠ []) (htok : ∀ c ∈ tok, c ∉ delims)
    {rest : List Char} (hrest : ∀ c ∈ rest.head?, c ∈ delims) :
    strtok delims (tok ++ rest) = some (tok, rest.tail) := by
  obtain ⟨c, tok, rfl⟩ := List.exists_cons_of_ne_nil hne
  have hdrop : (c :: tok ++ rest).dropWhile (delims.contains ·) = c :: tok ++ rest := by
    have := htok c (List.mem_cons_self ..)
    simp [this]
  have hall : ∀ x ∈ c :: tok, (!delims.contains x) = true := fun x hx => by simpa using htok x hx
  have htake : (c :: tok ++ rest).takeWhile (!delims.contains ·) = c :: tok := by
    rw [List.takeWhile_append_of_pos hall]
    cases rest with
    | nil => simp
    | cons d rest =>
      have := hrest d rfl
      simp [this]
  have htail : (c :: tok ++ rest).dropWhile (!delims.contains ·) = rest := by
    rw [List.dropWhile_append_of_pos hall]
    cases rest with
    | nil => rfl
    | cons d rest =>
      have := hrest d rfl
      simp [this]
  rw [List.cons_append] at hdrop htake htail ⊢
  simp only [strtok, hdrop, htake, htail]

theorem strtok_end {tok : List Char} (hne : tok ≠ []) (htok : ∀ c ∈ tok, c ∉ delims) :
    strtok delims tok = some (tok, []) := by
  have hnil : ∀ c ∈ ([] : List Char).head?, c ∈ delims := by simp
  have h := strtok_token hne htok hnil
  rwa [List.append_nil] at h

@[simp] theorem strtokAll_nil : strtokAll delims [] = [] := readAll_none rfl

theorem strtokAll_delim {c : Char} (hc : c ∈ delims) (s : List Char) :
    strtokAll delims (c :: s) = strtokAll delims s := by
  cases hs : strtok delims s with
  | none =>
    rw [strtokAll, readAll_none hs, readAll_none ((strtok_delim hc s).trans hs)]
  | some p =>
    rw [strtokAll, readAll_some strtok_length hs,
      readAll_some strtok_length ((strtok_delim hc s).trans hs)]

theorem strtokAll_token {tok : List Char} (hne : tok ≠ []) (htok : ∀ c ∈ tok, c ∉ delims)
    {rest : List Char} (hrest : ∀ c ∈ rest.head?, c ∈ delims) :
    strtokAll delims (tok ++ rest) = tok :: strtokAll delims rest.tail :=
  readAll_some strtok_length (strtok_token hne htok hrest)

theorem strtokAll_end {tok : List Char} (hne : tok ≠ []) (htok : ∀ c ∈ tok, c ∉ delims) :
    strtokAll delims tok = [tok] := by
  rw [strtokAll, readAll_some strtok_length (strtok_end hne htok), readAll_none rfl]

end

/-! ## `strstr` and `strncmp` -/

/-- `strstr` finds an occurrence. -/
def strstr (s sub : List Char) : Bool := s.tails.any fun t => sub.isPrefixOf t

theorem strstr_iff {s sub : List Char} : strstr s sub = true ↔ sub <:+: s := by
  simp only [strstr, List.any_eq_true, List.mem_tails, List.isPrefixOf_iff_prefix]
  rw [List.infix_iff_prefix_suffix]
  simp only [and_comm]

/-- A string that lacks a character of another does not contain it. -/
theorem strstr_eq_false {s sub : List Char} {c : Char} (hc : c ∈ sub) (hs : c ∉ s) :
    strstr s sub = false := by
  rw [Bool.eq_false_iff, Ne, strstr_iff]
  exact fun h => hs (h.subset hc)

theorem strstr_snoc {s sub : List Char} {c : Char} (hne : sub ≠ []) (hc : c ∉ sub) :
    strstr (s ++ [c]) sub = strstr s sub := by
  rw [Bool.eq_iff_iff, strstr_iff, strstr_iff, List.infix_concat_iff]
  refine or_iff_right ?_
  rw [List.suffix_concat_iff]
  rintro (h | ⟨t, rfl, -⟩)
  · exact hne h
  · exact hc (by simp)

/-- `strncmp(a, b, n) == 0`. -/
def strncmpEq (n : Nat) (a b : List Char) : Bool := a.take n == b.take n

/-! ## `atoi` -/

def isSpace (c : Char) : Bool := c ∈ [' ', '\t', '\n', '\x0b', '\x0c', '\r']

/-- `strtol` in base 10, with the greatest value of `long`: a value out of range becomes the nearest
one in range. -/
def strtol (longMax : Nat) (s : List Char) : Int :=
  match s.dropWhile isSpace with
  | '-' :: ds => -(min (Nat.ofDigitChars 10 (ds.takeWhile Char.isDigit) 0) (longMax + 1) : Nat)
  | '+' :: ds => (min (Nat.ofDigitChars 10 (ds.takeWhile Char.isDigit) 0) longMax : Nat)
  | ds => (min (Nat.ofDigitChars 10 (ds.takeWhile Char.isDigit) 0) longMax : Nat)

/-- `INT_MAX`. -/
def intMax : Nat := 2 ^ 31 - 1

/-- `atoi`: `strtol`, converted to `int`. -/
def atoi (longMax : Nat) (s : List Char) : Int := (strtol longMax s).bmod (2 ^ 32)

/-- Of a run of digits `strtol` returns the value, or the greatest `long`. -/
theorem strtol_digits (longMax : Nat) {ds rest : List Char} (hne : ds ≠ [])
    (hds : ∀ c ∈ ds, c.isDigit = true) (hrest : ∀ c ∈ rest.head?, c.isDigit = false) :
    strtol longMax (ds ++ rest) = (min (Nat.ofDigitChars 10 ds 0) longMax : Nat) := by
  obtain ⟨c, ds, rfl⟩ := List.exists_cons_of_ne_nil hne
  have hc := hds c (List.mem_cons_self ..)
  have hspace : isSpace c = false := by
    by_contra h
    simp only [isSpace, List.mem_cons, List.not_mem_nil, or_false, decide_eq_false_iff_not,
      not_not] at h
    rcases h with rfl | rfl | rfl | rfl | rfl | rfl <;> exact absurd hc (by decide)
  have hdigits : (c :: ds ++ rest).takeWhile Char.isDigit = c :: ds := by
    rw [List.takeWhile_append_of_pos hds]
    cases rest with
    | nil => simp
    | cons d rest => simp [hrest d rfl]
  rw [List.cons_append] at hdigits ⊢
  simp only [strtol, List.dropWhile_cons, hspace, Bool.false_eq_true, if_false]
  split
  · rename_i heq
    cases heq
    exact absurd hc (by decide)
  · rename_i heq
    cases heq
    exact absurd hc (by decide)
  · rw [hdigits]

theorem atoi_digits {longMax : Nat} (hlong : intMax ≤ longMax) {ds rest : List Char}
    (hne : ds ≠ []) (hds : ∀ c ∈ ds, c.isDigit = true)
    (hrest : ∀ c ∈ rest.head?, c.isDigit = false) (hmax : Nat.ofDigitChars 10 ds 0 ≤ intMax) :
    atoi longMax (ds ++ rest) = (Nat.ofDigitChars 10 ds 0 : Nat) := by
  rw [atoi, strtol_digits longMax hne hds hrest, Nat.min_eq_left (Nat.le_trans hmax hlong)]
  have : intMax = 2 ^ 31 - 1 := rfl
  exact Int.bmod_eq_of_le (by omega) (by omega)

end CString
end Swarna
