import Swarna.AddressText
import Swarna.Digits

/-!
# Swarna.Ipaddr

The texts of IPv6 addresses that the programs write, and what they read from them: `ipaddr_add` of
the border router, `inet_ntop` and `inet_pton` of the verifier.

* `inetPton`: the address of a text.
* `inetPton_double`, `inetPton_full`: groups with a double colon between, or without one.
* `ipaddr_read`: what `ipaddr_add` and `inet_ntop` write of an address is read as this address.
-/

namespace Swarna
namespace Ipaddr

open Digits (number)
open Verifier (join groups dotted inetNtop longestRun)

/-! ## `inet_pton` -/

/-- One to four hexadecimal digits. -/
def group (p : List Char) : Option (BitVec 16) :=
  match number 16 (p.map Char.toLower) with
  | some (n, []) => if p.length ≤ 4 then some (BitVec.ofNat 16 n) else none
  | _ => none

/-- A decimal number up to 255, without leading zeros. -/
def octet (p : List Char) : Option (BitVec 8) :=
  match number 10 p with
  | some (n, []) => if n ≤ 255 ∧ Nat.toDigits 10 n = p then some (BitVec.ofNat 8 n) else none
  | _ => none

/-- An IPv4 address, as two groups. -/
def quad (p : List Char) : Option (List (BitVec 16)) :=
  match (p.splitOn '.').map octet with
  | [some a, some b, some c, some d] => some [a ++ b, c ++ d]
  | _ => none

/-- The groups of an address; the last may be an IPv4 address if `tail` says so. -/
def words (tail : Bool) : List (List Char) → Option (List (BitVec 16))
  | [] => some []
  | [p] =>
    match group p with
    | some w => some [w]
    | none => if tail then quad p else none
  | p :: ps =>
    match group p, words tail ps with
    | some w, some ws => some (w :: ws)
    | _, _ => none

/-- What is between single colons. -/
def parts (s : List Char) : List (List Char) := if s = [] then [] else s.splitOn ':'

/-- What is before and after the first double colon. -/
def splitDouble : List Char → Option (List Char × List Char)
  | [] => none
  | c :: s =>
    match c, s with
    | ':', ':' :: s => some ([], s)
    | c, s => (splitDouble s).map fun x => (c :: x.1, x.2)

def ofWords (ws : List (BitVec 16)) : Addr :=
  BitVec.ofNat 128 (ws.foldl (fun n w => n * 65536 + w.toNat) 0)

/-- `inet_pton` for `AF_INET6`. -/
def inetPton (s : List Char) : Option Addr :=
  match splitDouble s with
  | none =>
    match words true (parts s) with
    | some ws => if ws.length = 8 then some (ofWords ws) else none
    | none => none
  | some (l, r) =>
    match words false (parts l), words true (parts r) with
    | some wl, some wr =>
      if wl.length + wr.length < 8 then
        some (ofWords (wl ++ List.replicate (8 - (wl.length + wr.length)) 0 ++ wr))
      else none
    | _, _ => none

example : inetPton "fd00::1062".toList = some 0xfd000000000000000000000000001062 := by decide

/-! ## `ipaddr_add` -/

/-- The loop, at byte `i`, with the double colon not written yet (`f` is 0), just written, or
written before (`f` is negative). -/
def ipaddrLoop : (i : Nat) → (f : Int) → List (BitVec 16) → List Char
  | _, _, [] => []
  | i, f, a :: as =>
    if a = 0 ∧ 0 ≤ f then
      (if f = 0 then [':', ':'] else []) ++ ipaddrLoop (i + 2) (f + 1) as
    else
      (if 0 < f then [] else if 0 < i then [':'] else []) ++ Nat.toDigits 16 a.toNat ++
        ipaddrLoop (i + 2) (if 0 < f then -1 else f) as

/-- What `ipaddr_add` adds to the page. -/
def ipaddrAdd (addr : Addr) : List Char := ipaddrLoop 0 0 addr.words

/-! ## Reading groups -/

theorem group_toDigits (w : BitVec 16) : group (Nat.toDigits 16 w.toNat) = some w := by
  have hlower : ∀ c ∈ Nat.toDigits 16 w.toNat, c.toLower = id c :=
    Digits.forall_mem_toDigits (by decide)
      (by decide : ∀ d < 16, (Nat.digitChar d).toLower = Nat.digitChar d) _
  have hlen : (Nat.toDigits 16 w.toNat).length ≤ 4 :=
    (Nat.length_toDigits_le_iff (by decide) (by decide)).2 w.isLt
  have hnum : number 16 (Nat.toDigits 16 w.toNat ++ []) = some (w.toNat, []) :=
    Digits.number_toDigits (by decide) (by decide) _ (by simp)
  rw [List.append_nil] at hnum
  rw [group, List.map_congr_left hlower, List.map_id, hnum]
  simp [hlen]

/-- The text of a group: some digits, and no colon. -/
theorem colon_notMem_toDigits (n : Nat) : ':' ∉ Nat.toDigits 16 n := fun h =>
  Digits.forall_mem_toDigits (b := 16) (p := fun c => c ≠ ':') (by decide) (by decide) n _ h rfl

section

variable {ps : List (List Char)}

theorem join_cons_cons (sep : Char) (p q : List Char) (ps : List (List Char)) :
    join sep (p :: q :: ps) = p ++ sep :: join sep (q :: ps) := rfl

theorem splitOn_join {sep : Char} (hps : ∀ p ∈ ps, sep ∉ p) (hne : ps ≠ []) :
    (join sep ps).splitOn sep = ps := by
  induction ps with
  | nil => exact absurd rfl hne
  | cons p ps ih =>
    obtain ⟨hp, hps⟩ := List.forall_mem_cons.1 hps
    cases ps with
    | nil => exact List.splitOn_eq_singleton hp
    | cons q ps =>
      rw [join_cons_cons, List.splitOn_append_cons_self_of_not_mem hp,
        ih hps (List.cons_ne_nil _ _)]

theorem join_ne_nil {sep : Char} (hps : ∀ p ∈ ps, p ≠ []) (hne : ps ≠ []) : join sep ps ≠ [] := by
  cases ps with
  | nil => exact absurd rfl hne
  | cons p ps =>
    have hp := (List.forall_mem_cons.1 hps).1
    cases ps with
    | nil => exact hp
    | cons q ps =>
      rw [join_cons_cons]
      simp

theorem parts_join (hps : ∀ p ∈ ps, ':' ∉ p ∧ p ≠ []) : parts (join ':' ps) = ps := by
  by_cases hne : ps = []
  · subst hne
    rfl
  · rw [parts, if_neg (join_ne_nil (fun p hp => (hps p hp).2) hne),
      splitOn_join (fun p hp => (hps p hp).1) hne]

/-- A part without colons is before the double colon. -/
theorem splitDouble_append {p : List Char} (hp : ':' ∉ p) (s : List Char) :
    splitDouble (p ++ s) = (splitDouble s).map fun x => (p ++ x.1, x.2) := by
  induction p with
  | nil =>
    cases h : splitDouble s <;> simp [h]
  | cons c p ih =>
    obtain ⟨hc, hp⟩ := not_or.1 (mt List.mem_cons.2 hp)
    rw [List.cons_append, splitDouble]
    · rw [ih hp, Option.map_map]
      rfl
    · intro s' he
      exact absurd he.symm hc

/-- So is a single colon. -/
theorem splitDouble_colon {c : Char} (hc : c ≠ ':') (s : List Char) :
    splitDouble (':' :: c :: s) = (splitDouble (c :: s)).map fun x => (':' :: x.1, x.2) := by
  rw [splitDouble]
  rintro s' - he
  cases he
  exact hc rfl

/-- Nothing in parts joined by colons is a double colon. -/
theorem splitDouble_join (hps : ∀ p ∈ ps, ':' ∉ p ∧ p ≠ []) (s : List Char) :
    splitDouble (join ':' ps ++ s) = (splitDouble s).map fun x => (join ':' ps ++ x.1, x.2) := by
  induction ps with
  | nil => exact (Option.map_id' (x := splitDouble s)).symm
  | cons p ps ih =>
    obtain ⟨hp, hps⟩ := List.forall_mem_cons.1 hps
    cases ps with
    | nil => exact splitDouble_append hp.1 s
    | cons q ps =>
      have hq := (List.forall_mem_cons.1 hps).1
      obtain ⟨c, q', rfl⟩ := List.exists_cons_of_ne_nil hq.2
      have hc : c ≠ ':' := fun h => hq.1 (by simp [h])
      obtain ⟨rest, hrest⟩ : ∃ rest, join ':' ((c :: q') :: ps) = c :: rest := by
        cases ps with
        | nil => exact ⟨q', rfl⟩
        | cons q ps => exact ⟨_, rfl⟩
      have ih := ih hps
      rw [hrest] at ih
      rw [join_cons_cons, hrest, List.append_assoc, splitDouble_append hp.1, List.cons_append,
        List.cons_append, splitDouble_colon hc, ← List.cons_append, ih, Option.map_map,
        Option.map_map]
      simp [Function.comp_def]

end

/-- The texts of groups. -/
def texts (ws : List (BitVec 16)) : List (List Char) := ws.map fun w => Nat.toDigits 16 w.toNat

theorem texts_good (ws : List (BitVec 16)) : ∀ p ∈ texts ws, ':' ∉ p ∧ p ≠ [] := by
  intro p hp
  obtain ⟨w, -, rfl⟩ := List.mem_map.1 hp
  exact ⟨colon_notMem_toDigits _, Nat.toDigits_ne_nil⟩

theorem words_append_texts (tail : Bool) (ws : List (BitVec 16)) {ps : List (List Char)}
    (hps : ps ≠ []) : words tail (texts ws ++ ps) = (words tail ps).map (ws ++ ·) := by
  induction ws with
  | nil => exact (Option.map_id' (x := words tail ps)).symm
  | cons w ws ih =>
    obtain ⟨q, qs, hq⟩ := List.exists_cons_of_ne_nil
      (show texts ws ++ ps ≠ [] by simp [hps])
    have hcons : texts (w :: ws) ++ ps = Nat.toDigits 16 w.toNat :: q :: qs := by
      rw [← hq]
      rfl
    rw [hcons, words, group_toDigits, ← hq, ih]
    · cases words tail ps <;> rfl
    · exact List.cons_ne_nil _ _

theorem words_texts (tail : Bool) (ws : List (BitVec 16)) : words tail (texts ws) = some ws := by
  cases ws using List.reverseRecOn with
  | nil => rfl
  | append_singleton ws w =>
    have hlast : words tail (texts [w]) = some [w] := by
      simp [texts, words, group_toDigits]
    have happ : texts (ws ++ [w]) = texts ws ++ texts [w] := List.map_append
    have hne : texts [w] ≠ [] := List.cons_ne_nil _ _
    rw [happ, words_append_texts tail ws hne, hlast]
    rfl

/-- Groups with a double colon between them. -/
theorem inetPton_double {l r : List (BitVec 16)} (h : l.length + r.length < 8) :
    inetPton (groups l ++ ':' :: ':' :: groups r) =
      some (ofWords (l ++ List.replicate (8 - (l.length + r.length)) 0 ++ r)) := by
  have hsplit : splitDouble (groups l ++ ':' :: ':' :: groups r) = some (groups l, groups r) := by
    refine (splitDouble_join (texts_good l) _).trans ?_
    simp [splitDouble, groups, texts]
  have hl : words false (parts (groups l)) = some l := by
    rw [← words_texts false l, ← parts_join (texts_good l)]
    rfl
  have hr : words true (parts (groups r)) = some r := by
    rw [← words_texts true r, ← parts_join (texts_good r)]
    rfl
  rw [inetPton, hsplit]
  simp only [hl, hr, if_pos h]

/-- Eight groups. -/
theorem inetPton_full {ws : List (BitVec 16)} (h : ws.length = 8) :
    inetPton (groups ws) = some (ofWords ws) := by
  have hsplit : splitDouble (groups ws) = none := by
    have hnone := splitDouble_join (texts_good ws) []
    rw [List.append_nil] at hnone
    exact hnone
  have hws : words true (parts (groups ws)) = some ws := by
    rw [← words_texts true ws, ← parts_join (texts_good ws)]
    rfl
  rw [inetPton, hsplit]
  simp only [hws, if_pos h]

theorem ofWords_words (a : Addr) : ofWords a.words = a := by
  have hword : ∀ k, (a.word k).toNat = a.toNat / 2 ^ (16 * (7 - k)) % 65536 := by
    intro k
    rw [Addr.word, BitVec.extractLsb'_toNat, Nat.shiftRight_eq_div_pow]
  have hlt := a.isLt
  apply BitVec.eq_of_toNat_eq
  simp only [ofWords, Addr.words, List.range_succ, List.range_zero, List.nil_append,
    List.map_append, List.map_cons, List.map_nil, List.foldl_append, List.foldl_cons,
    List.foldl_nil, hword, BitVec.toNat_ofNat]
  omega

/-! ## `ipaddr_add` and `inet_ntop` are read back -/

theorem groups_cons (w : BitVec 16) (ws : List (BitVec 16)) :
    groups (w :: ws) = Nat.toDigits 16 w.toNat ++
      ws.flatMap fun w => ':' :: Nat.toDigits 16 w.toNat := by
  induction ws generalizing w with
  | nil => exact (List.append_nil _).symm
  | cons w' ws ih =>
    rw [List.flatMap_cons, List.cons_append, ← ih w']
    rfl

/-- After the double colon was left behind. -/
theorem ipaddrLoop_neg {i : Nat} (hi : 0 < i) {f : Int} (hf : f < 0) (ws : List (BitVec 16)) :
    ipaddrLoop i f ws = ws.flatMap fun w => ':' :: Nat.toDigits 16 w.toNat := by
  induction ws generalizing i with
  | nil => rfl
  | cons w ws ih =>
    rw [ipaddrLoop, if_neg (by omega), if_neg (by omega), if_pos hi, if_neg (by omega),
      ih (by omega)]
    rfl

/-- Right after the double colon zeros are left out. -/
theorem ipaddrLoop_pos {i : Nat} (hi : 0 < i) {f : Int} (hf : 0 < f) (ws : List (BitVec 16)) :
    ipaddrLoop i f ws = groups (ws.dropWhile (· = 0)) := by
  induction ws generalizing i f with
  | nil => rfl
  | cons w ws ih =>
    by_cases hw : w = 0
    · rw [ipaddrLoop, if_pos ⟨hw, by omega⟩, if_neg (by omega), ih (by omega) (by omega),
        List.dropWhile_cons_of_pos (by simpa using hw)]
      rfl
    · rw [ipaddrLoop, if_neg fun h => hw h.1, if_pos hf, if_pos hf,
        ipaddrLoop_neg (by omega) (by omega), List.dropWhile_cons_of_neg (by simpa using hw),
        groups_cons]
      rfl

/-- What follows the groups before the first zero. -/
def rest : List (BitVec 16) → List Char
  | [] => []
  | _ :: ws => ':' :: ':' :: groups (ws.dropWhile (· = 0))

theorem ipaddrLoop_zero {i : Nat} (hi : 0 < i) (ws : List (BitVec 16)) :
    ipaddrLoop i 0 ws = ((ws.takeWhile (· ≠ 0)).flatMap fun w =>
      ':' :: Nat.toDigits 16 w.toNat) ++ rest (ws.dropWhile (· ≠ 0)) := by
  induction ws generalizing i with
  | nil => rfl
  | cons w ws ih =>
    by_cases hw : w = 0
    · rw [ipaddrLoop, if_pos ⟨hw, by omega⟩, if_pos rfl, ipaddrLoop_pos (by omega) (by omega),
        List.takeWhile_cons_of_neg (by simpa using hw),
        List.dropWhile_cons_of_neg (by simpa using hw)]
      rfl
    · rw [ipaddrLoop, if_neg fun h => hw h.1, if_neg (by omega), if_pos hi, if_neg (by omega),
        ih (by omega), List.takeWhile_cons_of_pos (by simpa using hw),
        List.dropWhile_cons_of_pos (by simpa using hw)]
      simp

/-- The groups before the first zero, and those after the zeros. -/
theorem ipaddrLoop_start (ws : List (BitVec 16)) :
    ipaddrLoop 0 0 ws = groups (ws.takeWhile (· ≠ 0)) ++ rest (ws.dropWhile (· ≠ 0)) := by
  cases ws with
  | nil => rfl
  | cons w ws =>
    by_cases hw : w = 0
    · rw [ipaddrLoop, if_pos ⟨hw, by omega⟩, if_pos rfl, ipaddrLoop_pos (by omega) (by omega),
        List.takeWhile_cons_of_neg (by simpa using hw),
        List.dropWhile_cons_of_neg (by simpa using hw)]
      rfl
    · rw [ipaddrLoop, if_neg fun h => hw h.1, if_neg (by omega), if_neg (by omega),
        if_neg (by omega), ipaddrLoop_zero (by omega),
        List.takeWhile_cons_of_pos (by simpa using hw),
        List.dropWhile_cons_of_pos (by simpa using hw), groups_cons]
      simp

/-- Words with zeros in their midst, read from their groups. -/
theorem inetPton_zeros {a : Addr} {l r : List (BitVec 16)} {k : Nat}
    (h : a.words = l ++ List.replicate (k + 1) 0 ++ r) :
    inetPton (groups l ++ ':' :: ':' :: groups r) = some a := by
  have hlen : l.length + (k + 1) + r.length = 8 := by
    have h8 : a.words.length = 8 := rfl
    rw [h, List.length_append, List.length_append, List.length_replicate] at h8
    exact h8
  rw [inetPton_double (by omega), show 8 - (l.length + r.length) = k + 1 by omega, ← h,
    ofWords_words]

theorem takeWhile_zeros (ws : List (BitVec 16)) :
    ws.takeWhile (· = 0) = List.replicate (ws.takeWhile (· = 0)).length 0 := by
  refine List.eq_replicate_iff.2 ⟨rfl, fun w hw => ?_⟩
  simpa using List.mem_takeWhile_imp hw

theorem inetPton_ipaddrAdd (a : Addr) : inetPton (ipaddrAdd a) = some a := by
  rw [ipaddrAdd, ipaddrLoop_start]
  have hsplit := List.takeWhile_append_dropWhile (p := fun w => decide (w ≠ 0)) (l := a.words)
  cases hdrop : a.words.dropWhile (· ≠ 0) with
  | nil =>
    rw [hdrop, List.append_nil] at hsplit
    rw [hsplit, rest, List.append_nil, inetPton_full rfl, ofWords_words]
  | cons z ws =>
    have hz : z = 0 := by
      have := List.head?_dropWhile_not (p := fun w => decide (w ≠ 0)) (l := a.words)
      rw [hdrop] at this
      simpa using this
    subst hz
    rw [rest]
    refine inetPton_zeros (k := (ws.takeWhile (· = 0)).length) ?_
    rw [List.replicate_succ, ← takeWhile_zeros, List.append_assoc, List.cons_append,
      List.takeWhile_append_dropWhile, ← hdrop, hsplit]

/-- The longest run is one of zeros. -/
theorem longestRun_zeros (ws : List (BitVec 16)) :
    (longestRun ws).2 ≤ ((ws.drop (longestRun ws).1).takeWhile (· = 0)).length := by
  have hfold : ∀ (is : List Nat) (best : Nat × Nat),
      best.2 ≤ ((ws.drop best.1).takeWhile (· = 0)).length →
      (is.foldl (fun best i =>
        let len := ((ws.drop i).takeWhile (· = 0)).length
        if best.2 < len then (i, len) else best) best).2 ≤
      ((ws.drop (is.foldl (fun best i =>
        let len := ((ws.drop i).takeWhile (· = 0)).length
        if best.2 < len then (i, len) else best) best).1).takeWhile (· = 0)).length := by
    intro is
    induction is with
    | nil => exact fun _ h => h
    | cons i is ih =>
      intro best h
      rw [List.foldl_cons]
      refine ih _ ?_
      dsimp only
      split
      · exact Nat.le_refl _
      · exact h
  exact hfold _ _ (Nat.zero_le _)

/-- The words around the run that `inet_ntop` leaves out. -/
theorem words_longestRun (ws : List (BitVec 16)) : ws = ws.take (longestRun ws).1 ++
    List.replicate (longestRun ws).2 0 ++ ws.drop ((longestRun ws).1 + (longestRun ws).2) := by
  have hle := longestRun_zeros ws
  have hzeros : (ws.drop (longestRun ws).1).take (longestRun ws).2 =
      List.replicate (longestRun ws).2 0 := by
    rw [← List.takeWhile_append_dropWhile (p := fun w => decide (w = 0))
      (l := ws.drop (longestRun ws).1), List.take_append_of_le_length hle, takeWhile_zeros,
      List.take_replicate, Nat.min_eq_left hle]
  rw [← hzeros, List.append_assoc, ← List.drop_drop, List.take_append_drop,
    List.take_append_drop]

theorem octet_toDigits (b : BitVec 8) : octet (Nat.toDigits 10 b.toNat) = some b := by
  have hnum : number 10 (Nat.toDigits 10 b.toNat ++ []) = some (b.toNat, []) :=
    Digits.number_toDigits (by decide) (by decide) _ (by simp)
  rw [List.append_nil] at hnum
  have hle : b.toNat ≤ 255 := Nat.le_of_lt_succ b.isLt
  rw [octet, hnum]
  simp [hle]

theorem dot_notMem_toDigits (n : Nat) : '.' ∉ Nat.toDigits 10 n := fun h =>
  Digits.forall_mem_toDigits (b := 10) (p := fun c => c ≠ '.') (by decide) (by decide) n _ h rfl

theorem word_eq_u8 (a : Addr) : a.u8 12 ++ a.u8 13 = a.word 6 ∧ a.u8 14 ++ a.u8 15 = a.word 7 :=
  ⟨BitVec.extractLsb'_append_extractLsb'_eq_extractLsb' rfl,
    BitVec.extractLsb'_append_extractLsb'_eq_extractLsb' rfl⟩

theorem quad_dotted (a : Addr) : quad (dotted a) = some [a.word 6, a.word 7] := by
  have hsplit : (dotted a).splitOn '.' =
      [12, 13, 14, 15].map fun k => Nat.toDigits 10 (a.u8 k).toNat := by
    refine splitOn_join (fun p hp => ?_) (List.cons_ne_nil _ _)
    obtain ⟨k, -, rfl⟩ := List.mem_map.1 hp
    exact dot_notMem_toDigits _
  have hoctets : ((dotted a).splitOn '.').map octet =
      [some (a.u8 12), some (a.u8 13), some (a.u8 14), some (a.u8 15)] := by
    rw [hsplit, List.map_map]
    simp [octet_toDigits]
  rw [quad, hoctets, ← (word_eq_u8 a).1, ← (word_eq_u8 a).2]

theorem group_none {p : List Char} {c : Char} (hc : c ∈ p)
    (hdigit : Digits.digit? 16 c.toLower = none) : group p = none := by
  have hrest := Digits.digits_rest hdigit (List.mem_map_of_mem hc) 0
  have hnum : ∀ n, number 16 (p.map Char.toLower) ≠ some (n, []) := by
    intro n h
    rw [number] at h
    split at h
    · exact hrest (congrArg Prod.snd (Option.some.inj h))
    · cases h
  rw [group]
  split
  · rename_i n h
    exact absurd h (hnum n)
  · rfl

theorem group_dotted (a : Addr) : group (dotted a) = none :=
  group_none (c := '.') (List.mem_append_right _ List.mem_cons_self) (by decide)

theorem mem_join {sep c : Char} {ps : List (List Char)} (h : c ∈ join sep ps) :
    c = sep ∨ ∃ p ∈ ps, c ∈ p := by
  fun_induction join sep ps with
  | case1 => cases h
  | case2 p => exact .inr ⟨p, List.mem_cons_self, h⟩
  | case3 p ps _ ih =>
    rcases List.mem_append.1 h with h | h
    · exact .inr ⟨p, List.mem_cons_self, h⟩
    · rcases List.mem_cons.1 h with h | h
      · exact .inl h
      · rcases ih h with h | ⟨q, hq, h⟩
        · exact .inl h
        · exact .inr ⟨q, List.mem_cons_of_mem _ hq, h⟩

theorem colon_notMem_dotted (a : Addr) : ':' ∉ dotted a := by
  intro h
  rcases mem_join h with h | ⟨p, hp, h⟩
  · exact absurd h (by decide)
  · obtain ⟨k, -, rfl⟩ := List.mem_map.1 hp
    exact Digits.forall_mem_toDigits (b := 10) (p := fun c => c ≠ ':') (by decide) (by decide)
      _ _ h rfl

/-- The last 32 bits, in dotted notation. -/
theorem words_dotted (a : Addr) (ws : List (BitVec 16)) :
    words true (texts ws ++ [dotted a]) = some (ws ++ [a.word 6, a.word 7]) := by
  have hlast : words true [dotted a] = some [a.word 6, a.word 7] := by
    rw [words, group_dotted]
    exact quad_dotted a
  rw [words_append_texts true ws (List.cons_ne_nil _ _), hlast]
  rfl

/-- An address that starts with zeros. -/
theorem inetPton_dotted {a : Addr} {ws : List (BitVec 16)} (hlen : ws.length < 6)
    (h : a.words = List.replicate (6 - ws.length) 0 ++ ws ++ [a.word 6, a.word 7]) :
    inetPton (':' :: ':' :: join ':' (texts ws ++ [dotted a])) = some a := by
  have hsplit : splitDouble (':' :: ':' :: join ':' (texts ws ++ [dotted a])) =
      some ([], join ':' (texts ws ++ [dotted a])) := by
    rw [splitDouble]
  have hparts : parts (join ':' (texts ws ++ [dotted a])) = texts ws ++ [dotted a] := by
    refine parts_join (List.forall_mem_append.2 ⟨texts_good ws, List.forall_mem_singleton.2 ?_⟩)
    refine ⟨colon_notMem_dotted a, List.append_ne_nil_of_left_ne_nil Nat.toDigits_ne_nil _⟩
  have hl : words false (parts []) = some [] := rfl
  have hfew : ([] : List (BitVec 16)).length + (ws ++ [a.word 6, a.word 7]).length < 8 := by
    simp only [List.length_nil, List.length_append, List.length_cons]
    omega
  have hzeros : 8 - (([] : List (BitVec 16)).length + (ws ++ [a.word 6, a.word 7]).length) =
      6 - ws.length := by
    simp only [List.length_nil, List.length_append, List.length_cons]
    omega
  rw [inetPton, hsplit]
  simp only [hl, hparts, words_dotted, if_pos hfew]
  rw [hzeros, List.nil_append, ← List.append_assoc, ← h, ofWords_words]

theorem inetPton_inetNtop (a : Addr) : inetPton (inetNtop a) = some a := by
  have hwords := words_longestRun a.words
  simp only [inetNtop]
  split
  · rw [inetPton_full rfl, ofWords_words]
  · rename_i hlen
    split
    · rename_i h
      rw [h.1, h.2] at hwords
      exact inetPton_dotted (by decide : ([] : List (BitVec 16)).length < 6) hwords
    · split
      · rename_i h
        rw [h.1, h.2.1] at hwords
        have hdrop : a.words.drop (0 + 5) = [0xffff] ++ [a.word 6, a.word 7] := by
          rw [← h.2.2]
          rfl
        rw [hdrop, ← List.append_assoc] at hwords
        exact inetPton_dotted (by decide : ([0xffff] : List (BitVec 16)).length < 6) hwords
      · obtain ⟨k, hk⟩ : ∃ k, (longestRun a.words).2 = k + 1 :=
          ⟨(longestRun a.words).2 - 1, by omega⟩
        rw [hk] at hwords ⊢
        rw [List.append_assoc]
        exact inetPton_zeros hwords

/-- Either text of an address is read as the address. -/
theorem ipaddr_read (a : Addr) :
    inetPton (ipaddrAdd a) = some a ∧ inetPton (inetNtop a) = some a :=
  ⟨inetPton_ipaddrAdd a, inetPton_inetNtop a⟩

end Ipaddr
end Swarna
