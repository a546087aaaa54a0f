import Swarna.MapFile
import Swarna.VerifierRounds
import Swarna.RequestFile

/-!
# Swarna.AddressText

`get_id_from_addr` on the texts of `inet_ntop`. Ten characters are compared, and a short text in the
table goes on with the newline of its line.

* `inetNtop`: the text of an address.
* `NodeMap.Prints`: a map whose addresses are written so, each with its newline.
* `attributed_iff`: an address is attributed to its node, or to none, exactly when its first ten
  characters tell it from the addresses of the map.
* `short_address`, `longer_address`: an address of nine characters, and one that goes on behind the
  tenth.
-/

namespace Swarna

/-! ## `inet_ntop` -/

/-- The `k`-th 16 bits of an address. -/
def Addr.word (a : Addr) (k : Nat) : BitVec 16 := a.extractLsb' (16 * (7 - k)) 16

def Addr.words (a : Addr) : List (BitVec 16) := (List.range 8).map a.word

namespace Verifier

open CString

/-- The first of the longest runs of zeros: where it starts, and its length. -/
def longestRun (ws : List (BitVec 16)) : Nat × Nat :=
  (List.range ws.length).foldl (fun best i =>
    let len := ((ws.drop i).takeWhile (· = 0)).length
    if best.2 < len then (i, len) else best) (0, 0)

def join (sep : Char) : List (List Char) → List Char
  | [] => []
  | [p] => p
  | p :: ps => p ++ sep :: join sep ps

/-- `%x` of each, with colons between. -/
def groups (ws : List (BitVec 16)) : List Char :=
  join ':' (ws.map fun w => Nat.toDigits 16 w.toNat)

/-- The last four bytes, as of an IPv4 address. -/
def dotted (a : Addr) : List Char :=
  join '.' ([12, 13, 14, 15].map fun k => Nat.toDigits 10 (a.u8 k).toNat)

/-- `inet_ntop` for `AF_INET6`. -/
def inetNtop (a : Addr) : List Char :=
  let (base, len) := longestRun a.words
  if len < 2 then groups a.words
  else if base = 0 ∧ len = 6 then "::".toList ++ dotted a
  else if base = 0 ∧ len = 5 ∧ a.word 5 = 0xffff then "::ffff:".toList ++ dotted a
  else groups (a.words.take base) ++ "::".toList ++ groups (a.words.drop (base + len))

example : inetNtop 0xfd000000000000000000000000001062 = "fd00::1062".toList := by decide

theorem newline_notMem_toDigits {b : Nat} (hb : 1 < b) (hle : b ≤ 16) (n : Nat) :
    '\n' ∉ Nat.toDigits b n := by
  have hdigit : ∀ d < 16, '\n' ≠ Nat.digitChar d := by decide
  induction n using Nat.strongRecOn with
  | ind n ih =>
    rw [Nat.toDigits_eq_if hb]
    split
    · rename_i hn
      rw [List.mem_singleton]
      exact hdigit n (by omega)
    · rw [List.mem_append, List.mem_singleton]
      have hmod := Nat.mod_lt n (Nat.zero_lt_of_lt hb)
      rintro (h | h)
      · exact ih _ (Nat.div_lt_self (by omega) hb) h
      · exact hdigit _ (by omega) h

theorem newline_notMem_join {sep : Char} (hsep : sep ≠ '\n') {ps : List (List Char)}
    (hps : ∀ p ∈ ps, '\n' ∉ p) : '\n' ∉ join sep ps := by
  fun_induction join sep ps with
  | case1 => exact List.not_mem_nil
  | case2 p => exact hps p List.mem_cons_self
  | case3 p ps hne ih =>
    obtain ⟨hp, hps⟩ := List.forall_mem_cons.1 hps
    rw [List.mem_append, List.mem_cons]
    rintro (h | h | h)
    · exact hp h
    · exact hsep h.symm
    · exact ih hps h

theorem newline_notMem_groups (ws : List (BitVec 16)) : '\n' ∉ groups ws := by
  refine newline_notMem_join (by decide) fun p hp => ?_
  obtain ⟨w, -, rfl⟩ := List.mem_map.1 hp
  exact newline_notMem_toDigits (by decide) (by decide) _

theorem newline_notMem_inetNtop (a : Addr) : '\n' ∉ inetNtop a := by
  have hdotted : '\n' ∉ dotted a := by
    refine newline_notMem_join (by decide) fun p hp => ?_
    obtain ⟨k, -, rfl⟩ := List.mem_map.1 hp
    exact newline_notMem_toDigits (by decide) (by decide) _
  simp only [inetNtop]
  split
  · exact newline_notMem_groups _
  · split
    · exact List.not_mem_append (by decide) hdotted
    · split
      · exact List.not_mem_append (by decide) hdotted
      · exact List.not_mem_append
          (List.not_mem_append (newline_notMem_groups _) (by decide)) (newline_notMem_groups _)

/-! ## The map -/

/-- Distinct ids other than 0, and distinct addresses. -/
structure NodeMap.Prints (m : NodeMap) (table : List (BitVec 8 × Addr)) : Prop where
  entries : m.entries.map (fun e => (e.id, e.addr)) =
    table.map fun r => (r.1, inetNtop r.2 ++ ['\n'])
  ids : (table.map Prod.fst).Nodup
  ne_zero : ∀ r ∈ table, r.1 ≠ 0
  addrs : (table.map Prod.snd).Nodup

/-- A datagram from `x` is attributed to the node of the map with that address, or to none. -/
structure Attributed (m : NodeMap) (table : List (BitVec 8 × Addr)) (x : Addr) : Prop where
  own : ∀ id, (id, x) ∈ table → getIdFromAddr m (inetNtop x) = id
  other : x ∉ table.map Prod.snd → getIdFromAddr m (inetNtop x) = 0

/-- The ten characters compared are those of `y` and do not tell `x` from it. -/
def Confuses (y x : Addr) : Prop :=
  10 ≤ (inetNtop y).length ∧ (inetNtop x).take 10 = (inetNtop y).take 10

instance (y x : Addr) : Decidable (Confuses y x) := inferInstanceAs (Decidable (_ ∧ _))

/-- The first ten characters tell `x` from the addresses of the map, or from those before it. -/
structure Told (table : List (BitVec 8 × Addr)) (x : Addr) : Prop where
  long : x ∈ table.map Prod.snd → 10 ≤ (inetNtop x).length
  before : ∀ pre id post, table = pre ++ (id, x) :: post → ∀ r ∈ pre, ¬ Confuses r.2 x
  other : x ∉ table.map Prod.snd → ∀ r ∈ table, ¬ Confuses r.2 x

/-- The comparison of `get_id_from_addr`. -/
def compares (x : Addr) (r : BitVec 8 × Addr) : Bool :=
  strncmpEq 10 (inetNtop x) (inetNtop r.2 ++ ['\n'])

/-- The newline of a short text is compared too. -/
theorem compares_iff (x : Addr) (r : BitVec 8 × Addr) : compares x r = true ↔ Confuses r.2 x := by
  obtain ⟨id, y⟩ := r
  rw [compares, strncmpEq, beq_iff_eq]
  by_cases hlen : 10 ≤ (inetNtop y).length
  · rw [List.take_append_of_le_length hlen]
    exact (and_iff_right hlen).symm
  · refine iff_of_false (fun heq => ?_) fun h => hlen h.1
    have hmem : '\n' ∈ (inetNtop y ++ ['\n']).take 10 := by
      rw [List.take_of_length_le (by rw [List.length_append, List.length_singleton]; omega)]
      exact List.mem_append_right _ (List.mem_singleton_self _)
    rw [← heq] at hmem
    exact newline_notMem_inetNtop x (List.mem_of_mem_take hmem)

section

variable {m : NodeMap} {table : List (BitVec 8 × Addr)} {x : Addr}

/-- The rows of a table decide what is looked up in it. -/
theorem getIdFromAddr_rows {rows : List (BitVec 8 × List Char)}
    (h : m.entries.map (fun e => (e.id, e.addr)) = rows) (a : List Char) :
    getIdFromAddr m a = ((rows.find? fun p => strncmpEq 10 a p.2).map Prod.fst).getD 0 := by
  have hfind : rows.find? (fun p => strncmpEq 10 a p.2) =
      (m.entries.find? fun e => strncmpEq 10 a e.addr).map fun e => (e.id, e.addr) := by
    rw [← h, List.find?_map]
    rfl
  rw [hfind, Option.map_map, getIdFromAddr]
  cases m.entries.find? fun e => strncmpEq 10 a e.addr <;> rfl

/-- The first row that `x` is confused with. -/
theorem getIdFromAddr_eq_find (h : m.Prints table) (x : Addr) :
    getIdFromAddr m (inetNtop x) = ((table.find? (compares x)).map Prod.fst).getD 0 := by
  rw [getIdFromAddr_rows h.entries, List.find?_map, Option.map_map]
  rfl

theorem getIdFromAddr_eq_zero_iff (h : m.Prints table) (x : Addr) :
    getIdFromAddr m (inetNtop x) = 0 ↔ ∀ r ∈ table, ¬ Confuses r.2 x := by
  rw [getIdFromAddr_eq_find h]
  cases hfind : table.find? (compares x) with
  | none =>
    refine iff_of_true rfl fun r hr hc => ?_
    exact List.find?_eq_none.1 hfind r hr ((compares_iff x r).2 hc)
  | some r =>
    have hr := List.mem_of_find?_eq_some hfind
    refine iff_of_false (h.ne_zero r hr) fun hno => ?_
    exact hno r hr ((compares_iff x r).1 (List.find?_some hfind))

/-- The row of `x` is found if its text is long enough and no row before it gets in the way. -/
theorem getIdFromAddr_eq_iff (h : m.Prints table) {pre post : List (BitVec 8 × Addr)}
    {id : BitVec 8} (hsplit : table = pre ++ (id, x) :: post) :
    getIdFromAddr m (inetNtop x) = id ↔
      10 ≤ (inetNtop x).length ∧ ∀ r ∈ pre, ¬ Confuses r.2 x := by
  have hids := h.ids
  rw [hsplit, List.map_append, List.map_cons, List.nodup_append] at hids
  rw [getIdFromAddr_eq_find h, hsplit, List.find?_append]
  cases hfind : pre.find? (compares x) with
  | some r =>
    have hr := List.mem_of_find?_eq_some hfind
    refine iff_of_false (fun hid => ?_) fun hno => ?_
    · exact hids.2.2 r.1 (List.mem_map_of_mem hr) id List.mem_cons_self hid
    · exact hno.2 r hr ((compares_iff x r).1 (List.find?_some hfind))
  | none =>
    have hpre : ∀ r ∈ pre, ¬ Confuses r.2 x := fun r hr hc =>
      List.find?_eq_none.1 hfind r hr ((compares_iff x r).2 hc)
    by_cases hlen : 10 ≤ (inetNtop x).length
    · have hown : compares x (id, x) = true := (compares_iff x (id, x)).2 ⟨hlen, rfl⟩
      rw [Option.none_or, List.find?_cons_of_pos hown]
      exact iff_of_true rfl ⟨hlen, hpre⟩
    · have hown : ¬ compares x (id, x) = true :=
        fun hc => hlen ((compares_iff x (id, x)).1 hc).1
      rw [Option.none_or, List.find?_cons_of_neg hown]
      refine iff_of_false (fun hid => ?_) fun hboth => hlen hboth.1
      -- an id behind the row is another one, and so is 0
      have hmem : (id, x) ∈ table := hsplit ▸ List.mem_append_right _ List.mem_cons_self
      cases hpost : post.find? (compares x) with
      | none =>
        rw [hpost] at hid
        exact h.ne_zero _ hmem hid.symm
      | some r =>
        rw [hpost] at hid
        have hr := List.mem_map_of_mem (f := Prod.fst) (List.mem_of_find?_eq_some hpost)
        obtain rfl : r.1 = id := hid
        exact (List.nodup_cons.1 hids.2.1).1 hr

theorem attributed_iff (h : m.Prints table) (x : Addr) : Attributed m table x ↔ Told table x := by
  constructor
  · rintro ⟨hown, hother⟩
    refine ⟨fun hx => ?_, fun pre id post hsplit => ?_, fun hx => ?_⟩
    · obtain ⟨⟨id, y⟩, hr, rfl⟩ := List.mem_map.1 hx
      obtain ⟨pre, post, hsplit⟩ := List.append_of_mem hr
      exact ((getIdFromAddr_eq_iff h hsplit).1 (hown id hr)).1
    · have hr : (id, x) ∈ table := hsplit ▸ List.mem_append_right _ List.mem_cons_self
      exact ((getIdFromAddr_eq_iff h hsplit).1 (hown id hr)).2
    · exact (getIdFromAddr_eq_zero_iff h x).1 (hother hx)
  · rintro ⟨hlong, hbefore, hother⟩
    refine ⟨fun id hr => ?_, fun hx => ?_⟩
    · obtain ⟨pre, post, hsplit⟩ := List.append_of_mem hr
      exact (getIdFromAddr_eq_iff h hsplit).2
        ⟨hlong (List.mem_map_of_mem hr), hbefore pre id post hsplit⟩
    · exact (getIdFromAddr_eq_zero_iff h x).2 (hother hx)

end

/-! ## Maps from files -/

/-- A file of such lines loads as such a map. -/
theorem prints_of_loadMap {L : Libc} (hlong : intMax ≤ L.longMax) {f : MapFile}
    {table : List (Numeral × Addr)} {m : NodeMap} (hnewline : ∀ r ∈ f.rows, r.newline = true)
    (hrows : f.rows.map (fun r => (r.line.id, r.line.addr)) =
      table.map fun q => (q.1.digits, inetNtop q.2))
    (hids : (table.map fun q => q.1.value).Nodup)
    (hrange : ∀ q ∈ table, 0 < q.1.value ∧ q.1.value < 256) (haddrs : (table.map Prod.snd).Nodup)
    (h : loadMap L (fgetsAll lineSize f.text) .empty = .ok m) :
    m.Prints (table.map fun q => (BitVec.ofNat 8 q.1.value, q.2)) := by
  have hloaded := loadMap_text (L := L) f
  rw [h] at hloaded
  have hmax : intMax = 2 ^ 31 - 1 := rfl
  cases hloaded with
  | table _ _ _ hholds =>
    refine ⟨?_, ?_, fun r hr => ?_, ?_⟩
    · have hstored : f.rows.map (fun r => (r.line.byte L, r.stored)) =
          (f.rows.map fun r => (r.line.id, r.line.addr)).map fun p =>
            (BitVec.ofInt 8 (atoi L.longMax p.1), p.2 ++ ['\n']) := by
        rw [List.map_map]
        refine List.map_congr_left fun r hr => ?_
        rw [MapRow.stored, MapRow.tail, if_pos (hnewline r hr)]
        rfl
      rw [hholds, hstored, hrows, List.map_map, List.map_map]
      refine List.map_congr_left fun q hq => ?_
      have hatoi := q.1.atoi_alone hlong (by have := hrange q hq; omega)
      simp only [Function.comp, hatoi, BitVec.ofInt_natCast]
    · rw [List.map_map]
      refine List.Nodup.map_on (fun q hq q' hq' heq => ?_) (List.Nodup.of_map _ hids)
      have hnat := congrArg BitVec.toNat heq
      simp only [Function.comp, BitVec.toNat_ofNat] at hnat
      have hvalue : q.1.value = q'.1.value := by
        have := hrange q hq
        have := hrange q' hq'
        omega
      exact List.inj_on_of_nodup_map hids hq hq' hvalue
    · obtain ⟨q, hq, rfl⟩ := List.mem_map.1 hr
      intro hzero
      have hnat : q.1.value % 2 ^ 8 = 0 := congrArg BitVec.toNat hzero
      have := hrange q hq
      omega
    · rwa [List.map_map]

/-- `fd00::1062` and `fd00::a578`. -/
def hostTable : List (BitVec 8 × Addr) :=
  [(2, 0xfd000000000000000000000000001062), (3, 0xfd00000000000000000000000000a578)]

theorem hostMap_prints : hostMap.Prints hostTable :=
  ⟨by decide, by decide, by simp [hostTable], by decide⟩

/-- `fd00::a578`, the second address of the map, and `fd00::9672`, which is not in it. -/
theorem attributed_known_and_stranger :
    Attributed hostMap hostTable 0xfd00000000000000000000000000a578 ∧
      Attributed hostMap hostTable 0xfd000000000000000000000000009672 := by
  constructor
  · have hmem : (0xfd00000000000000000000000000a578 : Addr) ∈ hostTable.map Prod.snd := by decide
    refine (attributed_iff hostMap_prints _).2 ⟨fun _ => by decide, fun pre id post h r hr => ?_,
      fun h => absurd hmem h⟩
    cases pre with
    | nil => cases hr
    | cons q pre =>
      obtain ⟨rfl, hrest⟩ := List.cons.inj h
      cases pre with
      | nil =>
        rw [List.mem_singleton.1 hr]
        decide
      | cons q' pre => exact absurd (congrArg List.length hrest) (by simp)
  · have hno : (0xfd000000000000000000000000009672 : Addr) ∉ hostTable.map Prod.snd := by decide
    have hother : ∀ r ∈ hostTable, ¬ Confuses r.2 0xfd000000000000000000000000009672 :=
      List.forall_mem_cons.2 ⟨by decide, List.forall_mem_cons.2 ⟨by decide, nofun⟩⟩
    refine (attributed_iff hostMap_prints _).2 ⟨fun h => absurd h hno, fun pre id post h => ?_,
      fun _ => hother⟩
    refine absurd ?_ hno
    rw [h]
    simp

/-- `fd00::1` is not found, and `fd00::1062:1` passes for `fd00::1062`. -/
theorem short_and_longer_address : ∃ m,
    loadMap (hostLibc intMax) (fgetsAll lineSize "1\tfd00::1\n2\tfd00::1062\n".toList) .empty =
      .ok m ∧
    m.Prints [(1, 0xfd000000000000000000000000000001), (2, 0xfd000000000000000000000000001062)] ∧
    getIdFromAddr m (inetNtop 0xfd000000000000000000000000000001) = 0 ∧
    getIdFromAddr m (inetNtop 0xfd000000000000000000000010620001) = 2 ∧
    ¬ Attributed m [(1, 0xfd000000000000000000000000000001),
      (2, 0xfd000000000000000000000000001062)] 0xfd000000000000000000000000000001 ∧
    ¬ Attributed m [(1, 0xfd000000000000000000000000000001),
      (2, 0xfd000000000000000000000000001062)] 0xfd000000000000000000000010620001 := by
  refine ⟨⟨[⟨1, "fd00::1\n".toList, by decide⟩, ⟨2, "fd00::1062\n".toList, by decide⟩], by decide⟩,
    rfl, ⟨by decide, by decide, by simp, by decide⟩, by decide, by decide, fun h => ?_,
    fun h => ?_⟩
  · exact absurd (h.own 1 List.mem_cons_self) (by decide)
  · exact absurd (h.other (by decide)) (by decide)

end Verifier
end Swarna
