import Swarna.Verifier

/-!
# Swarna.MapFile

`node_id_addr.txt` as it is written: lines of an id and an address with a tab between them.

* `MapFile`: the rows of such a file; only the last may lack its newline.
* `Room`: the table has a row for every row of the file, and each address fits.
* `loadMap_text`: what `main` makes of the file. A row too long for the line buffer is read in
  pieces, and the second piece has no tab.
-/

namespace Swarna
namespace Verifier

open CString

/-! ## Files -/

structure MapLine where
  id : List Char
  addr : List Char
  id_ne_nil : id ≠ []
  addr_ne_nil : addr ≠ []
  id_plain : ∀ c ∈ id, c ∉ ['\t', '\n', '\x00']
  addr_plain : ∀ c ∈ addr, c ∉ ['\t', '\n', '\x00']
  addr_lt : addr.length < inet6AddrStrLen

def MapLine.text (l : MapLine) : List Char := l.id ++ '\t' :: l.addr

structure MapRow where
  line : MapLine
  newline : Bool

namespace MapRow

/-- The end of the row. -/
def tail (r : MapRow) : List Char := if r.newline then ['\n'] else []

def text (r : MapRow) : List Char := r.line.text ++ r.tail

/-- What `strcpy` copies into the table, newline included. -/
def stored (r : MapRow) : List Char := r.line.addr ++ r.tail

/-- The row fits the line buffer. -/
def Whole (r : MapRow) : Prop := r.text.length < lineSize

instance (r : MapRow) : Decidable r.Whole := inferInstanceAs (Decidable (_ < _))

/-- The address fits the table, with the NUL behind it. -/
def Fits (r : MapRow) : Prop := r.stored.length < inet6AddrStrLen

instance (r : MapRow) : Decidable r.Fits := inferInstanceAs (Decidable (_ < _))

end MapRow

/-- A row with its newline. -/
def plainRow (id addr : String) (h : id.toList ≠ [] ∧ addr.toList ≠ [] ∧
    (id.toList ++ addr.toList).all (· ∉ ['\t', '\n', '\x00']) ∧
    addr.toList.length < inet6AddrStrLen) : MapRow :=
  have hplain c hc := of_decide_eq_true (List.all_eq_true.1 h.2.2.1 c hc)
  ⟨⟨id.toList, addr.toList, h.1, h.2.1, fun c hc => hplain c (List.mem_append_left _ hc),
    fun c hc => hplain c (List.mem_append_right _ hc), h.2.2.2⟩, true⟩

structure MapFile where
  rows : List MapRow
  ended : ∀ r ∈ rows.dropLast, r.newline = true

def MapFile.text (f : MapFile) : List Char := f.rows.flatMap MapRow.text

/-- The rows of the table written to before the program ends or the file does. A row that does not
fit the line buffer ends the program, at once if its tab does not come through. -/
def rowsUsed : List MapRow → Nat
  | [] => 0
  | r :: rs =>
    if r.Whole then rowsUsed rs + 1
    else if r.line.id.length + 2 < lineSize then 2
    else 1

/-- The table has room for the rows, and for the address of each that is read. -/
structure Room (rs : List MapRow) (free : Nat) : Prop where
  rows : rowsUsed rs ≤ free
  fits : ∀ r ∈ rs.takeWhile (·.Whole), r.Fits

/-- The program has left an array. -/
def Fault.overruns : Fault → Bool
  | .mapOverflow | .addrOverflow | .nodeAddrOverflow | .nodeAddrOverread => true
  | .nullString | .nullFile | .exited => false

def MapLine.byte (L : Libc) (l : MapLine) : BitVec 8 := BitVec.ofInt 8 (atoi L.longMax l.id)

/-- The rows of the file are those of the table, behind the ones of `m`. -/
def Holds (L : Libc) (rs : List MapRow) (m m' : NodeMap) : Prop :=
  m'.entries.map (fun e => (e.id, e.addr)) =
    m.entries.map (fun e => (e.id, e.addr)) ++ rs.map fun r => (r.line.byte L, r.stored)

/-- What loading the rows behind those of `m` comes to. -/
inductive Loaded (L : Libc) (rs : List MapRow) (m : NodeMap) : Except Fault NodeMap → Prop where
  | table (m' : NodeMap) : Room rs (maxNodes - m.entries.length) → (∀ r ∈ rs, r.Whole) →
      Holds L rs m m' → Loaded L rs m (.ok m')
  | broken : Room rs (maxNodes - m.entries.length) → ¬ (∀ r ∈ rs, r.Whole) →
      Loaded L rs m (.error .nullString)
  | overrun (f : Fault) : ¬ Room rs (maxNodes - m.entries.length) → f.overruns = true →
      Loaded L rs m (.error f)

/-! ## One row -/

section

variable {r : MapRow}

theorem MapLine.text_eq (l : MapLine) : l.text = l.id ++ ['\t'] ++ l.addr :=
  List.append_cons l.id '\t' l.addr

theorem MapLine.notMem_text (l : MapLine) {c : Char} (hc : c ∈ ['\t', '\n', '\x00'])
    (hne : c ≠ '\t') : c ∉ l.text := by
  intro h
  rcases List.mem_append.1 h with h | h
  · exact l.id_plain c h hc
  · rcases List.mem_cons.1 h with h | h
    · exact hne h
    · exact l.addr_plain c h hc

theorem MapLine.newline_notMem (l : MapLine) : '\n' ∉ l.text :=
  l.notMem_text (by simp) (by decide)

theorem MapLine.nul_notMem (l : MapLine) : '\x00' ∉ l.text := l.notMem_text (by simp) (by decide)

theorem MapRow.tail_subset (r : MapRow) {c : Char} (h : c ∈ r.tail) : c = '\n' := by
  rw [MapRow.tail] at h
  split at h
  · exact List.mem_singleton.1 h
  · cases h

theorem MapRow.tail_length_le (r : MapRow) : r.tail.length ≤ 1 := by
  rw [MapRow.tail]
  split <;> simp

theorem MapRow.nul_notMem (r : MapRow) : '\x00' ∉ r.text := by
  intro h
  rcases List.mem_append.1 h with h | h
  · exact r.line.nul_notMem h
  · exact absurd (r.tail_subset h) (by decide)

theorem MapRow.stored_subset (r : MapRow) {c : Char} (h : c ∈ r.stored) : c ∈ r.text := by
  rcases List.mem_append.1 h with h | h
  · exact List.mem_append_left _ (List.mem_append_right _ (List.mem_cons_of_mem _ h))
  · exact List.mem_append_right _ h

/-- No tab behind the first. -/
theorem MapRow.stored_plain (r : MapRow) : ∀ c ∈ r.stored, c ∉ ['\t'] := by
  intro c hc ht
  rw [List.mem_singleton.1 ht] at hc
  rcases List.mem_append.1 hc with h | h
  · exact r.line.addr_plain _ h (by simp)
  · exact absurd (r.tail_subset h) (by decide)

theorem MapRow.stored_ne_nil (r : MapRow) : r.stored ≠ [] :=
  List.append_ne_nil_of_left_ne_nil r.line.addr_ne_nil _

theorem MapLine.id_no_tab (l : MapLine) : ∀ c ∈ l.id, c ∉ ['\t'] := by
  intro c hc ht
  exact l.id_plain c hc (List.mem_cons.2 (.inl (List.mem_singleton.1 ht)))

/-- The id is the first token, if its tab is there. -/
theorem MapLine.strtok_id (l : MapLine) (rest : List Char) :
    strtok ['\t'] (l.id ++ '\t' :: rest) = some (l.id, rest) := by
  rw [strtok_token l.id_ne_nil l.id_no_tab fun c hc => by cases hc; exact List.mem_singleton_self _]
  rfl

/-- What is left of a row is read to its end. -/
theorem fgetsAll_rest (r : MapRow) {s rest : List Char} (hs : '\n' ∉ s) (hne : s ++ r.tail ≠ [])
    (hlen : (s ++ r.tail).length < lineSize) (hend : rest ≠ [] → r.newline = true) :
    fgetsAll lineSize (s ++ r.tail ++ rest) = (s ++ r.tail) :: fgetsAll lineSize rest := by
  by_cases hn : r.newline = true
  · have ht : r.tail = ['\n'] := by rw [MapRow.tail, if_pos hn]
    rw [ht, List.length_append, List.length_singleton] at hlen
    rw [ht, List.append_assoc]
    exact fgetsAll_line rest hs hlen
  · have hnil : rest = [] := not_not.1 fun h => hn (hend h)
    have ht : r.tail = [] := by rw [MapRow.tail, if_neg hn]
    rw [ht, List.append_nil] at hlen hne
    rw [hnil, ht, List.append_nil, List.append_nil, fgetsAll_end hs hne hlen]
    exact congrArg _ (readAll_none rfl).symm

variable {L : Libc} {m : NodeMap} {fp : List (List Char)}

theorem loadMap_full {line tok rest : List Char} (ht : strtok ['\t'] (cstr line) = some (tok, rest))
    (hm : ¬ m.entries.length < maxNodes) : loadMap L (line :: fp) m = .error .mapOverflow := by
  simp only [loadMap, ht, dif_neg hm]

theorem loadMap_two {line tok rest addr rest' : List Char}
    (ht : strtok ['\t'] (cstr line) = some (tok, rest))
    (ha : strtok ['\t'] rest = some (addr, rest')) (hm : m.entries.length < maxNodes) :
    loadMap L (line :: fp) m =
      if h : addr.length < inet6AddrStrLen then
        loadMap L fp (m.push ⟨BitVec.ofInt 8 (atoi L.longMax tok), addr, h⟩ hm)
      else .error .addrOverflow := by
  simp only [loadMap, ht, ha, dif_pos hm]

/-- Without a second token the program ends, in any case. -/
theorem loadMap_one {line tok rest : List Char} (ht : strtok ['\t'] (cstr line) = some (tok, rest))
    (ha : strtok ['\t'] rest = none) : loadMap L (line :: fp) m =
      .error (if m.entries.length < maxNodes then .nullString else .mapOverflow) := by
  by_cases hm : m.entries.length < maxNodes
  · simp only [loadMap, ht, ha, dif_pos hm, if_pos hm]
  · rw [loadMap_full ht hm, if_neg hm]

/-- A piece without a tab. -/
theorem loadMap_piece {piece : List Char} (hne : piece ≠ []) (htab : ∀ c ∈ piece, c ∉ ['\t'])
    (hnul : '\x00' ∉ piece) : loadMap L (piece :: fp) m =
      .error (if m.entries.length < maxNodes then .nullString else .mapOverflow) := by
  have hfirst : strtok ['\t'] (cstr piece) = some (piece, []) := by
    rw [cstr_eq hnul, strtok_end hne htab]
  exact loadMap_one hfirst rfl

theorem strtok_row (r : MapRow) : strtok ['\t'] (cstr r.text) = some (r.line.id, r.stored) ∧
    strtok ['\t'] r.stored = some (r.stored, []) := by
  refine ⟨?_, strtok_end r.stored_ne_nil r.stored_plain⟩
  have htext : r.text = r.line.id ++ '\t' :: r.stored := by
    simp [MapRow.text, MapLine.text, MapRow.stored]
  rw [cstr_eq r.nul_notMem, htext, r.line.strtok_id]

/-! ## A row in pieces -/

/-- The first piece of a row, and the rest of it. -/
theorem fgetsAll_cut {r : MapRow} (hw : ¬ r.Whole) (rest : List Char) :
    fgetsAll lineSize (r.text ++ rest) = r.line.text.take (lineSize - 1) ::
      fgetsAll lineSize (r.line.text.drop (lineSize - 1) ++ r.tail ++ rest) := by
  have hsize : lineSize = 1000 := rfl
  have hlong : lineSize ≤ (r.line.text ++ r.tail).length := Nat.not_lt.1 hw
  have htail := r.tail_length_le
  rw [List.length_append] at hlong
  have hlen : (r.line.text.take (lineSize - 1)).length = lineSize - 1 :=
    List.length_take_of_le (by omega)
  have htext : r.text ++ rest = r.line.text.take (lineSize - 1) ++
      (r.line.text.drop (lineSize - 1) ++ r.tail ++ rest) := by
    rw [MapRow.text, ← List.append_assoc, ← List.append_assoc, List.take_append_drop]
  rw [htext]
  exact fgetsAll_full _ (fun h => r.line.newline_notMem (List.mem_of_mem_take h))
    (List.ne_nil_of_length_pos (by omega)) (by omega)

theorem nul_notMem_take (l : MapLine) (n : Nat) : '\x00' ∉ l.text.take n :=
  fun h => l.nul_notMem (List.mem_of_mem_take h)

/-- The tab does not come through. -/
theorem loadMap_longId {r : MapRow} (hid : ¬ r.line.id.length + 2 < lineSize) :
    loadMap L (r.line.text.take (lineSize - 1) :: fp) m =
      .error (if m.entries.length < maxNodes then .nullString else .mapOverflow) := by
  have hsize : lineSize = 1000 := rfl
  obtain ⟨tok, htok⟩ : ∃ tok, strtok ['\t'] (r.line.text.take (lineSize - 1)) = some (tok, []) := by
    by_cases hlast : r.line.id.length + 1 < lineSize
    · have htake : r.line.text.take (lineSize - 1) = r.line.id ++ ['\t'] := by
        have hlen : lineSize - 1 = (r.line.id ++ ['\t']).length := by
          rw [List.length_append, List.length_singleton]
          omega
        rw [hlen, MapLine.text_eq, List.take_left]
      rw [htake]
      exact ⟨_, r.line.strtok_id []⟩
    · have htake : r.line.text.take (lineSize - 1) = r.line.id.take (lineSize - 1) :=
        List.take_append_of_le_length (by omega)
      rw [htake]
      refine ⟨_, strtok_end (fun h => ?_) fun c hc =>
        r.line.id_no_tab c (List.mem_of_mem_take hc)⟩
      have hlen := congrArg List.length h
      rw [List.length_take_of_le (by omega), List.length_nil] at hlen
      omega
  have hfirst : strtok ['\t'] (cstr (r.line.text.take (lineSize - 1))) = some (tok, []) := by
    rw [cstr_eq (nul_notMem_take _ _), htok]
  exact loadMap_one hfirst rfl

/-- A part of the address is stored, and the next piece has no tab. -/
theorem loadMap_shortId {r : MapRow} {rest : List Char} (hw : ¬ r.Whole)
    (hid : r.line.id.length + 2 < lineSize) (hend : rest ≠ [] → r.newline = true) :
    loadMap L (fgetsAll lineSize (r.text ++ rest)) m =
      .error (if m.entries.length + 2 ≤ maxNodes then .nullString else .mapOverflow) := by
  have hsize : lineSize = 1000 := rfl
  have hlong : lineSize ≤ (r.line.text ++ r.tail).length := Nat.not_lt.1 hw
  let k := lineSize - 1 - (r.line.id.length + 1)
  have hlen : lineSize - 1 = (r.line.id ++ ['\t']).length + k := by
    rw [List.length_append, List.length_singleton]
    omega
  have htake : r.line.text.take (lineSize - 1) = r.line.id ++ '\t' :: r.line.addr.take k := by
    rw [hlen, MapLine.text_eq, List.take_length_add_append, ← List.append_cons]
  have hdrop : r.line.text.drop (lineSize - 1) = r.line.addr.drop k := by
    rw [hlen, MapLine.text_eq, List.drop_length_add_append]
  have hfirst : strtok ['\t'] (cstr (r.line.text.take (lineSize - 1))) =
      some (r.line.id, r.line.addr.take k) := by
    rw [cstr_eq (nul_notMem_take _ _), htake, r.line.strtok_id]
  have htab : ∀ c ∈ r.line.addr, c ∉ ['\t'] :=
    fun c hc => r.stored_plain c (List.mem_append_left _ hc)
  have hsecond : strtok ['\t'] (r.line.addr.take k) = some (r.line.addr.take k, []) := by
    refine strtok_end (fun h => ?_) fun c hc => htab c (List.mem_of_mem_take hc)
    rcases List.take_eq_nil_iff.1 h with hk | hnil
    · omega
    · exact r.line.addr_ne_nil hnil
  have hstored : (r.line.addr.take k).length < inet6AddrStrLen :=
    Nat.lt_of_le_of_lt (List.length_take_le' _ _) r.line.addr_lt
  -- what the next call of `fgets` returns
  have hne : r.line.addr.drop k ++ r.tail ≠ [] := by
    intro h
    rw [← hdrop] at h
    have hzero := congrArg List.length h
    rw [List.length_append] at hlong hzero
    rw [List.length_drop, List.length_nil] at hzero
    omega
  have hshort : (r.line.addr.drop k ++ r.tail).length < lineSize := by
    have haddr : r.line.addr.length < 46 := r.line.addr_lt
    have htail := r.tail_length_le
    rw [List.length_append, List.length_drop]
    omega
  have hplain : ∀ c ∈ r.line.addr.drop k ++ r.tail, c ∈ r.stored := by
    intro c hc
    rcases List.mem_append.1 hc with hc | hc
    · exact List.mem_append_left _ (List.mem_of_mem_drop hc)
    · exact List.mem_append_right _ hc
  have hnul : '\x00' ∉ r.line.addr.drop k ++ r.tail := fun h =>
    r.nul_notMem (r.stored_subset (hplain _ h))
  have hnewline : '\n' ∉ r.line.addr.drop k := fun h =>
    r.line.newline_notMem
      (List.mem_append_right _ (List.mem_cons_of_mem _ (List.mem_of_mem_drop h)))
  rw [fgetsAll_cut hw, hdrop, fgetsAll_rest r hnewline hne hshort hend]
  by_cases hm : m.entries.length < maxNodes
  · rw [loadMap_two hfirst hsecond hm, dif_pos hstored,
      loadMap_piece hne (fun c hc => r.stored_plain c (hplain c hc)) hnul, NodeMap.push,
      List.length_append, List.length_singleton]
    rfl
  · rw [loadMap_full hfirst hm, if_neg (by omega)]

/-! ## The file -/

variable {r : MapRow} {rs : List MapRow}

variable (rs) in
theorem room_whole (hw : r.Whole) (n : Nat) :
    Room (r :: rs) n ↔ 0 < n ∧ r.Fits ∧ Room rs (n - 1) := by
  have htake : (r :: rs).takeWhile (·.Whole) = r :: rs.takeWhile (·.Whole) :=
    List.takeWhile_cons_of_pos (by simpa using hw)
  constructor
  · rintro ⟨hrows, hfits⟩
    rw [rowsUsed, if_pos hw] at hrows
    rw [htake, List.forall_mem_cons] at hfits
    exact ⟨by omega, hfits.1, by omega, hfits.2⟩
  · rintro ⟨hn, hfit, hrows, hfits⟩
    refine ⟨?_, ?_⟩
    · rw [rowsUsed, if_pos hw]
      omega
    · rw [htake, List.forall_mem_cons]
      exact ⟨hfit, hfits⟩

variable (rs) in
theorem room_cut (hw : ¬ r.Whole) (n : Nat) :
    Room (r :: rs) n ↔ (if r.line.id.length + 2 < lineSize then 2 else 1) ≤ n := by
  have htake : (r :: rs).takeWhile (·.Whole) = [] :=
    List.takeWhile_cons_of_neg (by simpa using hw)
  constructor
  · rintro ⟨hrows, -⟩
    rwa [rowsUsed, if_neg hw] at hrows
  · intro hrows
    refine ⟨?_, ?_⟩
    · rwa [rowsUsed, if_neg hw]
    · rw [htake]
      exact nofun

theorem loadMap_cut {rest : List Char} (hw : ¬ r.Whole) (hend : rest ≠ [] → r.newline = true) :
    loadMap L (fgetsAll lineSize (r.text ++ rest)) m = .error
      (if m.entries.length + (if r.line.id.length + 2 < lineSize then 2 else 1) ≤ maxNodes then
        .nullString
      else .mapOverflow) := by
  by_cases hid : r.line.id.length + 2 < lineSize
  · rw [loadMap_shortId hw hid hend, if_pos hid]
  · rw [fgetsAll_cut hw, loadMap_longId hid, if_neg hid]
    rfl

/-- A row that is cut ends the program, if the table does not overrun first. -/
theorem loaded_cut (hw : ¬ r.Whole) (hend : rs ≠ [] → r.newline = true) :
    Loaded L (r :: rs) m
      (loadMap L (fgetsAll lineSize ((r :: rs).flatMap MapRow.text)) m) := by
  have hend' : rs.flatMap MapRow.text ≠ [] → r.newline = true :=
    fun h => hend fun hnil => h (by rw [hnil]; rfl)
  have hle := m.length_le
  have hnot : ¬ ∀ q ∈ r :: rs, q.Whole := fun h => hw (h r List.mem_cons_self)
  have hroom := room_cut rs hw (maxNodes - m.entries.length)
  rw [List.flatMap_cons, loadMap_cut hw hend']
  generalize (if r.line.id.length + 2 < lineSize then 2 else 1) = used at hroom ⊢
  by_cases hused : m.entries.length + used ≤ maxNodes
  · rw [if_pos hused]
    exact .broken (hroom.2 (by omega)) hnot
  · rw [if_neg hused]
    refine .overrun _ (fun h => ?_) rfl
    have := hroom.1 h
    omega

/-- A row read whole is stored, and the rest of the file follows. -/
theorem loaded_whole (hw : r.Whole) (hend : rs ≠ [] → r.newline = true)
    (ih : ∀ m' : NodeMap,
      Loaded L rs m' (loadMap L (fgetsAll lineSize (rs.flatMap MapRow.text)) m')) :
    Loaded L (r :: rs) m
      (loadMap L (fgetsAll lineSize ((r :: rs).flatMap MapRow.text)) m) := by
  obtain ⟨hfirst, hsecond⟩ := strtok_row r
  have hread : fgetsAll lineSize (r.text ++ rs.flatMap MapRow.text) =
      r.text :: fgetsAll lineSize (rs.flatMap MapRow.text) :=
    fgetsAll_rest r r.line.newline_notMem
      (List.append_ne_nil_of_left_ne_nil (List.append_ne_nil_of_right_ne_nil _ (by simp)) _) hw
      fun h => hend fun hnil => h (by rw [hnil]; rfl)
  rw [List.flatMap_cons, hread]
  by_cases hm : m.entries.length < maxNodes
  · rw [loadMap_two hfirst hsecond hm]
    split
    · rename_i hfit
      let m₁ := m.push ⟨r.line.byte L, r.stored, hfit⟩ hm
      have hfree : maxNodes - m₁.entries.length = maxNodes - m.entries.length - 1 := by
        rw [show m₁.entries = m.entries ++ [_] from rfl, List.length_append, List.length_singleton]
        omega
      have hroom := room_whole rs hw (maxNodes - m.entries.length)
      have hpos : 0 < maxNodes - m.entries.length := by omega
      have hih := ih m₁
      generalize hres : loadMap L (fgetsAll lineSize (rs.flatMap MapRow.text)) m₁ = res at hih
      show Loaded L (r :: rs) m (loadMap L (fgetsAll lineSize (rs.flatMap MapRow.text)) m₁)
      rw [hres]
      cases hih with
      | table m' h hall hholds =>
        rw [hfree] at h
        refine .table m' (hroom.2 ⟨hpos, hfit, h⟩) (List.forall_mem_cons.2 ⟨hw, hall⟩) ?_
        rw [Holds, hholds]
        simp [m₁, NodeMap.push]
      | broken h hall =>
        rw [hfree] at h
        exact .broken (hroom.2 ⟨hpos, hfit, h⟩) fun h' => hall (List.forall_mem_cons.1 h').2
      | overrun f h hf =>
        rw [hfree] at h
        exact .overrun f (fun h' => h (hroom.1 h').2.2) hf
    · rename_i hfit
      exact .overrun _ (fun h => hfit ((room_whole rs hw _).1 h).2.1) rfl
  · rw [loadMap_full hfirst hm]
    refine .overrun _ (fun h => ?_) rfl
    have := ((room_whole rs hw _).1 h).1
    omega

theorem loadMap_rows (hend : ∀ r ∈ rs.dropLast, r.newline = true) :
    Loaded L rs m (loadMap L (fgetsAll lineSize (rs.flatMap MapRow.text)) m) := by
  induction rs generalizing m with
  | nil =>
    have hle := m.length_le
    refine .table m ⟨Nat.zero_le _, nofun⟩ nofun ?_
    simp [Holds]
  | cons r rs ih =>
    have hnewline : rs ≠ [] → r.newline = true := by
      intro hne
      refine hend r ?_
      rw [List.dropLast_cons_of_ne_nil hne]
      exact List.mem_cons_self
    by_cases hw : r.Whole
    · exact loaded_whole hw hnewline fun m' => ih fun q hq => hend q
        (List.mem_of_mem_tail (by rwa [List.tail_dropLast]))
    · exact loaded_cut hw hnewline

theorem loadMap_text (f : MapFile) :
    Loaded L f.rows .empty (loadMap L (fgetsAll lineSize f.text) .empty) := loadMap_rows f.ended

end

end Verifier
end Swarna
