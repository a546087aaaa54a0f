import Swarna.AddressText
import Swarna.LineRuns

/-!
# Swarna.Destinations

Where the second-round requests go. Ids are numbers of any size in the two files and one byte in the
verifier, and `get_addr_from_id` leaves its buffer as it is when no row has the byte.

* `RequestsRight`: every request goes to the address on the map row of the id it was sent for, as
  the id is written, whatever datagrams come.
* `Goes`: the ids of a line that are asked for are in the map, and the last row with the same byte
  has the same address.
* `requests_right_iff`: it is so exactly when this holds of all lines that are reached.
* `wrong_node`: ids 1 and 257.
-/

namespace Swarna
namespace Verifier

open CString

/-! ## Ids as they are written -/

/-- The number a token is, with white space around it. -/
def written (tok : List Char) : Option Nat :=
  let text := tok.dropWhile isSpace
  let digits := text.takeWhile Char.isDigit
  if digits ≠ [] ∧ (text.dropWhile Char.isDigit).all isSpace = true then
    some (Nat.ofDigitChars 10 digits 0)
  else none

def MapLine.value (l : MapLine) : Nat := Nat.ofDigitChars 10 l.id 0

/-- The ids of the map are decimal numbers. -/
def MapFile.Decimal (f : MapFile) : Prop := ∀ r ∈ f.rows, ∀ c ∈ r.line.id, c.isDigit = true

instance (f : MapFile) : Decidable f.Decimal :=
  decidable_of_iff (f.rows.all fun r => r.line.id.all Char.isDigit) (by simp [MapFile.Decimal])

section

variable (L : Libc) (f : MapFile)

def idByte (tok : List Char) : BitVec 8 := BitVec.ofInt 8 (atoi L.longMax tok)

/-- `a` is the address on the map row of the id `tok`. -/
def Listed (tok : List Char) (a : Addr) : Prop :=
  ∃ r ∈ f.rows, written tok = some r.line.value ∧ a = destination L r.line.addr

/-- A request goes to the address of the id of the line it was sent for. -/
def Rightly (file : List (List Char)) : Process → List Request → Prop
  | .running s, out => ∃ before toks fp, s.fp = some fp ∧
      tokenLines L file = before ++ toks :: tokenLines L fp ∧
      ∀ q ∈ requests out, ∃ tok, toks[s.nodeIndex - 1]? = some tok ∧ Listed L f tok q.dst
  | .exited _, out => requests out = []

def RequestsRight (text : List Char) : Prop :=
  Throughout L (Rightly L f (fgetsAll lineSize text)) (main L (some f.text) (some text))

/-- `r` is the last row of the map whose id has the byte `b`. -/
def LastRow (b : BitVec 8) (r : MapRow) : Prop :=
  ∃ before after, f.rows = before ++ r :: after ∧ r.line.byte L = b ∧
    ∀ q ∈ after, q.line.byte L ≠ b

/-- The id is in the map, and the last row with its byte has its address. -/
def Unmistaken (tok : List Char) : Prop :=
  ∃ r ∈ f.rows, written tok = some r.line.value ∧
    ∀ q, LastRow L f (idByte L tok) q →
      destination L q.line.addr = destination L r.line.addr

/-- The byte `get_id_from_addr` finds for an address text. -/
def lookup (a : List Char) : BitVec 8 :=
  ((f.rows.find? fun r => strncmpEq 10 a r.stored).map fun r => r.line.byte L).getD 0

/-- Datagrams from some address are taken for answers of the node. -/
def Recognised (b : BitVec 8) : Prop := ∃ src, lookup L f (L.inetNtop src) = b

/-- The ids of a line, up to one with byte 0 or one whose answer is not recognised. -/
def Goes : List (List Char) → Prop
  | [] => True
  | tok :: toks => idByte L tok = 0 ∨
      Unmistaken L f tok ∧ (Recognised L f (idByte L tok) → Goes toks)

/-- The ids of a line fit, and go to their addresses. -/
def LineGoes (toks : List (List Char)) : Prop := toks.length ≤ maxIds ∧ Goes L f toks

end

variable {L : Libc} {f : MapFile} {m : NodeMap} {file : List (List Char)}

/-! ## The map -/

/-- `strtol` on a token that is a number. -/
theorem strtol_written {tok : List Char} {v : Nat} (h : written tok = some v) (longMax : Nat) :
    strtol longMax tok = (min v longMax : Nat) := by
  simp only [written] at h
  split at h
  · rename_i hw
    cases h
    have hne := hw.1
    simp only [strtol]
    split
    · rename_i ds heq
      rw [heq] at hne
      exact absurd rfl hne
    · rename_i ds heq
      rw [heq] at hne
      exact absurd rfl hne
    · rfl
  · cases h

/-- A row of the id has its byte. -/
theorem byte_of_written (hf : f.Decimal) {r : MapRow} (hr : r ∈ f.rows) {tok : List Char}
    (h : written tok = some r.line.value) : r.line.byte L = idByte L tok := by
  have hrow := strtol_digits L.longMax r.line.id_ne_nil (hf r hr)
    (LineEnd.head_not_digit (.inl rfl))
  rw [List.append_nil] at hrow
  rw [MapLine.byte, idByte, atoi, atoi, strtol_written h, hrow]
  rfl

/-- What the table holds decides what is looked up in it. -/
theorem getIdFromAddr_eq_lookup (hm : Holds L f.rows .empty m) (a : List Char) :
    getIdFromAddr m a = lookup L f a := by
  rw [getIdFromAddr_rows hm, show NodeMap.empty.entries = [] from rfl, List.map_nil,
    List.nil_append, List.find?_map, Option.map_map]
  rfl

theorem getAddrFromId_rows {rows : List (BitVec 8 × List Char)}
    (h : m.entries.map (fun e => (e.id, e.addr)) = rows) (b : BitVec 8) :
    getAddrFromId L m b = rows.foldl (fun a p => if p.1 = b then p.2 else a) L.heap := by
  rw [← h, List.foldl_map, getAddrFromId]

/-- Rows with another byte leave the buffer as it is. -/
theorem foldl_others {rows : List (BitVec 8 × List Char)} {b : BitVec 8} (a : List Char)
    (h : ∀ p ∈ rows, p.1 ≠ b) : rows.foldl (fun a p => if p.1 = b then p.2 else a) a = a := by
  induction rows generalizing a with
  | nil => rfl
  | cons p rows ih =>
    obtain ⟨hp, hrows⟩ := List.forall_mem_cons.1 h
    rw [List.foldl_cons, if_neg hp]
    exact ih a hrows

theorem getAddrFromId_lastRow (hm : Holds L f.rows .empty m) {b : BitVec 8} {r : MapRow}
    (h : LastRow L f b r) : getAddrFromId L m b = r.stored := by
  obtain ⟨before, after, hrows, hb, hafter⟩ := h
  rw [getAddrFromId_rows hm, hrows, show NodeMap.empty.entries = [] from rfl, List.map_nil,
    List.nil_append, List.map_append, List.map_cons, List.foldl_append, List.foldl_cons, if_pos hb]
  exact foldl_others _ (List.forall_mem_map.2 hafter)

theorem exists_lastRow {b : BitVec 8} (h : ∃ r ∈ f.rows, r.line.byte L = b) :
    ∃ r, LastRow L f b r := by
  obtain ⟨r, hr, hb⟩ := h
  have hfound : ((f.rows.reverse.find? fun r => r.line.byte L = b)).isSome = true :=
    List.find?_isSome.2 ⟨r, List.mem_reverse.2 hr, by simpa using hb⟩
  obtain ⟨q, hq⟩ := Option.isSome_iff_exists.1 hfound
  obtain ⟨hqb, after, before, hsplit, hafter⟩ := List.find?_eq_some_iff_append.1 hq
  refine ⟨q, before.reverse, after.reverse, ?_, by simpa using hqb, fun d hd => ?_⟩
  · have hrows := congrArg List.reverse hsplit
    rw [List.reverse_reverse] at hrows
    simpa using hrows
  · simpa using hafter d (List.mem_reverse.1 hd)

/-- The newline of the row is cut off. -/
theorem destination_stored (r : MapRow) : destination L r.stored = destination L r.line.addr := by
  have hall : ∀ c ∈ r.line.addr, decide (c ≠ '\n') = true := by
    intro c hc
    have hne : c ≠ '\n' := fun h => r.line.addr_plain c hc (by simp [h])
    simpa using hne
  have htail : r.tail.takeWhile (· ≠ '\n') = [] := by
    rw [MapRow.tail]
    split <;> rfl
  rw [destination, destination, MapRow.stored, List.takeWhile_append_of_pos hall, htail,
    List.append_nil, List.takeWhile_eq_self_iff.2 hall]

/-- The request for an id goes to the address of the last row with its byte. -/
theorem listed_iff (hf : f.Decimal) (hm : Holds L f.rows .empty m) (tok : List Char) :
    Listed L f tok (destination L (getAddrFromId L m (idByte L tok))) ↔ Unmistaken L f tok := by
  constructor
  · rintro ⟨r, hr, hw, hdst⟩
    refine ⟨r, hr, hw, fun q hq => ?_⟩
    rw [← hdst, getAddrFromId_lastRow hm hq, destination_stored]
  · rintro ⟨r, hr, hw, hlast⟩
    obtain ⟨q, hq⟩ := exists_lastRow ⟨r, hr, byte_of_written (L := L) hf hr hw⟩
    refine ⟨r, hr, hw, ?_⟩
    rw [getAddrFromId_lastRow hm hq, destination_stored, hlast q hq]

/-! ## One line -/

section

variable {toks fp : List (List Char)} {k : Nat} {s : State} {out : List Request}

/-- The id asked for last goes to its address, and so do the ids behind it if it is recognised. -/
structure Going (L : Libc) (f : MapFile) (toks : List (List Char)) (k : Nat) (s : State)
    (out : List Request) : Prop where
  onward : s.sentId ≠ 0 → Recognised L f s.sentId → Goes L f (toks.drop (k + 1))
  right : ∀ q ∈ requests out, ∃ tok, toks[s.nodeIndex - 1]? = some tok ∧ Listed L f tok q.dst

/-- The id looked at. -/
theorem sent_token (hr : Reading L m toks fp k s) (hk : k < toks.length) :
    idByte L toks[k] = s.sentId := by
  rw [hr.sent, List.getD_eq_getElem?_getD, nodeIds, List.getElem?_map,
    List.getElem?_eq_getElem hk]
  rfl

theorem going_of_goes (hf : f.Decimal) (hm : Holds L f.rows .empty m)
    (hr : Reading L m toks fp k s) (hg : Goes L f (toks.drop k))
    (hout : requests out = lastRequest L m s) : Going L f toks k s out := by
  by_cases hzero : s.sentId = 0
  · rw [lastRequest, if_pos hzero] at hout
    refine ⟨fun hne => absurd hzero hne, fun q hq => ?_⟩
    rw [hout] at hq
    cases hq
  · have hk := hr.lt_length hzero
    have hbyte := sent_token hr hk
    rw [List.drop_eq_getElem_cons hk, Goes, hbyte] at hg
    obtain ⟨hright, honward⟩ := hg.resolve_left hzero
    have hindex : s.nodeIndex - 1 = k := by rw [hr.index, if_neg hzero, Nat.add_sub_cancel]
    refine ⟨fun _ => honward, fun q hq => ⟨toks[k], ?_, ?_⟩⟩
    · rw [hindex, List.getElem?_eq_getElem hk]
    · rw [hout, lastRequest, if_neg hzero, List.mem_singleton] at hq
      rw [hq, ← hbyte]
      exact (listed_iff hf hm _).2 hright

theorem going_invariant (hf : f.Decimal) (hm : Holds L f.rows .empty m) :
    LineInvariant L m (LineGoes L f) (Going L f) where
  fits h := h.1
  start h hr hout := going_of_goes hf hm hr h.2 hout
  answered := by
    intro toks fp k s s' out out' src hj hr hknown hr' hout
    by_cases hzero : s.sentId = 0
    · -- the id is 0 and is looked at again
      have hindex : s.nodeIndex = k := by rw [hr.index, if_pos hzero]
      have hzero' : s'.sentId = 0 := by rw [hr'.sent, hindex, ← hr.sent, hzero]
      rw [lastRequest, if_pos hzero'] at hout
      refine ⟨fun hne => absurd hzero' hne, fun q hq => ?_⟩
      rw [hout] at hq
      cases hq
    · have hindex : s.nodeIndex = k + 1 := by rw [hr.index, if_neg hzero]
      have hrec : Recognised L f s.sentId := ⟨src, by rw [← getIdFromAddr_eq_lookup hm, hknown]⟩
      have hgoes := hj.onward hzero hrec
      rw [← hindex] at hgoes
      exact going_of_goes hf hm hr' hgoes hout
  counted hj hsent := ⟨fun hne => hsent ▸ hj.onward (hsent ▸ hne), nofun⟩

theorem rightly_of_inside {file : List (List Char)}
    (r : Except Fault (Process × List Request))
    (h : Inside L m (LineGoes L f) (Going L f) file r) : Sound (Rightly L f file) r := by
  cases r with
  | error f => exact h
  | ok x =>
    obtain ⟨p, out⟩ := x
    cases p with
    | exited code => exact h
    | running s =>
      obtain ⟨toks, fp, k, hr, ⟨before, hb⟩, -, hj⟩ := h
      exact ⟨before, toks, fp, hr.fp, hb, hj.right⟩

/-- The line the property speaks of is the one worked through. -/
theorem Rightly.token {file : List (List Char)} (h : Rightly L f file (.running s) out)
    (hr : Reading L m toks fp k s) (hleft : LeftOf L file (toks :: tokenLines L fp))
    (hne : s.sentId ≠ 0) {q : Request} (hq : q ∈ requests out) :
    ∃ tok, toks[k]? = some tok ∧ Listed L f tok q.dst := by
  obtain ⟨before, toks', fp', hfp, hfile, hright⟩ := h
  obtain ⟨before₁, hfile₁⟩ := hleft
  obtain rfl : fp' = fp := Option.some.inj (hfp.symm.trans hr.fp)
  rw [hfile₁, List.append_cons, List.append_cons before] at hfile
  obtain ⟨-, htoks⟩ := List.append_inj' (List.append_cancel_right hfile) rfl
  obtain rfl := List.singleton_inj.1 htoks
  have hindex : s.nodeIndex - 1 = k := by rw [hr.index, if_neg hne, Nat.add_sub_cancel]
  rw [← hindex]
  exact hright q hq

/-- Answers that are recognised come from one id of the line to the next. -/
theorem goes_of_throughout (hf : f.Decimal) (hm : Holds L f.rows .empty m)
    {file : List (List Char)} (h : Throughout L (Rightly L f file) (.ok (.running s, out)))
    (hr : Reading L m toks fp k s) (hleft : LeftOf L file (toks :: tokenLines L fp))
    (hrecv : s.recvCount = k) (hout : requests out = lastRequest L m s) :
    Goes L f (toks.drop k) := by
  induction hn : toks.length - k generalizing k s out with
  | zero =>
    rw [List.drop_eq_nil_of_le (by omega)]
    trivial
  | succ n ih =>
    have hk : k < toks.length := by omega
    have hbyte := sent_token hr hk
    rw [List.drop_eq_getElem_cons hk, Goes, hbyte]
    by_cases hzero : s.sentId = 0
    · exact .inl hzero
    · rw [lastRequest, if_neg hzero] at hout
      refine .inr ⟨?_, fun hrec => ?_⟩
      · obtain ⟨tok, htok, hlisted⟩ := Rightly.token h.here hr hleft hzero
          (by rw [hout]; exact List.mem_singleton_self _)
        rw [List.getElem?_eq_getElem hk] at htok
        rw [← Option.some.inj htok, ← hbyte] at hlisted
        exact (listed_iff hf hm _).1 hlisted
      · obtain ⟨src, hsrc⟩ := hrec
        by_cases hlast : s.recvCount + 1 = toks.length
        · rw [List.drop_eq_nil_of_le (by omega)]
          trivial
        · have hnext := h.next (.intro (.running s) out (.datagram src))
          obtain ⟨k', s', out', he, hr', hrecv', hcase⟩ := reading_middle hr hlast src
          rw [step, he] at hnext
          rcases hcase with ⟨-, rfl, hout'⟩ | ⟨hunknown, -⟩
          · have hindex : s.nodeIndex = k + 1 := by rw [hr.index, if_neg hzero]
            rw [hindex] at hr'
            exact ih hnext hr' (by omega) hout' (by omega)
          · rw [getIdFromAddr_eq_lookup hm, hsrc] at hunknown
            exact absurd rfl hunknown

end

theorem requests_right_iff {f : MapFile} (hf : f.Decimal) (L : Libc) (text : List Char) :
    RequestsRight L f text ↔ Room f.rows maxNodes ∧ ((∀ r ∈ f.rows, r.Whole) →
      EachReached (LineGoes L f) (tokenLines L (fgetsAll lineSize text))) := by
  refine throughout_main_iff f text (J := fun _ => Going L f) (fun m hm => going_invariant hf hm)
    (fun _ _ => rightly_of_inside) ?_
  intro m hm toks fp s out h hr hleft hrecv hout
  exact ⟨hr.fits, goes_of_throughout hf hm h hr hleft hrecv hout⟩

/-! ## Two rows -/

theorem LastRow.mem {b : BitVec 8} {r : MapRow} (h : LastRow L f b r) :
    r ∈ f.rows ∧ r.line.byte L = b := by
  obtain ⟨before, after, hrows, hb, -⟩ := h
  exact ⟨hrows ▸ List.mem_append_right _ List.mem_cons_self, hb⟩

def pairMap : MapFile where
  rows := [plainRow "2" "fd00::1062" (by decide), plainRow "3" "fd00::a578" (by decide)]
  ended := by decide

theorem requests_right_pair : pairMap.Decimal ∧
    RequestsRight (hostLibc intMax) pairMap pairText := by
  have hdecimal : pairMap.Decimal := by decide
  have hlines : tokenLines (hostLibc intMax) (fgetsAll lineSize pairText) =
      [["2".toList, "3\n".toList]] := by decide
  have hright : ∀ tok ∈ ["2".toList, "3\n".toList],
      Unmistaken (hostLibc intMax) pairMap tok := by
    intro tok htok
    simp only [List.mem_cons, List.not_mem_nil, or_false] at htok
    rcases htok with rfl | rfl
    · refine ⟨_, List.mem_cons_self, by decide, fun q hq => ?_⟩
      obtain ⟨hmem, hb⟩ := hq.mem
      simp only [pairMap, List.mem_cons, List.not_mem_nil, or_false] at hmem
      rcases hmem with rfl | rfl
      · rfl
      · exact absurd hb (by decide)
    · refine ⟨_, List.mem_cons_of_mem _ List.mem_cons_self, by decide, fun q hq => ?_⟩
      obtain ⟨hmem, hb⟩ := hq.mem
      simp only [pairMap, List.mem_cons, List.not_mem_nil, or_false] at hmem
      rcases hmem with rfl | rfl
      · exact absurd hb (by decide)
      · rfl
  refine ⟨hdecimal, (requests_right_iff hdecimal _ _).2 ⟨⟨by decide, by decide⟩, fun _ => ?_⟩⟩
  rw [hlines]
  exact eachReached_cons.2 ⟨⟨by decide, .inr ⟨hright _ (by simp), fun _ =>
    .inr ⟨hright _ (by simp), fun _ => trivial⟩⟩⟩, fun _ => eachReached_nil⟩

/-- One byte holds neither 1 nor 257 apart from the other. -/
def collidingMap : MapFile where
  rows := [plainRow "1" "fd00::1062" (by decide), plainRow "257" "fd00::a578" (by decide)]
  ended := by decide

/-- The request for 1 goes to the address of 257. One for 3, which is not in the map, goes to
whatever the heap holds. -/
theorem wrong_node : collidingMap.Decimal ∧
    (∃ s, main (hostLibc intMax) (some collidingMap.text) (some "1\n".toList) =
      .ok (.running s, [start (hostLibc intMax) ⟨0, [1]⟩,
        ⟨secondRound, 0, 0xfd00000000000000000000000000a578⟩])) ∧
    (∃ s, main (hostLibc intMax) (some collidingMap.text) (some "3\n".toList) =
      .ok (.running s, [start (hostLibc intMax) ⟨0, [3]⟩,
        ⟨secondRound, 0, destination (hostLibc intMax) (hostLibc intMax).heap⟩])) ∧
    ¬ RequestsRight (hostLibc intMax) collidingMap "1\n".toList := by
  refine ⟨by decide, ⟨_, rfl⟩, ⟨_, rfl⟩, fun h => ?_⟩
  obtain ⟨before, toks, fp, hfp, hfile, hright⟩ : Rightly (hostLibc intMax) collidingMap
      (fgetsAll lineSize "1\n".toList) (.running _) _ := h.here
  obtain rfl : fp = [] := (Option.some.inj hfp).symm
  have hlines : tokenLines (hostLibc intMax) (fgetsAll lineSize "1\n".toList) =
      [["1\n".toList]] := by decide
  have hsplit : [] ++ [["1\n".toList]] = before ++ [toks] := hlines.symm.trans hfile
  obtain rfl : ["1\n".toList] = toks := List.singleton_inj.1 (List.append_inj' hsplit rfl).2
  obtain ⟨tok, htok, r, hr, hw, hdst⟩ :=
    hright ⟨secondRound, 0, 0xfd00000000000000000000000000a578⟩ (by decide)
  obtain rfl : "1\n".toList = tok := Option.some.inj htok
  simp only [collidingMap, List.mem_cons, List.not_mem_nil, or_false] at hr
  rcases hr with rfl | rfl
  · exact absurd hdst (by decide)
  · exact absurd hw (by decide)

end Verifier
end Swarna
