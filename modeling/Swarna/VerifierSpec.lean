import Swarna.Verifier

/-!
# Swarna.VerifierSpec

What the functions of the verifier do, one lemma each.

* `rounds`: the lines of node ids of a request file, each with the run number it is processed
  under.
* `Asking`: the state while the nodes of a round are asked, one after the other.
* `readLines_ok`: the next round begins, or the file has none left.
* `receive_next`, `receive_last`: an answer in the middle of a round and at its end.
-/

namespace Swarna
namespace Verifier

open CString

/-! ## The map -/

/-- Ids are distinct, and none is 0. -/
structure NodeMap.Good (m : NodeMap) : Prop where
  nodup : (m.entries.map Entry.id).Nodup
  ne_zero : ∀ e ∈ m.entries, e.id ≠ 0

section

variable (L : Libc) {m : NodeMap}

theorem getAddrFromId_eq (hm : m.Good) {e : Entry} (he : e ∈ m.entries) :
    getAddrFromId L m e.id = e.addr := by
  have hnone : ∀ (l : List Entry) (id : BitVec 8) (a : List Char), id ∉ l.map Entry.id →
      l.foldl (fun a e => if e.id = id then e.addr else a) a = a := by
    intro l id
    induction l with
    | nil => exact fun _ _ => rfl
    | cons d l ih =>
      intro a hid
      rw [List.map_cons, List.mem_cons, not_or] at hid
      rw [List.foldl_cons, if_neg (Ne.symm hid.1)]
      exact ih a hid.2
  have hfold : ∀ (l : List Entry) (a : List Char), (l.map Entry.id).Nodup → e ∈ l →
      l.foldl (fun a d => if d.id = e.id then d.addr else a) a = e.addr := by
    intro l
    induction l with
    | nil => exact fun _ _ h => nomatch h
    | cons d l ih =>
      intro a hn hmem
      rw [List.map_cons, List.nodup_cons] at hn
      rw [List.foldl_cons]
      rcases List.mem_cons.1 hmem with rfl | hmem
      · rw [if_pos rfl]
        exact hnone l _ _ hn.1
      · exact ih _ hn.2 hmem
  exact hfold m.entries L.heap hm.nodup he

/-! ## Rounds -/

/-- A line of node ids, and the run number it is processed under. -/
structure Round where
  runNo : Int
  ids : List (BitVec 8)
  deriving DecidableEq, Repr

def nodeIds (tokens : List (List Char)) : List (BitVec 8) :=
  tokens.map fun tok => BitVec.ofInt 8 (atoi L.longMax tok)

/-- The rounds the lines of a file ask for, up to a line the program does not survive. -/
def rounds : List (List Char) → (runNo : Int) → List Round
  | [], _ => []
  | line :: fp, r =>
    match classify L (cstr line) with
    | .error _ => []
    | .ok (.runNo n) => rounds fp n
    | .ok .ignored => rounds fp r
    | .ok (.nodes tokens) => ⟨r, nodeIds L tokens⟩ :: rounds fp r

/-- At least one id, no more than fit, all of them in the map. -/
structure Round.Valid (m : NodeMap) (rd : Round) : Prop where
  ne_nil : rd.ids ≠ []
  length_le : rd.ids.length ≤ maxIds
  mem : ∀ id ∈ rd.ids, ∃ e ∈ m.entries, e.id = id

/-- The request for a node of a round. -/
def request (m : NodeMap) (rd : Round) (id : BitVec 8) : Request :=
  secondUdpSend L secondRound rd.runNo (getAddrFromId L m id)

def start (rd : Round) : Request := secondUdpSend L secondTimeStart rd.runNo servAddr

def stop (rd : Round) : Request := secondUdpSend L secondTimeStop rd.runNo servAddr

def done (rd : Round) : Request := secondUdpSend L secondTimeDone rd.runNo servAddr

end

variable {L : Libc} {m : NodeMap}

/-! ## Asking -/

/-- The array holds the ids, and zeros after them. -/
def ReqPkt.Lists (rpkt : ReqPkt) (ids : List (BitVec 8)) : Prop :=
  ∀ (i : Nat) (h : i < maxIds), rpkt.nodeAddr[i] = ids.getD i 0

theorem ReqPkt.lists_zero (reqType : BitVec 8) :
    ReqPkt.Lists { ReqPkt.zero with reqType := reqType } [] := by
  intro i h
  simp [ReqPkt.zero]

theorem storeIds_eq (tokens : List (List Char)) {rpkt : ReqPkt} {ids : List (BitVec 8)}
    (hl : rpkt.Lists ids) (hlen : ids.length + tokens.length ≤ maxIds) :
    ∃ rpkt', storeIds L tokens rpkt ids.length = .ok (rpkt', ids.length + tokens.length) ∧
      rpkt'.Lists (ids ++ nodeIds L tokens) := by
  induction tokens generalizing rpkt ids with
  | nil => exact ⟨rpkt, rfl, by simpa [nodeIds] using hl⟩
  | cons tok toks ih =>
    rw [List.length_cons] at hlen
    have hlt : ids.length < maxIds := by omega
    let id := BitVec.ofInt 8 (atoi L.longMax tok)
    have hset : ReqPkt.Lists { rpkt with nodeAddr := rpkt.nodeAddr.set ids.length id hlt }
        (ids ++ [id]) := by
      intro i h
      rw [Vector.getElem_set]
      split
      · rename_i heq
        simp [← heq]
      · rename_i hne
        rw [hl i h]
        rcases Nat.lt_or_gt_of_ne hne with hgt | hlt'
        · simp only [List.getD_eq_getElem?_getD]
          rw [List.getElem?_eq_none (by omega), List.getElem?_eq_none (by simp; omega)]
        · simp only [List.getD_eq_getElem?_getD]
          rw [List.getElem?_append_left hlt']
    obtain ⟨rpkt', hrun, hl'⟩ := ih hset (by simp; omega)
    refine ⟨rpkt', ?_, by simpa [nodeIds, id] using hl'⟩
    rw [storeIds, dif_pos hlt]
    rw [List.length_append, List.length_singleton] at hrun
    rw [hrun, List.length_cons]
    exact congrArg (fun n => Except.ok (rpkt', n)) (by omega)

theorem sendReqSingleNode_eq {s : State} {ids : List (BitVec 8)} {id : BitVec 8}
    (hl : s.localRpkt.Lists ids) (hlen : ids.length ≤ maxIds) (hid : ids[s.nodeIndex]? = some id)
    (hne : id ≠ 0) :
    sendReqSingleNode L s = .ok ({ s with sentId := id, nodeIndex := s.nodeIndex + 1 },
      [secondUdpSend L secondRound s.runNo (getAddrFromId L s.map id)]) := by
  have hlt : s.nodeIndex < maxIds :=
    Nat.lt_of_lt_of_le (List.getElem?_eq_some_iff.1 hid).1 hlen
  have hget : s.localRpkt.nodeAddr[s.nodeIndex] = id := by
    rw [hl s.nodeIndex hlt, List.getD_eq_getElem?_getD, hid]
    rfl
  simp only [sendReqSingleNode, hlt, dif_pos, hget, hne, if_false]

/-- Node `k` of round `rd` was asked last, and its answer is awaited; `rest` are the rounds of the
lines of `file` not read yet. -/
structure Asking (L : Libc) (m : NodeMap) (file : List (List Char)) (rd : Round)
    (rest : List Round) (k : Nat) (s : State) : Prop where
  map : s.map = m
  fp : ∃ lines, s.fp = some lines ∧ lines <:+ file ∧ rounds L lines rd.runNo = rest
  runNo : s.runNo = rd.runNo
  lists : s.localRpkt.Lists rd.ids
  count : s.secClientCount = rd.ids.length
  index : s.nodeIndex = k + 1
  sent : rd.ids[k]? = some s.sentId
  started : s.startSent = true
  received : s.recvCount = k

variable {file : List (List Char)}

theorem Asking.lt {rd : Round} {rest : List Round} {k : Nat} {s : State}
    (h : Asking L m file rd rest k s) : k < rd.ids.length := (List.getElem?_eq_some_iff.1 h.sent).1

theorem Round.Valid.id_ne_zero {rd : Round} (hm : m.Good) (hv : rd.Valid m) {id : BitVec 8}
    (hid : id ∈ rd.ids) : id ≠ 0 := by
  obtain ⟨e, he, rfl⟩ := hv.mem id hid
  exact hm.ne_zero e he

theorem readLineSendReq_eq {s : State} {fp : List (List Char)} (h : s.fp = some fp) :
    readLineSendReq L s = readLines L fp s := by simp only [readLineSendReq, h]

/-- The program comes to its receive loop, or has nothing to ask for. -/
theorem begin_text (text : List Char) : begin L m (some text) =
    match readLines L (fgetsAll lineSize text) (init m (some (fgetsAll lineSize text))) with
    | .error f => .error f
    | .ok (s, out, true) => .ok (.running s, out)
    | .ok (_, out, false) => .ok (.exited 0, out) := rfl

/-- A line of the file that ends the program with fault `f`. -/
def Breaks (L : Libc) (file : List (List Char)) (f : Fault) : Prop :=
  ∃ line ∈ file, classify L (cstr line) = .error f

/-- A line of node ids is stored, and its first id looked at. -/
theorem readLines_nodes {line : List Char} (fp : List (List Char)) {tokens : List (List Char)}
    (s : State) (hc : classify L (cstr line) = .ok (.nodes tokens))
    (hlen : tokens.length ≤ maxIds) :
    ∃ rpkt : ReqPkt, rpkt.Lists (nodeIds L tokens) ∧
      rpkt.size = BitVec.ofNat 8 tokens.length ∧ ∀ s' out, sendReqSingleNode L { s with
        fp := some fp, secClientCount := tokens.length, startSent := true
        localRpkt := rpkt, nodeIndex := 0 } = .ok (s', out) →
      readLines L (line :: fp) s = .ok (s', (if s.startSent then [] else
        [start L ⟨s.runNo, nodeIds L tokens⟩]) ++ out, true) := by
  obtain ⟨rpkt, hstore, hl⟩ := storeIds_eq (L := L) tokens
    (ReqPkt.lists_zero secondRound) (by simpa using hlen)
  simp only [List.length_nil, Nat.zero_add] at hstore
  rw [List.nil_append] at hl
  refine ⟨{ rpkt with size := BitVec.ofNat 8 tokens.length }, hl, rfl, fun s' out hsend => ?_⟩
  simp only [readLines, hc, hstore, sendUnicastSecondRoundReq, hsend, start]

/-- A line whose first id is not 0 begins its round. -/
theorem readLines_round {line : List Char} {fp : List (List Char)} {tokens : List (List Char)}
    {s : State} (hc : classify L (cstr line) = .ok (.nodes tokens)) (hfp : fp <:+ file)
    (hlen : tokens.length ≤ maxIds) {id : BitVec 8} (hid : (nodeIds L tokens)[0]? = some id)
    (hne : id ≠ 0) (hmap : s.map = m) (hrecv : s.recvCount = 0) :
    ∃ s', readLines L (line :: fp) s = .ok (s', (if s.startSent then [] else
        [start L ⟨s.runNo, nodeIds L tokens⟩]) ++
          [request L m ⟨s.runNo, nodeIds L tokens⟩ s'.sentId], true) ∧
      s'.fp = some fp ∧
      Asking L m file ⟨s.runNo, nodeIds L tokens⟩ (rounds L fp s.runNo) 0 s' := by
  obtain rfl := hmap
  obtain ⟨rpkt, hl, -, hread⟩ := readLines_nodes fp s hc hlen
  let s₁ : State := { s with
    fp := some fp, secClientCount := tokens.length, startSent := true
    localRpkt := rpkt, nodeIndex := 0 }
  have hsend := sendReqSingleNode_eq (L := L) (s := s₁) hl (by simpa [nodeIds] using hlen) hid hne
  refine ⟨{ s₁ with sentId := id, nodeIndex := 1 }, hread _ _ hsend, rfl, ?_⟩
  exact ⟨rfl, ⟨fp, rfl, hfp, rfl⟩, rfl, hl, by simp [nodeIds, s₁], rfl, hid, rfl, hrecv⟩

/-- Reading on: a line ends the program, the next round begins, or the file has none left. -/
theorem readLines_cases (hm : m.Good) {lines : List (List Char)} {s : State}
    (hfile : lines <:+ file) (hv : ∀ rd ∈ rounds L lines s.runNo, rd.Valid m) (hmap : s.map = m)
    (hrecv : s.recvCount = 0) :
    (∃ f, Breaks L file f ∧ readLines L lines s = .error f) ∨
      (rounds L lines s.runNo = [] ∧ ∃ s', readLines L lines s = .ok (s', [], false)) ∨
      ∃ rd rest s', rounds L lines s.runNo = rd :: rest ∧ Asking L m file rd rest 0 s' ∧
        readLines L lines s = .ok (s',
          (if s.startSent then [] else [start L rd]) ++ [request L m rd s'.sentId], true) := by
  induction lines generalizing s with
  | nil => exact .inr (.inl ⟨rfl, _, rfl⟩)
  | cons line fp ih =>
    have hfp : fp <:+ file := (List.suffix_cons line fp).trans hfile
    cases hc : classify L (cstr line) with
    | error f =>
      exact .inl ⟨f, ⟨line, hfile.subset (List.mem_cons_self ..), hc⟩, by simp only [readLines, hc]⟩
    | ok x =>
      cases x with
      | runNo n =>
        simp only [rounds, readLines, hc] at hv ⊢
        exact ih (s := { s with runNo := n }) hfp hv hmap hrecv
      | ignored =>
        simp only [rounds, readLines, hc] at hv ⊢
        exact ih hfp hv hmap hrecv
      | nodes tokens =>
        simp only [rounds, hc] at hv ⊢
        have hround : Round.Valid m ⟨s.runNo, nodeIds L tokens⟩ := hv _ (List.mem_cons_self ..)
        have hpos : 0 < (nodeIds L tokens).length := List.length_pos_iff.2 hround.ne_nil
        obtain ⟨s', he, -, hask⟩ := readLines_round hc hfp
          (by simpa [nodeIds] using hround.length_le) (List.getElem?_eq_getElem hpos)
          (hround.id_ne_zero hm (List.getElem_mem hpos)) hmap hrecv
        exact .inr (.inr ⟨_, _, s', rfl, hask, he⟩)

/-- An answer in the middle of a round: the next node is asked. -/
theorem receive_next {rd : Round} {rest : List Round} {k : Nat} {s : State} {src : Addr}
    (hlen : rd.ids.length ≤ maxIds) (h : Asking L m file rd rest k s) {id : BitVec 8}
    (hget : rd.ids[k + 1]? = some id) (hne : id ≠ 0)
    (hid : getIdFromAddr m (L.inetNtop src) = s.sentId) :
    ∃ s', receive L s src = .ok (.running s', [request L m rd s'.sentId]) ∧ s'.fp = s.fp ∧
      Asking L m file rd rest (k + 1) s' := by
  obtain ⟨rfl, hfp, hrun, hl, hc, hi, -, hst, hr⟩ := h
  have hk : k + 1 < rd.ids.length := (List.getElem?_eq_some_iff.1 hget).1
  have hcount : ¬ s.secClientCount = s.recvCount + 1 := by omega
  have hsend := sendReqSingleNode_eq (L := L) (s := { s with recvCount := s.recvCount + 1 })
    hl hlen (by rw [← hget, hi]) hne
  refine ⟨{ s with sentId := id, nodeIndex := s.nodeIndex + 1, recvCount := s.recvCount + 1 },
    ?_, rfl, ⟨rfl, hfp, hrun, hl, hc, congrArg (· + 1) hi, hget, hst, congrArg (· + 1) hr⟩⟩
  simp only [receive, hcount, if_false, hid, if_true, hsend]
  simp only [request, hrun]

/-- The last answer of a round: the stop goes out, and the next round begins or the program
ends. -/
theorem receive_last (src : Addr) (hm : m.Good) {rd : Round} {rest : List Round} {k : Nat}
    {s : State} (hv : ∀ rd ∈ rest, rd.Valid m) (h : Asking L m file rd rest k s)
    (hk : k + 1 = rd.ids.length) :
    (∃ f, Breaks L file f ∧ receive L s src = .error f) ∨
      (rest = [] ∧ receive L s src = .ok (.exited 0, [stop L rd, done L rd])) ∨
      ∃ rd' rest' s', rest = rd' :: rest' ∧ Asking L m file rd' rest' 0 s' ∧
        receive L s src = .ok (.running s', [stop L rd, request L m rd' s'.sentId]) := by
  obtain ⟨rfl, ⟨lines, hfp, hfile, hrounds⟩, hrun, -, hc, -, -, hst, hcount⟩ := h
  have heq : s.secClientCount = s.recvCount + 1 := by omega
  have hr : rounds L lines s.runNo = rest := by rw [hrun, hrounds]
  have hread := readLines_cases (L := L) (s := { s with recvCount := 0 }) hm hfile (hr ▸ hv) rfl rfl
  rw [hr] at hread
  have hsend : readLineSendReq L { s with recvCount := 0 } =
      readLines L lines { s with recvCount := 0 } := readLineSendReq_eq hfp
  rcases hread with ⟨f, hf, he⟩ | ⟨hnil, s', he⟩ | ⟨rd', rest', s', hcons, hask, he⟩
  · exact .inl ⟨f, hf, by simp only [receive, if_pos heq, hsend, he]⟩
  · refine .inr (.inl ⟨hnil, ?_⟩)
    simp only [receive, if_pos heq, hsend, he]
    simp only [stop, done, hrun, List.nil_append]
  · rw [if_pos hst] at he
    refine .inr (.inr ⟨rd', rest', s', hcons, hask, ?_⟩)
    simp only [receive, if_pos heq, hsend, he]
    simp only [stop, hrun, List.nil_append]

end Verifier
end Swarna
