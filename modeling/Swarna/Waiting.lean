import Swarna.VerifierRounds

/-!
# Swarna.Waiting

The verifier in a network where each second-round request to a node of the map is answered once,
and nothing else arrives. It waits for as many answers as the line has ids, but asks no further
once an id is 0 or an answer is not recognised.

* `settled_last`, `settled_next`, `settled_stuck`: what an answer leads to.
* `settled_asking`, `settled_read`: a round from one of its nodes on, and a file from one of its
  lines on.
* `never_idle_iff`: the lines for which there is always an answer to wait for.
* `idle_after_blank_line`: a blank line is one id, which is 0.
-/

namespace Swarna
namespace Verifier

open CString

/-! ## The network -/

/-- The verifier, and the second-round requests that are not answered. -/
structure World where
  process : Process
  pending : List Request

def requests (out : List Request) : List Request := out.filter fun q => q.pktType = secondRound

/-- What becomes of the verifier, with its requests added to `pending`. -/
def send (pending : List Request) : Except Fault (Process × List Request) → Except Fault World
  | .error f => .error f
  | .ok (p, out) => .ok ⟨p, pending ++ requests out⟩

section

variable (L : Libc) (m : NodeMap)

/-- The address has a line of the map. -/
def Reaches (a : Addr) : Prop := ∃ e ∈ m.entries, destination L e.addr = a

/-- A node answers a request. -/
inductive Answer : Except Fault World → Except Fault World → Prop where
  | intro {w : World} {q : Request} : q ∈ w.pending → Reaches L m q.dst →
      Answer (.ok w) (send (w.pending.erase q) (step L w.process (.datagram q.dst)))

/-- In the receive loop an answer is outstanding, and fewer have come than the line has ids. A
string that is missing ends the program; after a write past an array nothing is known. -/
def Waits : Except Fault World → Prop
  | .ok ⟨.running s, pending⟩ => pending ≠ [] ∧ s.recvCount < s.secClientCount
  | .ok ⟨.exited _, _⟩ => True
  | .error f => f = .nullString

/-- From there on the verifier never waits with nothing outstanding. -/
def Settled : Except Fault World → Prop := Always (Answer L m) Waits

def NeverIdle (text : List Char) : Prop := Settled L m (send [] (begin L m (some text)))

/-! ## The lines -/

/-- The address the request for an id goes to. -/
def nodeAddr (id : BitVec 8) : Addr := destination L (getAddrFromId L m id)

/-- No id is 0, and an answer is recognised if a node is left to be asked. -/
def Keeps : List (BitVec 8) → Prop
  | [] => False
  | [id] => id ≠ 0
  | id :: id' :: ids => id ≠ 0 ∧ (Reaches L m (nodeAddr L m id) →
      getIdFromAddr m (L.inetNtop (nodeAddr L m id)) = id ∧ Keeps (id' :: ids))

/-- The rounds, up to one with a node that does not answer. -/
def Settles : List Round → Prop
  | [] => True
  | rd :: rest => rd.ids.length ≤ maxIds ∧ Keeps L m rd.ids ∧
      ((∀ id ∈ rd.ids, Reaches L m (nodeAddr L m id)) → Settles rest)

end

variable {L : Libc} {m : NodeMap} {file : List (List Char)}

/-! ## One answer -/

theorem settled_error (f : Fault) : Settled L m (.error f) ↔ f = .nullString :=
  always_of_stuck fun _ h => nomatch h

theorem settled_exited (code : Nat) : Settled L m (.ok ⟨.exited code, []⟩) := by
  refine (always_of_stuck fun b hb => ?_).2 trivial
  cases hb with
  | intro hq _ => cases hq

theorem not_settled_idle (s : State) : ¬ Settled L m (.ok ⟨.running s, []⟩) :=
  fun h => (always_iff.1 h).1.1 rfl

/-- With one request outstanding. -/
theorem settled_one {s : State} {q : Request} (hlt : s.recvCount < s.secClientCount) :
    Settled L m (.ok ⟨.running s, [q]⟩) ↔
      (Reaches L m q.dst → Settled L m (send [] (receive L s q.dst))) := by
  have hwaits : Waits (.ok ⟨.running s, [q]⟩) := ⟨List.cons_ne_nil _ _, hlt⟩
  by_cases hq : Reaches L m q.dst
  · rw [Settled, always_of_next (b := send [] (receive L s q.dst)) _ hwaits]
    · exact ⟨fun h _ => h, fun h => h hq⟩
    · intro o
      constructor
      · intro h
        cases h with
        | intro hmem _ =>
          rw [List.mem_singleton.1 hmem, List.erase_cons_head]
          rfl
      · rintro rfl
        have := Answer.intro (w := ⟨.running s, [q]⟩) (List.mem_singleton_self q) hq
        rwa [List.erase_cons_head] at this
  · rw [Settled, always_of_stuck]
    · exact ⟨fun _ h => absurd h hq, fun _ => hwaits⟩
    · intro o h
      cases h with
      | intro hmem hr => exact hq (List.mem_singleton.1 hmem ▸ hr)

/-! ## Reading on -/

/-- What reading the next line leads to. -/
def resume : Except Fault (State × List Request × Bool) → Except Fault World
  | .error f => .error f
  | .ok (s, out, true) => .ok ⟨.running s, requests out⟩
  | .ok (_, out, false) => .ok ⟨.exited 0, requests out⟩

theorem requests_append (out out' : List Request) :
    requests (out ++ out') = requests out ++ requests out' := List.filter_append ..

theorem requests_start (b : Bool) (rd : Round) :
    requests (if b then [] else [start L rd]) = [] := by cases b <;> rfl

theorem send_begin (text : List Char) : send [] (begin L m (some text)) =
    resume (readLines L (fgetsAll lineSize text) (init m (some (fgetsAll lineSize text)))) := by
  rw [begin_text]
  rcases readLines L (fgetsAll lineSize text) _ with f | ⟨s, out, _ | _⟩ <;> rfl

theorem send_last {s : State} {fp : List (List Char)} (src : Addr)
    (hcount : s.secClientCount = s.recvCount + 1) (hfp : s.fp = some fp) :
    send [] (receive L s src) = resume (readLines L fp { s with recvCount := 0 }) := by
  have hline : readLineSendReq L { s with recvCount := 0 } =
      readLines L fp { s with recvCount := 0 } := readLineSendReq_eq hfp
  have hdone : requests [secondUdpSend L secondTimeDone s.runNo servAddr] = [] := rfl
  simp only [receive, if_pos hcount, hline]
  rcases readLines L fp _ with f | ⟨s', out, _ | _⟩
  · rfl
  · simp only [send, resume, List.nil_append]
    rw [← List.singleton_append, requests_append, requests_append, hdone, List.append_nil]
    rfl
  · rfl

theorem sendReqSingleNode_zero {s : State} {ids : List (BitVec 8)} (hl : s.localRpkt.Lists ids)
    (hlt : s.nodeIndex < maxIds) (hid : ids.getD s.nodeIndex 0 = 0) :
    sendReqSingleNode L s = .ok ({ s with sentId := 0 }, []) := by
  have hget : s.localRpkt.nodeAddr[s.nodeIndex] = 0 := (hl s.nodeIndex hlt).trans hid
  simp only [sendReqSingleNode, dif_pos hlt, hget, if_true]

/-- In the middle of a round nothing is sent if the answer is not recognised or the next id
is 0. -/
theorem receive_idle {rd : Round} {rest : List Round} {k : Nat} {s : State} {src : Addr}
    {id : BitVec 8} (hlen : rd.ids.length ≤ maxIds) (h : Asking L m file rd rest k s)
    (hget : rd.ids[k + 1]? = some id)
    (hid : getIdFromAddr m (L.inetNtop src) = s.sentId → id = 0) :
    ∃ s', receive L s src = .ok (.running s', []) := by
  have hk : k + 1 < rd.ids.length := (List.getElem?_eq_some_iff.1 hget).1
  have hcount : ¬ s.secClientCount = s.recvCount + 1 := by
    rw [h.count, h.received]
    omega
  obtain rfl := h.map
  simp only [receive, hcount, if_false]
  split
  · rename_i hknown
    have hzero : rd.ids.getD s.nodeIndex 0 = 0 := by
      rw [h.index, List.getD_eq_getElem?_getD, hget, hid hknown.symm]
      rfl
    have hlt : s.nodeIndex < maxIds := by
      rw [h.index]
      omega
    have hsend := sendReqSingleNode_zero (L := L) (s := { s with recvCount := s.recvCount + 1 })
      h.lists hlt hzero
    simp only [hsend]
    exact ⟨_, rfl⟩
  · exact ⟨_, rfl⟩

/-! ## Rounds -/

theorem Keeps.getD_ne_zero {ids : List (BitVec 8)} (h : Keeps L m ids) : ids.getD 0 0 ≠ 0 := by
  match ids with
  | [] => exact h.elim
  | [_] => exact h
  | _ :: _ :: _ => exact h.1

section Asking

variable {fp : List (List Char)} {rd : Round} {rest : List Round} {k : Nat} {s : State}

theorem Asking.rounds_eq (h : Asking L m file rd rest k s) (hfp : s.fp = some fp) :
    rounds L fp s.runNo = rest := by
  obtain ⟨lines, hlines, -, hr⟩ := h.fp
  cases hlines.symm.trans hfp
  rw [h.runNo, hr]

theorem Asking.recvCount_lt (h : Asking L m file rd rest k s) : s.recvCount < s.secClientCount := by
  rw [h.count, h.received]
  exact h.lt

/-- The answer of the last node of a round brings the next line. -/
theorem settled_last (h : Asking L m file rd rest k s) (hfp : s.fp = some fp)
    (hlast : rd.ids.length = k + 1) :
    Settled L m (.ok ⟨.running s, [request L m rd s.sentId]⟩) ↔
      (Reaches L m (nodeAddr L m s.sentId) →
        Settled L m (resume (readLines L fp { s with recvCount := 0 }))) := by
  have hcount : s.secClientCount = s.recvCount + 1 := by rw [h.count, h.received, hlast]
  rw [settled_one h.recvCount_lt, send_last _ hcount hfp]
  rfl

/-- A recognised answer brings the next request. -/
theorem settled_next (hlen : rd.ids.length ≤ maxIds) (h : Asking L m file rd rest k s)
    {id : BitVec 8} (hget : rd.ids[k + 1]? = some id) (hne : id ≠ 0)
    (hknown : getIdFromAddr m (L.inetNtop (nodeAddr L m s.sentId)) = s.sentId) :
    ∃ s', s'.fp = s.fp ∧ Asking L m file rd rest (k + 1) s' ∧ s'.sentId = id ∧
      (Settled L m (.ok ⟨.running s, [request L m rd s.sentId]⟩) ↔
        (Reaches L m (nodeAddr L m s.sentId) →
          Settled L m (.ok ⟨.running s', [request L m rd s'.sentId]⟩))) := by
  obtain ⟨s', he, hfp, hask⟩ := receive_next hlen h hget hne hknown
  refine ⟨s', hfp, hask, Option.some.inj (hask.sent.symm.trans hget), ?_⟩
  rw [settled_one h.recvCount_lt,
    show (request L m rd s.sentId).dst = nodeAddr L m s.sentId from rfl, he]
  rfl

/-- After any other answer there is nothing to wait for. -/
theorem settled_stuck (hlen : rd.ids.length ≤ maxIds) (h : Asking L m file rd rest k s)
    {id : BitVec 8} (hget : rd.ids[k + 1]? = some id)
    (hid : getIdFromAddr m (L.inetNtop (nodeAddr L m s.sentId)) = s.sentId → id = 0) :
    Settled L m (.ok ⟨.running s, [request L m rd s.sentId]⟩) ↔
      ¬ Reaches L m (nodeAddr L m s.sentId) := by
  obtain ⟨s', he⟩ := receive_idle hlen h hget hid
  rw [settled_one h.recvCount_lt,
    show (request L m rd s.sentId).dst = nodeAddr L m s.sentId from rfl, he]
  exact ⟨fun hs hr => not_settled_idle s' (hs hr), fun hr hr' => absurd hr' hr⟩

/-- From a node of a round on; `tail` are the ids after it. -/
theorem settled_asking
    (hread : ∀ s : State, s.map = m → s.recvCount = 0 →
      (Settled L m (resume (readLines L fp s)) ↔ Settles L m (rounds L fp s.runNo)))
    (hlen : rd.ids.length ≤ maxIds) (tail : List (BitVec 8))
    (hask : Asking L m file rd rest k s) (hfp : s.fp = some fp) (hne : s.sentId ≠ 0)
    (hdrop : rd.ids.drop k = s.sentId :: tail) :
    Settled L m (.ok ⟨.running s, [request L m rd s.sentId]⟩) ↔
      Keeps L m (s.sentId :: tail) ∧
        ((∀ id ∈ s.sentId :: tail, Reaches L m (nodeAddr L m id)) → Settles L m rest) := by
  induction tail generalizing k s with
  | nil =>
    have hlast : rd.ids.length = k + 1 := by
      have := congrArg List.length hdrop
      rw [List.length_drop, List.length_singleton] at this
      omega
    rw [settled_last hask hfp hlast, hread { s with recvCount := 0 } hask.map rfl,
      hask.rounds_eq hfp]
    simp only [Keeps, List.mem_singleton, forall_eq]
    exact ⟨fun h => ⟨hne, h⟩, fun h => h.2⟩
  | cons id tail ih =>
    have hget : rd.ids[k + 1]? = some id := by
      rw [← List.getElem?_drop, hdrop]
      rfl
    by_cases hnext : getIdFromAddr m (L.inetNtop (nodeAddr L m s.sentId)) = s.sentId ∧ id ≠ 0
    · obtain ⟨hknown, hid⟩ := hnext
      obtain ⟨s', hfp', hask', rfl, hsettled⟩ := settled_next hlen hask hget hid hknown
      have hdrop' : rd.ids.drop (k + 1) = s'.sentId :: tail := by
        rw [← List.tail_drop, hdrop]
        rfl
      rw [hsettled, ih hask' (hfp'.trans hfp) hid hdrop']
      simp only [Keeps, List.forall_mem_cons]
      exact ⟨fun h => ⟨⟨hne, fun hr => ⟨hknown, (h hr).1⟩⟩, fun hr => (h hr.1).2 hr.2⟩,
        fun h hr => ⟨(h.1.2 hr).2, fun hr' => h.2 ⟨hr, hr'⟩⟩⟩
    · rw [settled_stuck hlen hask hget fun hknown => not_not.1 fun hid => hnext ⟨hknown, hid⟩]
      constructor
      · intro hr
        exact ⟨⟨hne, fun h => absurd h hr⟩, fun h => absurd (h _ (List.mem_cons_self ..)) hr⟩
      · rintro ⟨hkeeps, -⟩ hr
        obtain ⟨hknown, hkeeps⟩ := hkeeps.2 hr
        exact hnext ⟨hknown, hkeeps.getD_ne_zero⟩

end Asking

/-! ## Lines -/

theorem storeIds_overflow {tokens : List (List Char)} (rpkt : ReqPkt) {n : Nat}
    (hn : n ≤ maxIds) (hlen : maxIds < n + tokens.length) :
    storeIds L tokens rpkt n = .error .nodeAddrOverflow := by
  induction tokens generalizing rpkt n with
  | nil =>
    rw [List.length_nil] at hlen
    omega
  | cons tok tokens ih =>
    rw [List.length_cons] at hlen
    rw [storeIds]
    split
    · exact ih _ (by omega) (by omega)
    · rfl

theorem classify_error {line : List Char} {f : Fault} (h : classify L line = .error f) :
    f = .nullString := by
  simp only [classify] at h
  split at h
  · split at h <;> cases h
    rfl
  · split at h
    · split at h <;> cases h
      rfl
    · split at h <;> cases h

section Lines

variable {line : List Char} {fp tokens : List (List Char)} {s : State}

theorem not_settled_overflow (hc : classify L (cstr line) = .ok (.nodes tokens))
    (hlen : maxIds < tokens.length) : ¬ Settled L m (resume (readLines L (line :: fp) s)) := by
  have hstore := storeIds_overflow (L := L) { ReqPkt.zero with reqType := secondRound }
    (Nat.zero_le _) (by omega : maxIds < 0 + tokens.length)
  simp only [readLines, hc, hstore, resume]
  exact fun h => absurd ((settled_error _).1 h) (by decide)

/-- Without an id, or with 0 as the first, nothing is sent. -/
theorem not_settled_unsent (hc : classify L (cstr line) = .ok (.nodes tokens))
    (hlen : tokens.length ≤ maxIds) (hid : (nodeIds L tokens).getD 0 0 = 0) :
    ¬ Settled L m (resume (readLines L (line :: fp) s)) := by
  obtain ⟨rpkt, hl, -, hread⟩ := readLines_nodes fp s hc hlen
  rw [hread _ _ (sendReqSingleNode_zero hl (Nat.zero_lt_succ _) hid), resume, List.append_nil,
    requests_start]
  exact not_settled_idle _

/-- Any other line begins its round. -/
theorem settled_line (hc : classify L (cstr line) = .ok (.nodes tokens))
    (hlen : tokens.length ≤ maxIds) (hid : (nodeIds L tokens).getD 0 0 ≠ 0) (hmap : s.map = m)
    (hrecv : s.recvCount = 0)
    (hread : ∀ s : State, s.map = m → s.recvCount = 0 →
      (Settled L m (resume (readLines L fp s)) ↔ Settles L m (rounds L fp s.runNo))) :
    Settled L m (resume (readLines L (line :: fp) s)) ↔ Keeps L m (nodeIds L tokens) ∧
      ((∀ id ∈ nodeIds L tokens, Reaches L m (nodeAddr L m id)) →
        Settles L m (rounds L fp s.runNo)) := by
  cases hids : nodeIds L tokens with
  | nil => exact absurd (by rw [hids]; rfl) hid
  | cons id ids =>
    rw [hids] at hid
    have hget : (nodeIds L tokens)[0]? = some id := by
      rw [hids]
      rfl
    obtain ⟨s', he, hfp, hask⟩ :=
      readLines_round hc (List.suffix_refl fp) hlen hget hid hmap hrecv
    have hsent : s'.sentId = id := Option.some.inj (hask.sent.symm.trans hget)
    rw [he, resume, requests_append, requests_start, ← hsent]
    exact settled_asking hread (by simpa [nodeIds] using hlen) ids hask hfp (hsent ▸ hid)
      (by rw [hsent, List.drop_zero, hids])

end Lines

/-- From a line of the file on. -/
theorem settled_read (lines : List (List Char)) {s : State} (hmap : s.map = m)
    (hrecv : s.recvCount = 0) :
    Settled L m (resume (readLines L lines s)) ↔ Settles L m (rounds L lines s.runNo) := by
  induction lines generalizing s with
  | nil => exact ⟨fun _ => trivial, fun _ => settled_exited 0⟩
  | cons line fp ih =>
    cases hc : classify L (cstr line) with
    | error f =>
      simp only [readLines, rounds, hc, resume]
      exact ⟨fun _ => trivial, fun _ => (settled_error f).2 (classify_error hc)⟩
    | ok x =>
      cases x with
      | runNo n =>
        simp only [readLines, rounds, hc]
        exact ih hmap hrecv
      | ignored =>
        simp only [readLines, rounds, hc]
        exact ih hmap hrecv
      | nodes tokens =>
        have hlength : (nodeIds L tokens).length = tokens.length := by simp [nodeIds]
        simp only [rounds, hc, Settles, hlength]
        by_cases hlen : tokens.length ≤ maxIds
        · by_cases hid : (nodeIds L tokens).getD 0 0 = 0
          · exact iff_of_false (not_settled_unsent hc hlen hid) fun h => h.2.1.getD_ne_zero hid
          · rw [settled_line hc hlen hid hmap hrecv fun s hm hr => ih hm hr]
            exact ⟨fun h => ⟨hlen, h⟩, fun h => h.2⟩
        · exact iff_of_false (not_settled_overflow hc (by omega)) fun h => hlen h.1

theorem never_idle_iff (text : List Char) :
    NeverIdle L m text ↔ Settles L m (rounds L (fgetsAll lineSize text) 0) := by
  rw [NeverIdle, send_begin]
  exact settled_read _ rfl rfl

/-! ## A blank line -/

/-- Node 2, and a blank line. -/
def blankText : List Char := "2\n\n".toList

/-- Node 2 was asked, and the blank line is left. -/
def askedState : State :=
  { init hostMap (some [['\n']]) with
    localRpkt := ⟨secondRound, 1, ReqPkt.zero.nodeAddr.set 0 2 maxIds_pos⟩
    nodeIndex := 1, sentId := 2, secClientCount := 1, startSent := true }

/-- The blank line was read. -/
def idleState : State :=
  { askedState with
    fp := some [], localRpkt := ⟨secondRound, 1, ReqPkt.zero.nodeAddr⟩
    nodeIndex := 0, sentId := 0 }

theorem idle_after_blank_line :
    Relation.ReflTransGen (Answer (hostLibc intMax) hostMap)
      (send [] (begin (hostLibc intMax) hostMap (some blankText)))
      (.ok ⟨.running idleState, []⟩) ∧ ¬ NeverIdle (hostLibc intMax) hostMap blankText := by
  have hbegin : send [] (begin (hostLibc intMax) hostMap (some blankText)) =
      .ok ⟨.running askedState, [request (hostLibc intMax) hostMap ⟨0, [2]⟩ 2]⟩ := rfl
  have hreaches : Reaches (hostLibc intMax) hostMap
      (request (hostLibc intMax) hostMap ⟨0, [2]⟩ 2).dst :=
    ⟨_, List.mem_cons_self .., rfl⟩
  have hidle : send [] (step (hostLibc intMax) (.running askedState)
      (.datagram (request (hostLibc intMax) hostMap ⟨0, [2]⟩ 2).dst)) =
        .ok ⟨.running idleState, []⟩ := rfl
  have hanswer := Answer.intro (w := ⟨.running askedState, _⟩) (List.mem_singleton_self _) hreaches
  rw [List.erase_cons_head, hidle, ← hbegin] at hanswer
  have hrun := Relation.ReflTransGen.single hanswer
  exact ⟨hrun, fun h => (h _ hrun).1 rfl⟩

end Verifier
end Swarna
