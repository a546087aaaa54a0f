import Swarna.MapFile
import Swarna.Waiting

/-!
# Swarna.LineRuns

The verifier on any request file while any datagrams come, from any address and at any time.

* `tokenLines`: the tokens of the lines of node ids.
* `Throughout`: what holds of every step with what it sends, while no array is overrun.
* `Reading`: the state while a line of node ids is worked through.
* `read_lines`: reading on begins the next line, or overruns, or ends the program.
* `reading_last`, `reading_middle`: what a datagram leads to.
* `throughout_of_inside`, `reached_of_throughout`: what holds throughout is decided line by line, of
  the lines up to one without ids (`EachReached`).
* `throughout_main_iff`: and first by the map file.
-/

namespace Swarna
namespace Verifier

open CString

/-! ## Steps -/

section

variable (L : Libc)

/-- The tokens of the lines of node ids, up to a line the program does not survive. -/
def tokenLines : List (List Char) → List (List (List Char))
  | [] => []
  | line :: fp =>
    match classify L (cstr line) with
    | .error _ => []
    | .ok (.runNo _) => tokenLines fp
    | .ok .ignored => tokenLines fp
    | .ok (.nodes tokens) => tokens :: tokenLines fp

/-- What an event makes of the verifier. -/
inductive Next : Except Fault (Process × List Request) → Except Fault (Process × List Request) →
    Prop where
  | intro (p : Process) (out : List Request) (e : Event) : Next (.ok (p, out)) (step L p e)

/-- `Q` holds of the verifier and what it has just sent, and no array was overrun. -/
def Sound (Q : Process → List Request → Prop) : Except Fault (Process × List Request) → Prop
  | .error f => f.overruns = false
  | .ok (p, out) => Q p out

/-- From there on it is so whatever comes. -/
def Throughout (Q : Process → List Request → Prop) (r : Except Fault (Process × List Request)) :
    Prop :=
  Always (Next L) (Sound Q) r

/-- The line of `toks` is worked through. Its id `k` was looked at last, and asked for unless it is
0; then it will be looked at again. -/
structure Reading (m : NodeMap) (toks : List (List Char)) (fp : List (List Char)) (k : Nat)
    (s : State) : Prop where
  map : s.map = m
  fp : s.fp = some fp
  lists : s.localRpkt.Lists (nodeIds L toks)
  size : s.localRpkt.size = BitVec.ofNat 8 toks.length
  fits : toks.length ≤ maxIds
  count : s.secClientCount = toks.length
  received : toks ≠ [] → s.recvCount < toks.length
  sent : s.sentId = (nodeIds L toks).getD k 0
  index : s.nodeIndex = if s.sentId = 0 then k else k + 1
  le_received : k ≤ s.recvCount
  le_length : k ≤ toks.length

/-- The request for the id looked at last. -/
def lastRequest (m : NodeMap) (s : State) : List Request :=
  if s.sentId = 0 then []
  else [secondUdpSend L secondRound s.runNo (getAddrFromId L m s.sentId)]

/-- What `readLines` comes to on lines whose tokens these are. -/
inductive Read (m : NodeMap) :
    List (List (List Char)) → Except Fault (State × List Request × Bool) → Prop where
  | broken : Read m [] (.error .nullString)
  | ended (s : State) : Read m [] (.ok (s, [], false))
  | overflow {toks : List (List Char)} {rest : List (List (List Char))} :
      maxIds < toks.length → Read m (toks :: rest) (.error .nodeAddrOverflow)
  | line {toks : List (List Char)} {fp : List (List Char)} {s : State} {out : List Request} :
      Reading L m toks fp 0 s → s.recvCount = 0 → requests out = lastRequest L m s →
      Read m (toks :: tokenLines L fp) (.ok (s, out, true))

end

variable {L : Libc} {m : NodeMap} {toks fp : List (List Char)} {k : Nat} {s : State}

/-- The id at `node_index` is looked at. -/
theorem sendReqSingleNode_lists {ids : List (BitVec 8)} (hl : s.localRpkt.Lists ids)
    (hlt : s.nodeIndex < maxIds) : ∃ s', sendReqSingleNode L s = .ok (s', lastRequest L s.map s') ∧
      s' = { s with
        sentId := ids.getD s.nodeIndex 0
        nodeIndex := if ids.getD s.nodeIndex 0 = 0 then s.nodeIndex else s.nodeIndex + 1 } := by
  refine ⟨_, ?_, rfl⟩
  simp only [sendReqSingleNode, dif_pos hlt, hl s.nodeIndex hlt, lastRequest]
  split <;> rfl

theorem requests_lastRequest (m : NodeMap) (s : State) :
    requests (lastRequest L m s) = lastRequest L m s := by
  rw [lastRequest]
  split <;> rfl

theorem read_lines (lines : List (List Char)) (hmap : s.map = m) (hrecv : s.recvCount = 0) :
    Read L m (tokenLines L lines) (readLines L lines s) := by
  induction lines generalizing s with
  | nil => exact .ended _
  | cons line fp ih =>
    cases hc : classify L (cstr line) with
    | error f =>
      simp only [tokenLines, readLines, hc, classify_error hc]
      exact .broken
    | ok x =>
      cases x with
      | runNo n =>
        simp only [tokenLines, readLines, hc]
        exact ih hmap hrecv
      | ignored =>
        simp only [tokenLines, readLines, hc]
        exact ih hmap hrecv
      | nodes tokens =>
        simp only [tokenLines, hc]
        by_cases hlen : tokens.length ≤ maxIds
        · obtain ⟨rpkt, hl, hsize, hread⟩ := readLines_nodes fp s hc hlen
          let s₁ : State := { s with
            fp := some fp, secClientCount := tokens.length, startSent := true
            localRpkt := rpkt, nodeIndex := 0 }
          obtain ⟨s', hsend, hs'⟩ := sendReqSingleNode_lists (L := L) (s := s₁) hl
            (show 0 < maxIds by decide)
          rw [hread _ _ hsend]
          refine .line ?_ (by rw [hs']; exact hrecv) ?_
          · subst hs'
            exact ⟨hmap, rfl, hl, hsize, hlen, rfl, fun h => by
              show s.recvCount < _
              rw [hrecv]
              exact List.length_pos_iff.2 h, rfl, rfl, Nat.zero_le _, Nat.zero_le _⟩
          · rw [requests_append, requests_start, requests_lastRequest]
            exact congrArg (fun m => lastRequest L m s') hmap
        · have hstore := storeIds_overflow (L := L) { ReqPkt.zero with reqType := secondRound }
            (Nat.zero_le _) (by omega : maxIds < 0 + tokens.length)
          simp only [readLines, hc, hstore]
          exact .overflow (by omega)

/-! ## A datagram -/

/-- The receive loop goes on after the line read, or the program ends. -/
def resumed (before after : List Request) :
    Except Fault (State × List Request × Bool) → Except Fault (Process × List Request)
  | .error f => .error f
  | .ok (s, out, true) => .ok (.running s, before ++ out)
  | .ok (_, out, false) => .ok (.exited 0, before ++ (out ++ after))

theorem begin_resumed (m : NodeMap) (text : List Char) : begin L m (some text) =
    resumed [] [] (readLines L (fgetsAll lineSize text)
      (init m (some (fgetsAll lineSize text)))) := by
  rw [begin_text]
  rcases readLines L (fgetsAll lineSize text) _ with f | ⟨s, out, _ | _⟩
  · rfl
  · simp only [resumed, List.nil_append, List.append_nil]
  · rfl

/-- Stop and end are not requests to a node. -/
theorem requests_time (pktType : BitVec 8) (h : pktType ≠ secondRound) (runNo : Int)
    (addr : List Char) : requests [secondUdpSend L pktType runNo addr] = [] := by
  rw [requests, List.filter_cons_of_neg (by simp [secondUdpSend, h]), List.filter_nil]

namespace Reading

theorem ids_length (L : Libc) (toks : List (List Char)) :
    (nodeIds L toks).length = toks.length := List.length_map _

theorem lt_length (h : Reading L m toks fp k s) (hne : s.sentId ≠ 0) : k < toks.length := by
  by_contra hk
  have hnone : (nodeIds L toks)[k]? = none :=
    List.getElem?_eq_none (by rw [ids_length]; omega)
  rw [h.sent, List.getD_eq_getElem?_getD, hnone] at hne
  exact hne rfl

theorem index_le (h : Reading L m toks fp k s) :
    s.nodeIndex ≤ s.recvCount + 1 ∧ s.nodeIndex ≤ toks.length := by
  have hk := h.le_received
  rw [h.index]
  split
  · exact ⟨by omega, h.le_length⟩
  · rename_i hne
    exact ⟨by omega, h.lt_length hne⟩

/-- No id is read behind the array. -/
theorem index_lt (h : Reading L m toks fp k s) (hmid : s.recvCount + 1 ≠ toks.length) :
    s.nodeIndex < maxIds := by
  have hmax : maxIds = 150 := rfl
  obtain ⟨hrecv, hlen⟩ := h.index_le
  have hfits := h.fits
  by_cases hnil : toks = []
  · rw [hnil, List.length_nil] at hlen
    omega
  · have := h.received hnil
    omega

end Reading

/-- The datagram that completes the line brings the next one. -/
theorem reading_last (h : Reading L m toks fp k s) (hlast : s.recvCount + 1 = toks.length)
    (src : Addr) : receive L s src =
      resumed [secondUdpSend L secondTimeStop s.runNo servAddr]
        [secondUdpSend L secondTimeDone s.runNo servAddr]
        (readLines L fp { s with recvCount := 0 }) := by
  have hcount : s.secClientCount = s.recvCount + 1 := h.count.trans hlast.symm
  have hline : readLineSendReq L { s with recvCount := 0 } =
      readLines L fp { s with recvCount := 0 } := readLineSendReq_eq h.fp
  simp only [receive, if_pos hcount, hline]
  rcases readLines L fp _ with f | ⟨s', out, _ | _⟩ <;> rfl

/-- Any other is counted, and if it comes from the node asked last the next id is looked at. -/
theorem reading_middle (h : Reading L m toks fp k s) (hmid : s.recvCount + 1 ≠ toks.length)
    (src : Addr) : ∃ k' s' out, receive L s src = .ok (.running s', out) ∧
      Reading L m toks fp k' s' ∧ s'.recvCount = s.recvCount + 1 ∧
      (getIdFromAddr m (L.inetNtop src) = s.sentId ∧ k' = s.nodeIndex ∧
          requests out = lastRequest L m s' ∨
        getIdFromAddr m (L.inetNtop src) ≠ s.sentId ∧ k' = k ∧ s'.sentId = s.sentId ∧
          out = []) := by
  have hcount : ¬ s.secClientCount = s.recvCount + 1 := fun heq => hmid (heq.symm.trans h.count)
  have hreceived : toks ≠ [] → s.recvCount + 1 < toks.length := by
    intro hne
    have := h.received hne
    omega
  obtain ⟨hle, hlen⟩ := h.index_le
  obtain rfl := h.map
  by_cases hknown : getIdFromAddr s.map (L.inetNtop src) = s.sentId
  · obtain ⟨s', hsend, hs'⟩ := sendReqSingleNode_lists (L := L)
      (s := { s with recvCount := s.recvCount + 1 }) h.lists (h.index_lt hmid)
    refine ⟨s.nodeIndex, s', _, ?_, ?_, by rw [hs'], .inl ⟨hknown, rfl, requests_lastRequest _ _⟩⟩
    · simp only [receive, hcount, if_false, hknown, if_true, hsend]
    · subst hs'
      exact ⟨rfl, h.fp, h.lists, h.size, h.fits, h.count, hreceived, rfl, rfl, hle, hlen⟩
  · refine ⟨k, { s with recvCount := s.recvCount + 1 }, [], ?_, ?_, rfl,
      .inr ⟨hknown, rfl, rfl, rfl⟩⟩
    · simp only [receive, hcount, if_false, Ne.symm hknown]
    · exact ⟨rfl, h.fp, h.lists, h.size, h.fits, h.count, hreceived, h.sent, h.index,
        Nat.le_succ_of_le h.le_received, h.le_length⟩

/-! ## Line by line -/

/-- `P` holds of the lines, up to one without ids: after that no other is read. -/
def EachReached (P : List (List Char) → Prop) (lines : List (List (List Char))) : Prop :=
  ∀ before toks after, lines = before ++ toks :: after → (∀ q ∈ before, q ≠ []) → P toks

section

variable {P : List (List Char) → Prop} {rest : List (List (List Char))}

theorem eachReached_nil : EachReached P [] := by
  intro before toks after h
  simp at h

theorem eachReached_cons :
    EachReached P (toks :: rest) ↔ P toks ∧ (toks ≠ [] → EachReached P rest) := by
  constructor
  · intro h
    refine ⟨h [] toks rest rfl nofun, fun hne before toks' after hrest hbefore => ?_⟩
    exact h (toks :: before) toks' after (by rw [hrest]; rfl)
      (List.forall_mem_cons.2 ⟨hne, hbefore⟩)
  · rintro ⟨hfirst, hrest⟩ before toks' after h hbefore
    cases before with
    | nil =>
      cases h
      exact hfirst
    | cons q before =>
      cases h
      obtain ⟨hq, hbefore⟩ := List.forall_mem_cons.1 hbefore
      exact hrest hq before toks' after rfl hbefore

end

/-- The tokens of `file` end with those of the lines left. -/
def LeftOf (L : Libc) (file : List (List Char)) (lines : List (List (List Char))) : Prop :=
  ∃ before, tokenLines L file = before ++ lines

theorem LeftOf.tail {file : List (List Char)} {rest : List (List (List Char))}
    (h : LeftOf L file (toks :: rest)) : LeftOf L file rest := by
  obtain ⟨before, hb⟩ := h
  exact ⟨before ++ [toks], by rw [hb, List.append_assoc]; rfl⟩

/-- `J` holds of the state and what was just sent while a line that satisfies `P` is worked
through. -/
structure LineInvariant (L : Libc) (m : NodeMap) (P : List (List Char) → Prop)
    (J : List (List Char) → Nat → State → List Request → Prop) : Prop where
  fits : ∀ {toks}, P toks → toks.length ≤ maxIds
  start : ∀ {toks fp s out}, P toks → Reading L m toks fp 0 s →
    requests out = lastRequest L m s → J toks 0 s out
  answered : ∀ {toks fp k s s' out out' src}, J toks k s out → Reading L m toks fp k s →
    getIdFromAddr m (L.inetNtop src) = s.sentId → Reading L m toks fp s.nodeIndex s' →
    requests out' = lastRequest L m s' → J toks s.nodeIndex s' out'
  counted : ∀ {toks k s s' out}, J toks k s out → s'.sentId = s.sentId → J toks k s' []

/-- On line `toks`, with `P` for all lines that may be reached from it. -/
def Inside (L : Libc) (m : NodeMap) (P : List (List Char) → Prop)
    (J : List (List Char) → Nat → State → List Request → Prop) (file : List (List Char)) :
    Except Fault (Process × List Request) → Prop
  | .error f => f.overruns = false
  | .ok (.exited _, out) => requests out = []
  | .ok (.running s, out) => ∃ toks fp k, Reading L m toks fp k s ∧
      LeftOf L file (toks :: tokenLines L fp) ∧
      (toks ≠ [] → EachReached P (tokenLines L fp)) ∧ J toks k s out

section

variable {P : List (List Char) → Prop} {J : List (List Char) → Nat → State → List Request → Prop}
  {Q : Process → List Request → Prop} {file : List (List Char)}

theorem inside_read (hJ : LineInvariant L m P J) {lines : List (List (List Char))}
    {r : Except Fault (State × List Request × Bool)} (hr : Read L m lines r)
    (hfile : LeftOf L file lines) (h : EachReached P lines) {before after : List Request}
    (hb : requests before = []) (ha : requests after = []) :
    Inside L m P J file (resumed before after r) := by
  cases hr with
  | broken => rfl
  | ended s =>
    show requests (before ++ ([] ++ after)) = []
    rw [requests_append, hb, List.nil_append, List.nil_append, ha]
  | overflow hlen => exact absurd (hJ.fits (eachReached_cons.1 h).1) (Nat.not_le.2 hlen)
  | @line toks fp s out hread _ hout =>
    obtain ⟨hp, hrest⟩ := eachReached_cons.1 h
    refine ⟨toks, fp, 0, hread, hfile, hrest, hJ.start hp hread ?_⟩
    rw [requests_append, hb, hout, List.nil_append]

theorem inside_step (hJ : LineInvariant L m P J) {p : Process} {out : List Request}
    (h : Inside L m P J file (.ok (p, out))) (e : Event) :
    Inside L m P J file (step L p e) := by
  cases p with
  | exited code => rfl
  | running s =>
    obtain ⟨toks, fp, k, hr, hleft, hrest, hj⟩ := h
    cases e with
    | recvFailed => rfl
    | datagram src =>
      rw [step]
      by_cases hlast : s.recvCount + 1 = toks.length
      · have hne : toks ≠ [] := List.ne_nil_of_length_pos (by omega)
        have hread : Read L m (tokenLines L fp) (readLines L fp { s with recvCount := 0 }) :=
          read_lines fp hr.map rfl
        rw [reading_last hr hlast]
        exact inside_read hJ hread hleft.tail (hrest hne)
          (requests_time secondTimeStop (by decide) _ _)
          (requests_time secondTimeDone (by decide) _ _)
      · obtain ⟨k', s', out', he, hr', -, ⟨hknown, rfl, hout⟩ | ⟨-, rfl, hsent, rfl⟩⟩ :=
          reading_middle hr hlast src
        · rw [he]
          exact ⟨toks, fp, _, hr', hleft, hrest, hJ.answered hj hr hknown hr' hout⟩
        · rw [he]
          exact ⟨toks, fp, _, hr', hleft, hrest, hJ.counted hj hsent⟩

theorem throughout_of_inside (hJ : LineInvariant L m P J)
    (hQ : ∀ r, Inside L m P J file r → Sound Q r) {r : Except Fault (Process × List Request)}
    (h : Inside L m P J file r) : Throughout L Q r := by
  refine always_of_invariant (I := Inside L m P J file) (fun a b ha hab => ?_) hQ h
  cases hab with
  | intro p out e => exact inside_step hJ ha e

/-- Datagrams enough complete a line that has an id. -/
theorem throughout_line {out : List Request} (h : Throughout L Q (.ok (.running s, out)))
    (hr : Reading L m toks fp k s) (hne : toks ≠ []) :
    ∃ s₁ before after, s₁.map = m ∧ s₁.recvCount = 0 ∧
      requests before = [] ∧ Throughout L Q (resumed before after (readLines L fp s₁)) := by
  induction hleft : toks.length - s.recvCount generalizing s k out with
  | zero =>
    have := hr.received hne
    omega
  | succ n ih =>
    have hnext := h.next (.intro (.running s) out (.datagram 0))
    rw [step] at hnext
    by_cases hlast : s.recvCount + 1 = toks.length
    · rw [reading_last hr hlast] at hnext
      exact ⟨{ s with recvCount := 0 }, _, _, hr.map, rfl,
        requests_time secondTimeStop (by decide) _ _, hnext⟩
    · obtain ⟨k', s', out', he, hr', hrecv, -⟩ := reading_middle hr hlast 0
      rw [he] at hnext
      exact ih hnext hr' (by omega)

/-- Every line that can be reached is reached. -/
theorem reached_of_throughout
    (hP : ∀ {toks fp s out}, Throughout L Q (.ok (.running s, out)) → Reading L m toks fp 0 s →
      LeftOf L file (toks :: tokenLines L fp) → s.recvCount = 0 →
      requests out = lastRequest L m s → P toks)
    (lines : List (List Char)) {s : State} (hmap : s.map = m) (hrecv : s.recvCount = 0)
    (hfile : LeftOf L file (tokenLines L lines)) {before after : List Request}
    (hb : requests before = [])
    (h : Throughout L Q (resumed before after (readLines L lines s))) :
    EachReached P (tokenLines L lines) := by
  induction hn : (tokenLines L lines).length generalizing lines s before after with
  | zero =>
    rw [List.length_eq_zero_iff.1 hn]
    exact eachReached_nil
  | succ n ih =>
    have hr := read_lines (L := L) lines hmap hrecv
    generalize tokenLines L lines = tl at hr hn hfile ⊢
    generalize readLines L lines s = r at hr h
    cases hr with
    | broken | ended _ => exact eachReached_nil
    | overflow hlen => exact absurd h.here (by simp [resumed, Sound, Fault.overruns])
    | @line toks fp s' out hread hzero hout =>
      refine eachReached_cons.2 ⟨hP h hread hfile hzero ?_, fun hne => ?_⟩
      · rw [requests_append, hb, hout, List.nil_append]
      · obtain ⟨s₁, b, a, hmap₁, hrecv₁, hb₁, h₁⟩ := throughout_line h hread hne
        exact ih fp hmap₁ hrecv₁ hfile.tail hb₁ h₁ (by simpa using hn)

end

theorem throughout_error {Q : Process → List Request → Prop} (f : Fault) :
    Throughout L Q (.error f) ↔ f.overruns = false :=
  always_of_stuck fun _ h => nomatch h

/-- From the two files on. A map file that does not load ends the program. -/
theorem throughout_main_iff (f : MapFile) (text : List Char)
    {Q : Process → List Request → Prop} {P : List (List Char) → Prop}
    {J : NodeMap → List (List Char) → Nat → State → List Request → Prop}
    (hJ : ∀ m, Holds L f.rows .empty m → LineInvariant L m P (J m))
    (hQ : ∀ m, Holds L f.rows .empty m → ∀ r,
      Inside L m P (J m) (fgetsAll lineSize text) r → Sound Q r)
    (hP : ∀ m, Holds L f.rows .empty m → ∀ {toks fp s out},
      Throughout L Q (.ok (.running s, out)) → Reading L m toks fp 0 s →
      LeftOf L (fgetsAll lineSize text) (toks :: tokenLines L fp) → s.recvCount = 0 →
      requests out = lastRequest L m s → P toks) :
    Throughout L Q (main L (some f.text) (some text)) ↔ Room f.rows maxNodes ∧
      ((∀ r ∈ f.rows, r.Whole) → EachReached P (tokenLines L (fgetsAll lineSize text))) := by
  have hloaded := loadMap_text (L := L) f
  rw [main]
  generalize loadMap L (fgetsAll lineSize f.text) .empty = r at hloaded ⊢
  cases hloaded with
  | table m hroom hwhole hm =>
    show Throughout L Q (begin L m (some text)) ↔ _
    rw [begin_resumed]
    constructor
    · intro h
      exact ⟨hroom, fun _ => reached_of_throughout (hP m hm) _ rfl rfl ⟨[], rfl⟩ rfl h⟩
    · rintro ⟨-, hreached⟩
      exact throughout_of_inside (hJ m hm) (hQ m hm)
        (inside_read (hJ m hm) (read_lines _ rfl rfl) ⟨[], rfl⟩ (hreached hwhole) rfl rfl)
  | broken hroom hwhole =>
    exact iff_of_true ((throughout_error _).2 rfl) ⟨hroom, fun h => absurd h hwhole⟩
  | overrun e hroom he =>
    refine iff_of_false (fun h => ?_) fun h => hroom h.1
    rw [throughout_error, he] at h
    cases h

end Verifier
end Swarna
