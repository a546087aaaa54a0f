import Swarna.VerifierSpec
import Mathlib.Data.List.DropRight

/-!
# Swarna.VerifierRounds

Whole runs of the verifier, as a log of the datagrams it sends and receives.

* `Progress`: while every datagram is the answer awaited, the log is that of the rounds one after
  the other, a request and its answer in turn.
* `stop_after_answers`: in such runs a stop ends a round whose nodes were all asked and have all
  answered. Any datagram is counted, so without the condition it may not (`stop_after_duplicate`).
-/

namespace Swarna
namespace Verifier

open CString

inductive Log where
  | sent (q : Request)
  | received (src : Addr)
  deriving DecidableEq, Repr

def Event.log : Event → List Log
  | .datagram src => [.received src]
  | .recvFailed => []

/-- What was sent before the receive loop, and what each event of a run led to. -/
def log (out₀ : List Request) (t : Trace Event Request) : List Log :=
  out₀.map .sent ++ t.flatMap fun x => x.1.log ++ x.2.map .sent

theorem log_snoc (out₀ : List Request) (t : Trace Event Request) (e : Event)
    (out : List Request) : log out₀ (t ++ [(e, out)]) = log out₀ t ++ (e.log ++ out.map .sent) := by
  simp [log]

def isStop : Log → Bool
  | .sent q => q.pktType == secondTimeStop
  | .received _ => false

def isRequest : Log → Bool
  | .sent q => q.pktType == secondRound
  | .received _ => false

/-- The answer to a request: a datagram from the address it went to. -/
def answer : Log → Log
  | .sent q => .received q.dst
  | .received src => .received src

/-- All nodes of a line were asked, and every request was answered. -/
structure Answered (L : Libc) (m : NodeMap) (ids : List (BitVec 8)) (l : List Log) : Prop where
  asked : ∀ e ∈ m.entries, e.id ∈ ids →
    ∃ q, .sent q ∈ l ∧ q.pktType = secondRound ∧ q.dst = destination L e.addr
  answered : Followed (fun x => isRequest x = true) answer l

/-- Whenever a stop was sent, the nodes of the next round in turn were asked since the last stop,
and every request was answered. -/
def StopsSound (L : Libc) (m : NodeMap) (rds : List Round) : List Log → Prop :=
  Whenever (fun x => isStop x = true) fun l => ∃ rd, rds[l.countP isStop]? = some rd ∧
    Answered L m rd.ids (l.rtakeWhile fun x => !isStop x)

/-- The datagram comes from the node asked last, and unless it is the last of the round, the
verifier recognises the address. -/
def Awaited (L : Libc) : Process → Event → Prop
  | .running s, .datagram src =>
    (∃ e ∈ s.map.entries, e.id = s.sentId ∧ src = destination L e.addr) ∧
      (s.recvCount + 1 = s.secClientCount ∨ getIdFromAddr s.map (L.inetNtop src) = s.sentId)
  | _, _ => True

/-! ## The log of answered rounds -/

section

variable (L : Libc) (m : NodeMap)

/-- Requests and answers in turn. -/
def asked (rd : Round) (ids : List (BitVec 8)) : List Log :=
  ids.flatMap fun id => [.sent (request L m rd id), .received (request L m rd id).dst]

def roundsLog (rds : List Round) : List Log :=
  rds.flatMap fun rd => asked L m rd rd.ids ++ [.sent (stop L rd)]

/-- The start, with the run number of the first round. -/
def startLog (rds : List Round) : List Log := rds.head?.toList.map fun rd => .sent (start L rd)

/-- The end, with the run number of the last round. -/
def doneLog (rds : List Round) : List Log := rds.getLast?.toList.map fun rd => .sent (done L rd)

end

variable {L : Libc} {m : NodeMap} {file : List (List Char)} {rds : List Round}

/-- How far a run has come. -/
inductive Progress (L : Libc) (m : NodeMap) (file : List (List Char)) (rds : List Round)
    (l : List Log) : Process → Prop where
  | asking {b rest : List Round} {rd : Round} {k : Nat} {s : State} :
      rds = b ++ rd :: rest → Asking L m file rd rest k s →
      l = startLog L rds ++ roundsLog L m b ++ asked L m rd (rd.ids.take k) ++
        [.sent (request L m rd s.sentId)] → Progress L m file rds l (.running s)
  | finished : l = startLog L rds ++ roundsLog L m rds ++ doneLog L rds →
      Progress L m file rds l (.exited 0)
  | failed {b rest : List Round} {rd : Round} {k : Nat} {id : BitVec 8} :
      rds = b ++ rd :: rest → rd.ids[k]? = some id →
      l = startLog L rds ++ roundsLog L m b ++ asked L m rd (rd.ids.take k) ++
        [.sent (request L m rd id)] → Progress L m file rds l (.exited 4)

theorem asked_snoc {rd : Round} {k : Nat} {id : BitVec 8} (h : rd.ids[k]? = some id) :
    asked L m rd (rd.ids.take (k + 1)) = asked L m rd (rd.ids.take k) ++
      [.sent (request L m rd id), .received (request L m rd id).dst] := by
  rw [asked, List.take_add_one, h, List.flatMap_append]
  rfl

theorem roundsLog_snoc (b : List Round) (rd : Round) :
    roundsLog L m (b ++ [rd]) =
      roundsLog L m b ++ (asked L m rd rd.ids ++ [.sent (stop L rd)]) := by
  simp [roundsLog]

theorem progress_begin (hm : m.Good) {text : List Char}
    (hv : ∀ rd ∈ rounds L (fgetsAll lineSize text) 0, rd.Valid m) {p : Process}
    {out : List Request} (h : begin L m (some text) = .ok (p, out)) :
    Progress L m (fgetsAll lineSize text) (rounds L (fgetsAll lineSize text) 0) (log out []) p := by
  have hread := readLines_cases (L := L) (s := init m (some (fgetsAll lineSize text))) hm
    (List.suffix_refl _) hv rfl rfl
  have hr : rounds L (fgetsAll lineSize text) (init m (some (fgetsAll lineSize text))).runNo =
      rounds L (fgetsAll lineSize text) 0 := rfl
  rw [hr] at hread
  rw [begin_text] at h
  rcases hread with ⟨f, -, he⟩ | ⟨hnil, s', he⟩ | ⟨rd, rest, s', hcons, hask, he⟩
  · rw [he] at h
    cases h
  · rw [he] at h
    cases h
    exact .finished (by rw [hnil]; rfl)
  · rw [he] at h
    cases h
    exact .asking (b := []) hcons hask (by rw [hcons]; rfl)

theorem progress_step (hm : m.Good) (hv : ∀ rd ∈ rds, rd.Valid m) {l : List Log}
    {p p' : Process} {e : Event} {out : List Request} (hp : Progress L m file rds l p)
    (hc : Awaited L p e) (h : step L p e = .ok (p', out)) :
    Progress L m file rds (l ++ (e.log ++ out.map .sent)) p' := by
  cases hp with
  | finished _ | failed _ _ _ => cases e <;> cases h
  | @asking b rest rd k s hrds hask hl =>
    cases e with
    | recvFailed =>
      cases h
      exact .failed hrds hask.sent (by simpa [Event.log] using hl)
    | datagram src =>
      obtain ⟨⟨e, he, hid, rfl⟩, hrec⟩ := hc
      have hdst : destination L e.addr = (request L m rd s.sentId).dst := by
        rw [← hid, request, getAddrFromId_eq L hm (hask.map ▸ he)]
        rfl
      have hl' : l ++ [.received (destination L e.addr)] = startLog L rds ++ roundsLog L m b ++
          asked L m rd (rd.ids.take (k + 1)) := by
        rw [hl, asked_snoc hask.sent, hdst]
        simp
      have hrd : rd ∈ rds := hrds ▸ List.mem_append_right _ (List.mem_cons_self ..)
      by_cases hk : k + 1 = rd.ids.length
      · have hrest : ∀ rd ∈ rest, rd.Valid m := fun rd' hrd' =>
          hv rd' (hrds ▸ List.mem_append_right _ (List.mem_cons_of_mem _ hrd'))
        have hround : l ++ [.received (destination L e.addr), .sent (stop L rd)] =
            startLog L rds ++ roundsLog L m (b ++ [rd]) := by
          rw [roundsLog_snoc, ← List.append_assoc, List.append_cons, ← List.append_assoc, hl', hk,
            List.take_length]
        rcases receive_last (destination L e.addr) hm hrest hask hk with
          ⟨f, -, he'⟩ | ⟨rfl, he'⟩ | ⟨rd', rest', s', rfl, hask', he'⟩
        · exact absurd (he'.symm.trans h) (by simp)
        · cases he'.symm.trans h
          have hlast : rds.getLast? = some rd := by simp [hrds]
          refine .finished ?_
          rw [← hrds] at hround
          rw [doneLog, hlast, ← hround]
          simp [Event.log]
        · cases he'.symm.trans h
          refine .asking (b := b ++ [rd]) (by simpa using hrds) hask' ?_
          rw [← hround]
          simp [Event.log, asked]
      · have hlt : k + 1 < rd.ids.length := Nat.lt_of_le_of_ne hask.lt hk
        have hknown : getIdFromAddr m (L.inetNtop (destination L e.addr)) = s.sentId := by
          rw [hask.received, hask.count, hask.map] at hrec
          exact hrec.resolve_left hk
        obtain ⟨s', he', -, hask'⟩ := receive_next (hv rd hrd).length_le hask
          (List.getElem?_eq_getElem hlt) ((hv rd hrd).id_ne_zero hm (List.getElem_mem hlt)) hknown
        cases he'.symm.trans h
        refine .asking hrds hask' ?_
        rw [← hl']
        simp [Event.log]

theorem run_progress (hm : m.Good) {text : List Char}
    (hv : ∀ rd ∈ rounds L (fgetsAll lineSize text) 0, rd.Valid m) {p₀ p : Process}
    {out₀ : List Request} {t : Trace Event Request} (h₀ : begin L m (some text) = .ok (p₀, out₀))
    (hr : (machine L).RunIf (fun _ => Awaited L) p₀ t p) :
    Progress L m (fgetsAll lineSize text) (rounds L (fgetsAll lineSize text) 0) (log out₀ t) p := by
  refine hr.invariant (P := fun t p => Progress L m _ _ (log out₀ t) p)
    (progress_begin hm hv h₀) ?_
  intro t p e p' out hp hc hs
  rw [log_snoc]
  exact progress_step hm hv hp hc hs

/-! ## Stops -/

theorem isStop_start {x : Log} (hx : x ∈ startLog L rds) : isStop x = false := by
  obtain ⟨rd, -, rfl⟩ := List.mem_map.1 hx
  rfl

theorem isRequest_start {x : Log} (hx : x ∈ startLog L rds) : isRequest x = false := by
  obtain ⟨rd, -, rfl⟩ := List.mem_map.1 hx
  rfl

theorem isStop_done {x : Log} (hx : x ∈ doneLog L rds) : isStop x = false := by
  obtain ⟨rd, -, rfl⟩ := List.mem_map.1 hx
  rfl

theorem isStop_asked {rd : Round} {ids : List (BitVec 8)} {x : Log}
    (hx : x ∈ asked L m rd ids) : isStop x = false := by
  obtain ⟨id, -, hx⟩ := List.mem_flatMap.1 hx
  rcases List.mem_cons.1 hx with rfl | hx
  · rfl
  · rw [List.mem_singleton.1 hx]
    rfl

theorem rtakeWhile_append {l l' : List Log} (h : ∀ x ∈ l', isStop x = false) :
    (l ++ l').rtakeWhile (fun x => !isStop x) = l.rtakeWhile (fun x => !isStop x) ++ l' := by
  have h' : ∀ x ∈ l'.reverse, (!isStop x) = true := fun x hx => by
    simp [h x (List.mem_reverse.1 hx)]
  rw [List.rtakeWhile, List.rtakeWhile, List.reverse_append, List.takeWhile_append_of_pos h',
    List.reverse_append, List.reverse_reverse]

theorem followed_asked (rd : Round) (ids : List (BitVec 8)) :
    Followed (fun x => isRequest x = true) answer (asked L m rd ids) := by
  induction ids with
  | nil => exact followed_of_none (by simp [asked])
  | cons id ids ih =>
    refine Followed.append (l := [.sent (request L m rd id), .received (request L m rd id).dst])
      ?_ ih
    intro pre x post h hx
    cases pre with
    | nil =>
      cases h
      exact List.mem_singleton_self _
    | cons y pre =>
      -- only the first of the two is a request
      cases pre with
      | nil =>
        cases h
        cases hx
      | cons z pre => simp at h

/-- After all requests of a round, with their answers. -/
theorem answered_round (hm : m.Good) (rd : Round) {l : List Log}
    (hl : Followed (fun x => isRequest x = true) answer l) :
    Answered L m rd.ids (l ++ asked L m rd rd.ids) := by
  refine ⟨fun e he hid => ⟨request L m rd e.id, ?_, rfl, ?_⟩, hl.append (followed_asked rd _)⟩
  · refine List.mem_append_right _ (List.mem_flatMap.2 ⟨e.id, hid, List.mem_cons_self ..⟩)
  · rw [request, getAddrFromId_eq L hm he]
    rfl

theorem stopsSound_rounds (hm : m.Good) {b rest : List Round} (hrds : rds = b ++ rest) :
    StopsSound L m rds (startLog L rds ++ roundsLog L m b) ∧
      (startLog L rds ++ roundsLog L m b).countP isStop = b.length ∧
      Followed (fun x => isRequest x = true) answer
        ((startLog L rds ++ roundsLog L m b).rtakeWhile fun x => !isStop x) := by
  induction b using List.reverseRecOn generalizing rest with
  | nil =>
    have hno : ∀ x ∈ startLog L rds, ¬ isStop x = true := fun x hx => by simp [isStop_start hx]
    rw [roundsLog, List.flatMap_nil, List.append_nil]
    refine ⟨whenever_nil.append (l := []) hno, List.countP_eq_zero.2 hno, followed_of_none ?_⟩
    intro x hx
    have := (List.rtakeWhile_suffix _ _).subset hx
    simp [isRequest_start this]
  | append_singleton b rd ih =>
    have hrds' : rds = b ++ rd :: rest := by simpa using hrds
    obtain ⟨hs, hcount, hf⟩ := ih hrds'
    have hno : ∀ x ∈ asked L m rd rd.ids, ¬ isStop x = true := fun x hx => by
      simp [isStop_asked hx]
    have hcount' : (startLog L rds ++ roundsLog L m b ++ asked L m rd rd.ids).countP isStop =
        b.length := by
      rw [List.countP_append, hcount, List.countP_eq_zero.2 hno, Nat.add_zero]
    rw [roundsLog_snoc, ← List.append_assoc, ← List.append_assoc]
    refine ⟨(hs.append hno).snoc fun _ => ⟨rd, ?_, ?_⟩, ?_, ?_⟩
    · rw [hcount', hrds]
      simp
    · rw [rtakeWhile_append fun x hx => isStop_asked hx]
      exact answered_round hm rd hf
    · rw [List.countP_append, hcount']
      simp [isStop, stop, secondUdpSend]
    · rw [List.rtakeWhile_concat_neg _ _ _ (by simp [isStop, stop, secondUdpSend])]
      exact followed_of_none (by simp)

theorem Progress.stopsSound (hm : m.Good) {l : List Log} {p : Process}
    (h : Progress L m file rds l p) : StopsSound L m rds l := by
  have hreq : ∀ (rd : Round) (id : BitVec 8), ∀ x ∈ [Log.sent (request L m rd id)],
      ¬ isStop x = true := by
    intro rd id x hx
    rw [List.mem_singleton.1 hx]
    simp [isStop, request, secondUdpSend, secondRound, secondTimeStop]
  have hasked : ∀ (rd : Round) (ids : List (BitVec 8)), ∀ x ∈ asked L m rd ids,
      ¬ isStop x = true := fun rd ids x hx => by simp [isStop_asked hx]
  cases h with
  | asking hrds _ hl | failed hrds _ hl =>
    rw [hl]
    exact ((stopsSound_rounds hm hrds).1.append (hasked _ _)).append (hreq _ _)
  | finished hl =>
    rw [hl]
    exact (stopsSound_rounds hm (List.append_nil rds).symm).1.append fun x hx => by
      simp [isStop_done hx]

theorem stop_after_answers (hm : m.Good) {text : List Char}
    (hv : ∀ rd ∈ rounds L (fgetsAll lineSize text) 0, rd.Valid m) {p₀ p : Process}
    {out₀ : List Request} {t : Trace Event Request} (h₀ : begin L m (some text) = .ok (p₀, out₀))
    (hr : (machine L).RunIf (fun _ => Awaited L) p₀ t p) :
    StopsSound L m (rounds L (fgetsAll lineSize text) 0) (log out₀ t) :=
  (run_progress hm hv h₀ hr).stopsSound hm

/-! ## Two nodes on a line -/

/-- The addresses of the border router and of nodes 2 and 3. -/
def hosts : List (List Char × Addr) :=
  [("fd00::a469".toList, 0xfd00000000000000000000000000a469),
    ("fd00::1062".toList, 0xfd000000000000000000000000001062),
    ("fd00::a578".toList, 0xfd00000000000000000000000000a578)]

/-- A platform that knows these addresses. -/
def hostLibc (longMax : Nat) : Libc where
  longMax := longMax
  inetPton a := (hosts.find? fun h => h.1 = a).map Prod.snd
  inetNtop x := ((hosts.find? fun h => h.2 = x).map Prod.fst).getD []
  heap := []

def hostMap : NodeMap :=
  ⟨[⟨2, "fd00::1062\n".toList, by decide⟩, ⟨3, "fd00::a578\n".toList, by decide⟩], by decide⟩

theorem hostMap_good : hostMap.Good := ⟨by decide, by decide⟩

def pairText : List Char := "2, 3\n".toList

theorem pair_rounds : rounds (hostLibc intMax) (fgetsAll lineSize pairText) 0 = [⟨0, [2, 3]⟩] := by
  decide

theorem pair_valid : ∀ rd ∈ rounds (hostLibc intMax) (fgetsAll lineSize pairText) 0,
    rd.Valid hostMap := by
  intro rd hrd
  rw [pair_rounds, List.mem_singleton] at hrd
  rw [hrd]
  exact ⟨by simp, by decide, by decide⟩

/-- Node 2 was asked. -/
def pairState : State :=
  { init hostMap (some []) with
    localRpkt := ⟨secondRound, 2, (ReqPkt.zero.nodeAddr.set 0 2 maxIds_pos).set 1 3⟩
    nodeIndex := 1, sentId := 2, secClientCount := 2, startSent := true }

theorem pair_begin : begin (hostLibc intMax) hostMap (some pairText) =
    .ok (.running pairState, [start (hostLibc intMax) ⟨0, [2, 3]⟩,
      request (hostLibc intMax) hostMap ⟨0, [2, 3]⟩ 2]) := rfl

/-- Each node answers in turn. -/
theorem stop_after_answers_pair : ∃ p₀ out₀ t,
    begin (hostLibc intMax) hostMap (some pairText) = .ok (p₀, out₀) ∧
      (machine (hostLibc intMax)).RunIf (fun _ => Awaited (hostLibc intMax)) p₀ t (.exited 0) ∧
      StopsSound (hostLibc intMax) hostMap
        (rounds (hostLibc intMax) (fgetsAll lineSize pairText) 0) (log out₀ t) := by
  have hr : (machine (hostLibc intMax)).RunIf (fun _ => Awaited (hostLibc intMax))
      (.running pairState) [(.datagram 0xfd000000000000000000000000001062, _),
        (.datagram 0xfd00000000000000000000000000a578, _)] (.exited 0) :=
    .next (t := [_]) (.next (t := []) .start
      (And.intro (by decide) (by decide)) rfl) (And.intro (by decide) (by decide)) rfl
  exact ⟨_, _, _, pair_begin, hr, stop_after_answers hostMap_good pair_valid pair_begin hr⟩

/-- Node 2 answers twice, and the second answer passes for that of node 3. -/
theorem stop_after_duplicate : hostMap.Good ∧
    (∀ rd ∈ rounds (hostLibc intMax) (fgetsAll lineSize pairText) 0, rd.Valid hostMap) ∧
    ∃ p₀ out₀ t, begin (hostLibc intMax) hostMap (some pairText) = .ok (p₀, out₀) ∧
      (machine (hostLibc intMax)).Run p₀ t (.exited 0) ∧
      ¬ StopsSound (hostLibc intMax) hostMap
        (rounds (hostLibc intMax) (fgetsAll lineSize pairText) 0) (log out₀ t) := by
  have hr : (machine (hostLibc intMax)).Run (.running pairState)
      [(.datagram 0xfd000000000000000000000000001062,
          [request (hostLibc intMax) hostMap ⟨0, [2, 3]⟩ 3]),
        (.datagram 0xfd000000000000000000000000001062,
          [stop (hostLibc intMax) ⟨0, [2, 3]⟩, done (hostLibc intMax) ⟨0, [2, 3]⟩])] (.exited 0) :=
    .next (t := [_]) (.next (t := []) .start trivial rfl) trivial rfl
  refine ⟨hostMap_good, pair_valid, _, _, _, pair_begin, hr, fun h => ?_⟩
  obtain ⟨rd, -, hrd⟩ := h [_, _, _, _, _] _ _ rfl rfl
  have hlost := hrd.answered [_, _, _] _ [_] rfl rfl
  exact absurd hlost (by decide)

end Verifier
end Swarna
