import Mathlib.Algebra.BigOperators.Group.List.Basic
import Mathlib.Data.BitVec
import Swarna.Machine
import Swarna.Utility

/-!
# Swarna.BorderRouter

The border router (`border-router.c`): the requests of the verifier and others, and the responses
of its children. It measures run times with one variable, `ct`, which the start sets and every
stop reads and sets again.

* `readings`: what a stopwatch shows that is read without being reset; `readings_sum`.
* `reports_eq`: the border router is such a stopwatch, whatever else it handles.
* `answers_eq`: it logs the responses as they come, and counts those of an attestation.

`clock_time_t` has `w` bits and `unsigned int`, to which values are converted for the log, has
`v`. `cnt` is taken not to overflow.
-/

namespace Swarna

/-! ## A stopwatch -/

section Stopwatch

variable {α G : Type}

/-- A stopwatch is started at a time, or read at a time with a label. -/
inductive Press (α G : Type) where
  | start (c : G)
  | stop (a : α) (c : G)
  deriving DecidableEq, Repr

namespace Press

def time : Press α G → G
  | start c => c
  | stop _ c => c

end Press

/-- The time of the last press. -/
def lastPress (c : G) (ps : List (Press α G)) : G := (ps.map Press.time).getLastD c

/-- Each stop reads the time since the press before it. -/
def readings [Sub G] : (c : G) → List (Press α G) → List (α × G)
  | _, [] => []
  | _, .start c' :: ps => readings c' ps
  | c, .stop a c' :: ps => (a, c' - c) :: readings c' ps

/-- The time from each to the next. -/
def laps [Sub G] (cs : List G) : List G := List.zipWith (fun c c' => c' - c) cs cs.tail

theorem lastPress_cons (c : G) (p : Press α G) (ps : List (Press α G)) :
    lastPress c (p :: ps) = lastPress p.time ps := by
  rw [lastPress, List.map_cons, List.getLastD_cons]
  rfl

theorem lastPress_snoc (c : G) (ps : List (Press α G)) (p : Press α G) :
    lastPress c (ps ++ [p]) = p.time := by
  simp [lastPress]

theorem readings_snoc [Sub G] (c : G) (ps : List (Press α G)) (p : Press α G) :
    readings c (ps ++ [p]) = readings c ps ++ readings (lastPress c ps) [p] := by
  induction ps generalizing c with
  | nil => rfl
  | cons q ps ih =>
    rw [lastPress_cons]
    cases q with
    | start c' => exact ih c'
    | stop a c' => exact congrArg ((a, c' - c) :: ·) (ih c')

theorem laps_cons_cons [Sub G] (c c' : G) (cs : List G) :
    laps (c :: c' :: cs) = (c' - c) :: laps (c' :: cs) := rfl

theorem length_laps [Sub G] (cs : List G) : (laps cs).length = cs.length - 1 := by
  rw [laps, List.length_zipWith, List.length_tail]
  omega

/-- Times from one to the next add up. -/
theorem sum_laps [AddCommGroup G] (c : G) (cs : List G) :
    (laps (c :: cs)).sum = cs.getLastD c - c := by
  induction cs generalizing c with
  | nil => simp [laps]
  | cons c' cs ih =>
    rw [laps_cons_cons, List.sum_cons, ih c', List.getLastD_cons, sub_add_sub_cancel']

end Stopwatch

/-! ## The program -/

namespace BorderRouter

def secondTimeStart : BitVec 8 := 60
def secondTimeStop : BitVec 8 := 70
def secondTimeDone : BitVec 8 := 45

/-- `req_pkt`. -/
structure ReqPkt where
  reqType : BitVec 8
  runCount : BitVec 8
  deriving DecidableEq, Repr

structure State (w : Nat) where
  ct : BitVec w
  ct1 : BitVec w
  timeDiff : BitVec w
  ct2 : BitVec w
  cnt : Nat
  deriving DecidableEq, Repr

/-- What is logged and sent. -/
inductive Output (v : Nat) where
  | receivedRequest (reqType : BitVec 8)
  | multicast (pkt : RequestPacket)
  | secondTimeStart (ct2 : BitVec v)
  | secondTimeStop (runCount : BitVec 8) (diff first second : BitVec v)
  /-- With the address of `clock_time`, not its value. -/
  | secondTimeDone
  | notSupported
  | aggPath (path : List NodeId)
  | receivedChecksum (checksum : BitVec v) (id : NodeId)
  | received (cnt : Nat)
  deriving DecidableEq, Repr

inductive Event (w : Nat) where
  /-- A request, and what `clock_time` returns while it is handled. -/
  | request (rpkt : ReqPkt) (clockTime : BitVec w)
  | response (sender : Addr) (resp : ResponsePkt)
  deriving DecidableEq, Repr

section

variable (v : Nat) {w : Nat}

def multicastSend (token : BitVec 8) : Output v := .multicast ⟨token, 1234⟩

def tcpipHandler (s : State w) (rpkt : ReqPkt) (clockTime : BitVec w) :
    State w × List (Output v) :=
  let s := { s with cnt := 0 }
  let log := Output.receivedRequest rpkt.reqType
  if rpkt.reqType = topology ∨ rpkt.reqType = attestation then
    (s, [log, multicastSend v rpkt.reqType])
  else if rpkt.reqType = secondTimeStart then
    ({ s with ct := clockTime, ct2 := clockTime }, [log, .secondTimeStart (clockTime.setWidth v)])
  else if rpkt.reqType = secondTimeStop then
    let diff := clockTime - s.ct
    ({ s with ct1 := clockTime, timeDiff := diff, ct := clockTime },
      [log, .secondTimeStop rpkt.runCount (diff.setWidth v) (s.ct.setWidth v)
        (clockTime.setWidth v)])
  else if rpkt.reqType = secondTimeDone then (s, [log, .secondTimeDone])
  else (s, [log, .notSupported])

def udpChecksumCallback (s : State w) (sender : Addr) : ResponsePkt → State w × List (Output v)
  | .topology t =>
    (s, [.aggPath t.ids, .receivedChecksum (t.checksum.setWidth v) (getIdFromAddr sender)])
  | .attestation checksum =>
    let s := { s with cnt := s.cnt + 1 }
    (s, [.receivedChecksum (checksum.setWidth v) (getIdFromAddr sender), .received s.cnt])
  | .other _ => (s, [])

def step (s : State w) : Event w → Except Empty (State w × List (Output v))
  | .request rpkt clockTime => .ok (tcpipHandler v s rpkt clockTime)
  | .response sender resp => .ok (udpChecksumCallback v s sender resp)

def machine (w : Nat) : Machine (State w) (Event w) (Output v) Empty := ⟨step v⟩

end

/-! ## Run times -/

variable {v w : Nat}

/-- The run times reported. -/
def reports (out : List (Output v)) : List (BitVec 8 × BitVec v) :=
  out.filterMap fun
    | .secondTimeStop runCount diff _ _ => some (runCount, diff)
    | _ => none

/-- The press of the stopwatch an event amounts to. -/
def press : Event w → Option (Press (BitVec 8) (BitVec w))
  | .request rpkt clockTime =>
    if rpkt.reqType = secondTimeStart then some (.start clockTime)
    else if rpkt.reqType = secondTimeStop then some (.stop rpkt.runCount clockTime)
    else none
  | .response _ _ => none

theorem reports_append (out out' : List (Output v)) :
    reports (out ++ out') = reports out ++ reports out' := List.filterMap_append

/-- One event, as a press or none. -/
theorem step_press {s s' : State w} {e : Event w} {out : List (Output v)}
    (h : step v s e = .ok (s', out)) :
    reports out = (readings s.ct (press e).toList).map (fun x => (x.1, x.2.setWidth v)) ∧
      s'.ct = lastPress s.ct (press e).toList := by
  cases e with
  | response sender resp =>
    cases resp <;> cases h <;> exact ⟨rfl, rfl⟩
  | request rpkt clockTime =>
    obtain ⟨reqType, runCount⟩ := rpkt
    simp only [step, tcpipHandler] at h
    split at h
    · rename_i hmulticast
      cases h
      rcases hmulticast with hq | hq <;> subst hq <;> exact ⟨rfl, rfl⟩
    · split at h
      · rename_i hq
        cases h
        subst hq
        exact ⟨rfl, rfl⟩
      · rename_i hstart
        split at h
        · rename_i hq
          cases h
          subst hq
          exact ⟨rfl, rfl⟩
        · rename_i hstop
          have hnone : press (.request ⟨reqType, runCount⟩ clockTime) = none := by
            rw [press, if_neg hstart, if_neg hstop]
          rw [hnone]
          split at h <;> cases h <;> exact ⟨rfl, rfl⟩

/-- Along every run the border router reports what a stopwatch shows. -/
theorem reports_eq {s s' : State w} {t : Trace (Event w) (Output v)}
    (h : (machine v w).Run s t s') :
    reports t.outputs = (readings s.ct ((t.map Prod.fst).filterMap press)).map
        (fun x => (x.1, x.2.setWidth v)) ∧
      s'.ct = lastPress s.ct ((t.map Prod.fst).filterMap press) := by
  refine h.invariant (P := fun t s' => reports t.outputs =
    (readings s.ct ((t.map Prod.fst).filterMap press)).map (fun x => (x.1, x.2.setWidth v)) ∧
      s'.ct = lastPress s.ct ((t.map Prod.fst).filterMap press)) ⟨rfl, rfl⟩ ?_
  rintro t s₁ e s₂ out ⟨hreports, hct⟩ - hs
  obtain ⟨hreports', hct'⟩ := step_press hs
  rw [Trace.outputs_snoc, reports_append, hreports, hreports', hct', hct]
  simp only [List.map_append, List.filterMap_append, List.map_singleton, List.filterMap_cons,
    List.filterMap_nil]
  cases hp : press e with
  | none =>
    simp [readings, lastPress]
  | some p =>
    simp only [Option.toList_some]
    rw [readings_snoc, List.map_append, lastPress_snoc]
    exact ⟨rfl, by simp [lastPress]⟩

/-! ## Responses -/

/-- What is logged of responses, the count apart. -/
def isAnswer : Output v → Bool
  | .aggPath _ => true
  | .receivedChecksum _ _ => true
  | _ => false

def response? : Event w → Option (Addr × ResponsePkt)
  | .request _ _ => none
  | .response sender resp => some (sender, resp)

/-- What a response puts into the log, the count apart. -/
def answerLog (v : Nat) : Event w → List (Output v)
  | .request _ _ => []
  | .response sender (.topology t) =>
    [.aggPath t.ids, .receivedChecksum (t.checksum.setWidth v) (getIdFromAddr sender)]
  | .response sender (.attestation checksum) =>
    [.receivedChecksum (checksum.setWidth v) (getIdFromAddr sender)]
  | .response _ (.other _) => []

/-- The requests to the multicast group. -/
def multicast? : Output v → Option RequestPacket
  | .multicast pkt => some pkt
  | _ => none

/-- How an event changes `cnt`. -/
def tally (cnt : Nat) : Event w → Nat
  | .request _ _ => 0
  | .response _ (.attestation _) => cnt + 1
  | .response _ _ => cnt

def received? : Output v → Option Nat
  | .received cnt => some cnt
  | _ => none

/-- The counts logged, from `cnt` on. -/
def counts : Nat → List (Event w) → List Nat
  | _, [] => []
  | cnt, .response _ (.attestation _) :: es => (cnt + 1) :: counts (cnt + 1) es
  | cnt, e :: es => counts (tally cnt e) es

/-- The requests an event makes the border router multicast. -/
def relayed : Event w → List RequestPacket
  | .request rpkt _ =>
    if rpkt.reqType = topology ∨ rpkt.reqType = attestation then [⟨rpkt.reqType, 1234⟩] else []
  | .response _ _ => []

/-- What an event does, apart from the stopwatch. -/
theorem step_answer {s s' : State w} {e : Event w} {out : List (Output v)}
    (h : step v s e = .ok (s', out)) :
    out.filter isAnswer = answerLog v e ∧ out.filterMap multicast? = relayed e ∧
      out.filterMap received? = counts s.cnt [e] ∧ s'.cnt = tally s.cnt e := by
  cases e with
  | response sender resp => cases resp <;> cases h <;> exact ⟨rfl, rfl, rfl, rfl⟩
  | request rpkt clockTime =>
    simp only [step, tcpipHandler] at h
    split at h
    · rename_i hmulticast
      cases h
      exact ⟨rfl, (if_pos hmulticast).symm, rfl, rfl⟩
    · rename_i hmulticast
      have hnone : relayed (.request rpkt clockTime) = [] := if_neg hmulticast
      rw [hnone]
      split at h
      · cases h
        exact ⟨rfl, rfl, rfl, rfl⟩
      · split at h
        · cases h
          exact ⟨rfl, rfl, rfl, rfl⟩
        · split at h <;> cases h <;> exact ⟨rfl, rfl, rfl, rfl⟩

theorem counts_append (cnt : Nat) (es es' : List (Event w)) :
    counts cnt (es ++ es') = counts cnt es ++ counts (es.foldl tally cnt) es' := by
  induction es generalizing cnt with
  | nil => rfl
  | cons e es ih =>
    cases e with
    | request rpkt clockTime => exact ih _
    | response sender resp =>
      cases resp with
      | attestation checksum => exact congrArg ((cnt + 1) :: ·) (ih _)
      | topology t | other pktType => exact ih _

/-- Along every run the responses are logged as they came, and counted since the last request. -/
theorem answers_eq {s s' : State w} {t : Trace (Event w) (Output v)}
    (h : (machine v w).Run s t s') :
    t.outputs.filter isAnswer = (t.map Prod.fst).flatMap (answerLog v) ∧
      t.outputs.filterMap multicast? = (t.map Prod.fst).flatMap relayed ∧
      t.outputs.filterMap received? = counts s.cnt (t.map Prod.fst) ∧
      s'.cnt = (t.map Prod.fst).foldl tally s.cnt := by
  refine h.invariant (P := fun t s' =>
    t.outputs.filter isAnswer = (t.map Prod.fst).flatMap (answerLog v) ∧
      t.outputs.filterMap multicast? = (t.map Prod.fst).flatMap relayed ∧
      t.outputs.filterMap received? = counts s.cnt (t.map Prod.fst) ∧
      s'.cnt = (t.map Prod.fst).foldl tally s.cnt) ⟨rfl, rfl, rfl, rfl⟩ ?_
  rintro t s₁ e s₂ out ⟨hlog, hrelayed, hcounts, hcnt⟩ - hs
  obtain ⟨hlog', hrelayed', hcounts', hcnt'⟩ := step_answer hs
  rw [hcnt] at hcounts' hcnt'
  rw [Trace.outputs_snoc, List.filter_append, List.filterMap_append, List.filterMap_append, hlog,
    hlog', hrelayed, hrelayed', hcounts, hcounts', hcnt', List.map_append, counts_append]
  simp

/-- Requests log no answers. -/
theorem answerLog_responses (es : List (Event w)) : es.flatMap (answerLog v) =
    (es.filterMap response?).flatMap fun x => answerLog v (w := w) (.response x.1 x.2) := by
  induction es with
  | nil => rfl
  | cons e es ih =>
    cases e with
    | request rpkt clockTime => exact ih
    | response sender resp =>
      exact congrArg (answerLog v (w := w) (.response sender resp) ++ ·) ih

/-- After requests, attestation responses are counted from 1 on. -/
theorem counts_round (cnt : Nat) {pre post : List (Event w)} (hne : pre ≠ [])
    (hpre : ∀ e ∈ pre, response? e = none)
    (hpost : ∀ e ∈ post, ∃ sender checksum, response? e = some (sender, .attestation checksum)) :
    counts cnt (pre ++ post) = List.range' 1 post.length ∧
      (pre ++ post).foldl tally cnt = post.length := by
  have hreset : ∀ cnt, counts cnt pre = [] ∧ pre.foldl tally cnt = 0 := by
    clear hpost
    induction pre with
    | nil => exact absurd rfl hne
    | cons e pre ih =>
      obtain ⟨he, hrest⟩ := List.forall_mem_cons.1 hpre
      intro cnt
      cases e with
      | response sender resp => cases he
      | request rpkt clockTime =>
        cases pre with
        | nil => exact ⟨rfl, rfl⟩
        | cons e' pre => exact ih (List.cons_ne_nil _ _) hrest 0
  have hcount : ∀ cnt, counts cnt post = List.range' (cnt + 1) post.length ∧
      post.foldl tally cnt = cnt + post.length := by
    clear hreset
    induction post with
    | nil => exact fun _ => ⟨rfl, rfl⟩
    | cons e post ih =>
      obtain ⟨⟨sender, checksum, he⟩, hrest⟩ := List.forall_mem_cons.1 hpost
      intro cnt
      obtain ⟨hcounts, hcnt⟩ := ih hrest (cnt + 1)
      cases e with
      | request rpkt clockTime => cases he
      | response sender' resp =>
        cases he
        refine ⟨congrArg ((cnt + 1) :: ·) hcounts, ?_⟩
        rw [List.foldl_cons, List.length_cons, ← Nat.add_assoc, Nat.add_right_comm]
        exact hcnt
  rw [counts_append, List.foldl_append, (hreset cnt).1, (hreset cnt).2, (hcount 0).1,
    (hcount 0).2, List.nil_append]
  exact ⟨rfl, Nat.zero_add _⟩

end BorderRouter
end Swarna
