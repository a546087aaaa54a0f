import Swarna.BorderRouter
import Swarna.Pipe
import Swarna.VerifierTrace

/-!
# Swarna.RunTimes

The verifier and the border router together. The start and the stops the verifier sends go through
a channel that keeps their order, and the border router handles requests of others in between.

* `readings_startStops`: a stopwatch pressed by a start and a stop for each line.
* `expected_startStops`: this is what the verifier sends to the border router, but for the end.
* `run_times_exact`: the border router reports one run time for each line of node ids, the time
  from the stop before it, or from the start.
-/

namespace Swarna
namespace RunTimes

open CString (intMax)
open Verifier (Libc NodeMap RequestFile nodeLines expected Answers receivedIn requestedIn)
open BorderRouter (ReqPkt press reports)

/-! ## The system -/

section

variable (L : Libc)

/-- A request as the border router reads it, if it goes there. -/
def toRouter (q : Verifier.Request) : Option ReqPkt :=
  if q.dst = Verifier.destination L Verifier.servAddr then some ⟨q.pktType, q.runCount⟩ else none

def pipe (v w : Nat) : Pipe Verifier.Process Verifier.Event Verifier.Request Verifier.Fault
    (BorderRouter.State w) (BorderRouter.Event w) (BorderRouter.Output v) Empty ReqPkt
      (BitVec w) where
  sender := Verifier.machine L
  receiver := BorderRouter.machine v w
  packet := toRouter L
  take := .request

end

variable {v w : Nat}

/-- Requests of others, and responses. -/
def Foreign : BorderRouter.Event w → Prop
  | .request rpkt _ => rpkt.reqType ≠ BorderRouter.secondTimeStart ∧
      rpkt.reqType ≠ BorderRouter.secondTimeStop
  | .response _ _ => True

def isTimed (rpkt : ReqPkt) : Bool :=
  rpkt.reqType == BorderRouter.secondTimeStart || rpkt.reqType == BorderRouter.secondTimeStop

/-- The starts and stops among the requests handled. -/
def timed (taken : List (ReqPkt × BitVec w)) : List (ReqPkt × BitVec w) :=
  taken.filter fun x => isTimed x.1

def stopOf (x : Nat × List Nat) : ReqPkt :=
  ⟨BorderRouter.secondTimeStop, BitVec.ofNat 8 x.1⟩

/-- A start with the run number of the first line, and a stop for each line. -/
def startStops (lines : List (Nat × List Nat)) : List ReqPkt :=
  lines.head?.toList.map (fun x => ⟨BorderRouter.secondTimeStart, BitVec.ofNat 8 x.1⟩) ++
    lines.map stopOf

/-- The run number of each line, and the time from the clock value before it to its own. -/
def runTimes (lines : List (Nat × List Nat)) (clocks : List (BitVec w)) :
    List (BitVec 8 × BitVec w) :=
  (lines.map fun x => BitVec.ofNat 8 x.1).zip (laps clocks)

/-! ## The stopwatch -/

def presses (taken : List (ReqPkt × BitVec w)) : List (Press (BitVec 8) (BitVec w)) :=
  taken.filterMap fun x => press (.request x.1 x.2)

theorem press_of_not_timed {rpkt : ReqPkt} (h : isTimed rpkt = false) (c : BitVec w) :
    press (.request rpkt c) = none := by
  simp only [isTimed, Bool.or_eq_false_iff, beq_eq_false_iff_ne] at h
  rw [press, if_neg h.1, if_neg h.2]

theorem press_foreign {e : BorderRouter.Event w} (h : Foreign e) : press e = none := by
  cases e with
  | request rpkt c => rw [press, if_neg h.1, if_neg h.2]
  | response _ _ => rfl

theorem presses_timed (taken : List (ReqPkt × BitVec w)) :
    presses (timed taken) = presses taken := by
  rw [presses, timed, List.filterMap_filter, presses]
  congr 1
  funext x
  cases h : isTimed x.1 with
  | true => rfl
  | false => exact (press_of_not_timed h x.2).symm

/-- After a press at time `c`, stops for the lines. -/
theorem readings_stops {lines : List (Nat × List Nat)} {taken : List (ReqPkt × BitVec w)}
    (h : taken.map Prod.fst <+: lines.map stopOf) (c : BitVec w) :
    readings c (presses taken) = runTimes lines (c :: taken.map Prod.snd) := by
  induction taken generalizing lines c with
  | nil => simp [presses, readings, runTimes, laps]
  | cons y taken ih =>
    obtain ⟨rpkt, c'⟩ := y
    cases lines with
    | nil => exact absurd (List.prefix_nil.1 h) (List.cons_ne_nil _ _)
    | cons x lines =>
      obtain ⟨hx, htail⟩ := List.cons_prefix_cons.1 h
      simp only at hx
      subst hx
      exact congrArg ((BitVec.ofNat 8 x.1, c' - c) :: ·) (ih htail c')

theorem readings_startStops {lines : List (Nat × List Nat)} {taken : List (ReqPkt × BitVec w)}
    (h : taken.map Prod.fst <+: startStops lines) (c : BitVec w) :
    readings c (presses taken) = runTimes lines (taken.map Prod.snd) := by
  cases taken with
  | nil => simp [presses, readings, runTimes, laps]
  | cons y taken =>
    obtain ⟨rpkt, c'⟩ := y
    cases lines with
    | nil => exact absurd (List.prefix_nil.1 h) (List.cons_ne_nil _ _)
    | cons x lines =>
      obtain ⟨hx, htail⟩ := List.cons_prefix_cons.1 h
      simp only at hx
      subst hx
      exact readings_stops htail c'

theorem length_startStops (lines : List (Nat × List Nat)) :
    (startStops lines).length - 1 = lines.length := by
  cases lines with
  | nil => rfl
  | cons x lines => simp [startStops]

/-- No time is left out. -/
theorem map_snd_runTimes {lines : List (Nat × List Nat)} {clocks : List (BitVec w)}
    (h : clocks.length ≤ (startStops lines).length) :
    (runTimes lines clocks).map Prod.snd = laps clocks := by
  have hlen : (laps clocks).length ≤ lines.length := by
    have := length_startStops lines
    rw [length_laps]
    omega
  exact List.map_snd_zip (by rwa [List.length_map])

theorem map_fst_runTimes {lines : List (Nat × List Nat)} {clocks : List (BitVec w)}
    (h : clocks.length = (startStops lines).length) :
    (runTimes lines clocks).map Prod.fst = lines.map fun x => BitVec.ofNat 8 x.1 := by
  have hlen : lines.length ≤ (laps clocks).length := by
    rw [length_laps, h, length_startStops]
  exact List.map_fst_zip (by rwa [List.length_map])

theorem setWidth_sum {k : Nat} (hk : k ≤ w) (cs : List (BitVec w)) :
    (cs.map (BitVec.setWidth k)).sum = cs.sum.setWidth k := by
  induction cs with
  | nil => simp
  | cons c cs ih => rw [List.map_cons, List.sum_cons, List.sum_cons, ih, BitVec.setWidth_add _ _ hk]

/-! ## What the verifier sends -/

section

variable {L : Libc} {m : NodeMap}

/-- A request of the verifier, if the border router takes it for a start or a stop. -/
def timedRequest (L : Libc) (q : Verifier.Request) : Option ReqPkt :=
  (toRouter L q).filter isTimed

theorem timedRequest_node (runCount : BitVec 8) (a : Addr) :
    timedRequest L ⟨secondRound, runCount, a⟩ = none := by
  rw [timedRequest, toRouter]
  split <;> rfl

theorem timedRequest_start (x : Nat × List Nat) :
    timedRequest L ⟨Verifier.secondTimeStart, BitVec.ofNat 8 x.1,
      Verifier.destination L Verifier.servAddr⟩ =
        some ⟨BorderRouter.secondTimeStart, BitVec.ofNat 8 x.1⟩ := by
  rw [timedRequest, toRouter, if_pos rfl]
  rfl

theorem timedRequest_stop (x : Nat × List Nat) :
    timedRequest L ⟨Verifier.secondTimeStop, BitVec.ofNat 8 x.1,
      Verifier.destination L Verifier.servAddr⟩ = some (stopOf x) := by
  rw [timedRequest, toRouter, if_pos rfl]
  rfl

theorem timedRequest_done (x : Nat × List Nat) :
    timedRequest L ⟨Verifier.secondTimeDone, BitVec.ofNat 8 x.1,
      Verifier.destination L Verifier.servAddr⟩ = none := by
  rw [timedRequest, toRouter, if_pos rfl]
  rfl

theorem filterMap_start (o : Option (Nat × List Nat)) :
    (o.toList.map fun x => Verifier.Request.mk Verifier.secondTimeStart (BitVec.ofNat 8 x.1)
      (Verifier.destination L Verifier.servAddr)).filterMap (timedRequest L) =
        o.toList.map fun x => ReqPkt.mk BorderRouter.secondTimeStart (BitVec.ofNat 8 x.1) := by
  cases o with
  | none => rfl
  | some x => simp [timedRequest_start]

theorem filterMap_done (o : Option (Nat × List Nat)) :
    (o.toList.map fun x => Verifier.Request.mk Verifier.secondTimeDone (BitVec.ofNat 8 x.1)
      (Verifier.destination L Verifier.servAddr)).filterMap (timedRequest L) = [] := by
  cases o with
  | none => rfl
  | some x => simp [timedRequest_done]

theorem filterMap_line (x : Nat × List Nat) :
    ((x.2.map fun id => Verifier.Request.mk secondRound (BitVec.ofNat 8 x.1)
      (Verifier.addressOf L m id)) ++ [Verifier.Request.mk Verifier.secondTimeStop
        (BitVec.ofNat 8 x.1) (Verifier.destination L Verifier.servAddr)]).filterMap
          (timedRequest L) = [stopOf x] := by
  have hnodes : (x.2.map fun id => Verifier.Request.mk secondRound (BitVec.ofNat 8 x.1)
      (Verifier.addressOf L m id)).filterMap (timedRequest L) = [] := by
    rw [List.filterMap_map, List.filterMap_eq_nil_iff]
    intro id _
    exact timedRequest_node _ _
  rw [List.filterMap_append, hnodes, List.filterMap_cons, timedRequest_stop]
  rfl

theorem expected_startStops (lines : List (Nat × List Nat)) :
    ((expected L m lines).filterMap (toRouter L)).filter isTimed = startStops lines := by
  rw [List.filter_filterMap, expected, List.filterMap_append, List.filterMap_append]
  change List.filterMap (timedRequest L) _ ++ List.filterMap (timedRequest L) _ ++
    List.filterMap (timedRequest L) _ = _
  rw [filterMap_start, filterMap_done, List.append_nil, startStops]
  congr 1
  induction lines with
  | nil => rfl
  | cons x lines ih =>
    rw [List.flatMap_cons, List.filterMap_append, filterMap_line, ih]
    rfl

/-! ## The run times -/

section

variable {j : Pipe.Joint Verifier.Process Verifier.Event Verifier.Request
    (BorderRouter.State w) (BorderRouter.Event w) (BorderRouter.Output v) ReqPkt (BitVec w)}
  {p₀ : Verifier.Process} {out₀ : List Verifier.Request} {r₀ : BorderRouter.State w}
  {lines : List (Nat × List Nat)}

theorem timed_prefix (hj : (pipe L v w).Run (Answers out₀) Foreign p₀ out₀ r₀ j)
    (h : out₀ ++ j.sent.outputs <+: expected L m lines) :
    (timed j.taken).map Prod.fst <+: startStops lines := by
  have horder : j.taken.map Prod.fst <+: (out₀ ++ j.sent.outputs).filterMap (toRouter L) :=
    ⟨j.channel, hj.in_order⟩
  have hall := (horder.trans (h.filterMap (toRouter L))).filter isTimed
  rwa [expected_startStops, List.filter_map] at hall

theorem reports_runTimes (hj : (pipe L v w).Run (Answers out₀) Foreign p₀ out₀ r₀ j)
    (h : (timed j.taken).map Prod.fst <+: startStops lines) :
    reports j.received.outputs = (runTimes lines ((timed j.taken).map Prod.snd)).map
      fun x => (x.1, x.2.setWidth v) := by
  have hseen : (j.received.map Prod.fst).filterMap press = presses j.taken :=
    hj.seen press fun _ he => press_foreign he
  rw [(BorderRouter.reports_eq hj.receiver).1, hseen, ← presses_timed, readings_startStops h]

end

theorem sum_runTimes {lines : List (Nat × List Nat)} {c : BitVec w} {cs : List (BitVec w)}
    (h : (c :: cs).length ≤ (startStops lines).length) :
    (((runTimes lines (c :: cs)).map fun x => (x.1, x.2.setWidth v)).map
      fun x => x.2.setWidth (min v w)).sum = (cs.getLastD c - c).setWidth (min v w) := by
  have hmap : ((runTimes lines (c :: cs)).map fun x => (x.1, x.2.setWidth v)).map
      (fun x => x.2.setWidth (min v w)) =
        ((runTimes lines (c :: cs)).map Prod.snd).map (BitVec.setWidth (min v w)) := by
    rw [List.map_map, List.map_map]
    congr 1
    funext x
    exact BitVec.setWidth_setWidth_of_le x.2 (Nat.min_le_left v w)
  rw [hmap, map_snd_runTimes h, setWidth_sum (Nat.min_le_right v w), sum_laps]

theorem run_times_exact (hlong : intMax ≤ L.longMax) (hm : m.Good) (hcan : m.Canonical L)
    (f : RequestFile) (hf : f.Lists m) (r₀ : BorderRouter.State w) :
    ∃ p₀ out₀, Verifier.begin L m (some f.text) = .ok (p₀, out₀) ∧
      ∀ j, (pipe L v w).Run (Answers out₀) Foreign p₀ out₀ r₀ j →
        (∀ e, Answers out₀ j.sent j.sender e → ∃ r, Verifier.step L j.sender e = .ok r) ∧
        (timed j.taken).map Prod.fst <+: startStops (nodeLines f.all 0) ∧
        reports j.received.outputs =
          (runTimes (nodeLines f.all 0) ((timed j.taken).map Prod.snd)).map
            (fun x => (x.1, x.2.setWidth v)) ∧
        (∀ c cs, (timed j.taken).map Prod.snd = c :: cs →
          ((reports j.received.outputs).map fun x => x.2.setWidth (min v w)).sum =
            (cs.getLastD c - c).setWidth (min v w)) ∧
        ((receivedIn (Verifier.log out₀ j.sent)).Perm (requestedIn (Verifier.log out₀ j.sent)) →
          j.channel = [] →
            (timed j.taken).map Prod.fst = startStops (nodeLines f.all 0) ∧
            (reports j.received.outputs).map Prod.fst =
              (nodeLines f.all 0).map fun x => BitVec.ofNat 8 x.1) := by
  obtain ⟨p₀, out₀, h₀⟩ := Verifier.begin_lists hlong hm hf
  refine ⟨p₀, out₀, h₀, fun j hj => ?_⟩
  obtain ⟨haccepts, hprefix, hfinished⟩ := Verifier.run_expected hlong hm hcan hf h₀ hj.sender
  have htimed := timed_prefix hj hprefix
  have hreports := reports_runTimes hj htimed
  refine ⟨haccepts, htimed, hreports, fun c cs hcs => ?_, fun hperm hch => ?_⟩
  · have hlen := htimed.length_le
    rw [List.length_map, ← List.length_map Prod.snd, hcs] at hlen
    rw [hreports, hcs, sum_runTimes hlen]
  · have hall : (timed j.taken).map Prod.fst = startStops (nodeLines f.all 0) := by
      have horder := hj.in_order
      rw [hch, List.append_nil, (hfinished hperm).2] at horder
      have hfilter := congrArg (List.filter isTimed) horder
      rwa [show (pipe L v w).packet = toRouter L from rfl, expected_startStops,
        List.filter_map] at hfilter
    refine ⟨hall, ?_⟩
    have hlen := congrArg List.length hall
    rw [List.length_map, ← List.length_map Prod.snd] at hlen
    rw [hreports, List.map_map]
    exact map_fst_runTimes hlen

end

/-! ## Two files -/

/-- A border router with its variables at 0. -/
def router : BorderRouter.State 32 := ⟨0, 0, 0, 0, 0⟩

/-- The clock goes from 100 to 7 while the two nodes of the first line are asked, and from 7 to 60
while the node of the second is; in between someone asks for the topology. -/
theorem run_times_exact_lines : ∃ p₀ out₀ j,
    Verifier.begin (Verifier.hostLibc intMax) Verifier.hostMap (some Verifier.linesFile.text) =
      .ok (p₀, out₀) ∧
    (pipe (Verifier.hostLibc intMax) 32 32).Run (Answers out₀) Foreign p₀ out₀ router j ∧
      reports j.received.outputs = [(1, 7 - 100), (2, 60 - 7)] := by
  obtain ⟨p₀, out₀, h₀, hrun⟩ := run_times_exact (v := 32) (Nat.le_refl _) Verifier.hostMap_good
    (Verifier.hostMap_canonical intMax) Verifier.linesFile Verifier.linesFile_for.lists router
  cases Verifier.lines_begin.symm.trans h₀
  have hforeign : Foreign (w := 32) (.request ⟨topology, 0⟩ 105) :=
    And.intro (by decide) (by decide)
  have hfirst : (pipe (Verifier.hostLibc intMax) 32 32).Run (Answers Verifier.linesSent) Foreign
      (.running Verifier.linesAsked) Verifier.linesSent router _ :=
    .send (e := .datagram 0xfd000000000000000000000000001062)
      (.take (i := 100) .start rfl rfl) (by exact List.Subperm.refl _) rfl
  have hline : (pipe (Verifier.hostLibc intMax) 32 32).Run (Answers Verifier.linesSent) Foreign
      (.running Verifier.linesAsked) Verifier.linesSent router _ :=
    .send (e := .datagram 0xfd00000000000000000000000000a578)
      (.other hfirst hforeign rfl) (by exact List.Subperm.refl _) rfl
  have hsecond : (pipe (Verifier.hostLibc intMax) 32 32).Run (Answers Verifier.linesSent) Foreign
      (.running Verifier.linesAsked) Verifier.linesSent router _ :=
    .send (e := .datagram 0xfd00000000000000000000000000a578)
      (.take (i := (7 : BitVec 32)) hline rfl rfl) (by exact List.Subperm.refl _) rfl
  have hr := Pipe.Run.take (i := (60 : BitVec 32)) hsecond rfl rfl
  exact ⟨_, _, _, Verifier.lines_begin, hr, (hrun _ hr).2.2.1.trans (by decide)⟩

/-- Node 2 of `lateFile` was asked, in run 2 ^ 63, which is read as -1. -/
def lateAsked : Verifier.State :=
  { Verifier.init Verifier.hostMap (some []) with
    runNo := -1
    localRpkt := ⟨secondRound, 1, Verifier.ReqPkt.zero.nodeAddr.set 0 2 Verifier.maxIds_pos⟩
    nodeIndex := 1, sentId := 2, secClientCount := 1, startSent := true }

def lateSent : List Verifier.Request :=
  [Verifier.start (Verifier.hostLibc (2 ^ 63 - 1)) ⟨-1, [2]⟩,
    Verifier.request (Verifier.hostLibc (2 ^ 63 - 1)) Verifier.hostMap ⟨-1, [2]⟩ 2]

/-- A run number that is no `int` is not reported modulo 256. -/
theorem late_run_count :
    Verifier.hostMap.Good ∧ Verifier.hostMap.Canonical (Verifier.hostLibc (2 ^ 63 - 1)) ∧
      nodeLines Verifier.lateFile.all 0 = [(9223372036854775808, [2])] ∧ ∃ p₀ out₀ j,
        Verifier.begin (Verifier.hostLibc (2 ^ 63 - 1)) Verifier.hostMap
            (some Verifier.lateFile.text) = .ok (p₀, out₀) ∧
          (pipe (Verifier.hostLibc (2 ^ 63 - 1)) 32 32).Run (Answers out₀) Foreign p₀ out₀ router
            j ∧
          (timed j.taken).map Prod.snd = [0, 5] ∧
          runTimes (nodeLines Verifier.lateFile.all 0) [(0 : BitVec 32), 5] = [(0, 5)] ∧
          reports j.received.outputs = [(255, 5)] := by
  refine ⟨Verifier.hostMap_good, Verifier.hostMap_canonical _, by decide, ?_⟩
  have hbegin : Verifier.begin (Verifier.hostLibc (2 ^ 63 - 1)) Verifier.hostMap
      (some Verifier.lateFile.text) = .ok (.running lateAsked, lateSent) := rfl
  have hanswered : (pipe (Verifier.hostLibc (2 ^ 63 - 1)) 32 32).Run (Answers lateSent) Foreign
      (.running lateAsked) lateSent router _ :=
    .send (e := .datagram 0xfd000000000000000000000000001062)
      (.take (i := 0) .start rfl rfl) (by exact List.Subperm.refl _) rfl
  have hr := Pipe.Run.take (i := (5 : BitVec 32)) hanswered rfl rfl
  exact ⟨_, _, _, hbegin, hr, rfl, by decide, rfl⟩

end RunTimes
end Swarna
