import Swarna.RelaySpec

/-!
# Swarna.RelayHistory

Runs of a relay and what its buffers owe to the past.

* `StepOutcome` says everything one event can do; `step_outcome` shows that the handlers do one of
  these things or run past `checksum_children`.
* `pending t` lists the checksums taken in since the last response in the trace `t`. `Good` is the
  invariant of all runs: the bounds hold, and `checksum_children[0..cur_loc)` is exactly
  `pending t` (`run_good`).
-/

namespace Swarna
namespace Relay

inductive Phase where
  | topology
  | attestation
  deriving DecidableEq, Repr

/-- A checksum taken in: the kind of packet, the id of its sender, the checksum. -/
structure Taken where
  phase : Phase
  sender : NodeId
  checksum : Checksum
  deriving DecidableEq, Repr

/-- The response an event hands to the response handlers, with the id of its sender. A relay
without children reads what arrives on the checksum port as a request. -/
def heard (children : List NodeId) : Event → Option (NodeId × ResponsePkt)
  | .tcpip src pkt => if children = [] then none else some (getIdFromAddr src, pkt)
  | .broadcast src pkt => some (getIdFromAddr src, pkt)
  | .mcast _ => none
  | .secReq _ => none
  | .periodicExpiry => none
  | .pExpiry => none

/-- The checksum an event stores. Only topology packets are filtered by sender. -/
def taken (children : List NodeId) (e : Event) : Option Taken :=
  match heard children e with
  | some (cid, .topology t) => if cid ∈ children then some ⟨.topology, cid, t.checksum⟩ else none
  | some (cid, .attestation c) => some ⟨.attestation, cid, c⟩
  | some (_, .other _) => none
  | none => none

/-- The actions of `send_topology_resp` and `send_attestation_resp`, the two functions that end a
round with `reset_variable`. -/
def Action.isResponse : Action → Bool
  | .sendToParents _ isClient _ => !isClient
  | .storeBroadcast _ => true
  | .broadcastToParents _ => false
  | .sendSecResp _ => false

def responded (out : List Action) : Bool := out.any Action.isResponse

abbrev History := Trace Event Action

/-- What was taken in since the last response. -/
def pending (children : List NodeId) (t : History) : List Taken :=
  (t.sinceLast responded).filterMap fun x => taken children x.1

@[simp] theorem pending_nil (children : List NodeId) : pending children [] = [] := rfl

theorem pending_snoc (children : List NodeId) (t : History) (e : Event) (out : List Action) :
    pending children (t ++ [(e, out)]) =
      if responded out then [] else pending children t ++ (taken children e).toList := by
  simp only [pending, Trace.sinceLast_snoc]
  split
  · rfl
  · simp [List.filterMap_append, List.filterMap_cons]
    cases taken children e <;> rfl

/-- `s` after an attestation packet from `cid`: stored in any case, the timer only for a child. -/
def attested (s : State) (cid : NodeId) (a : Vector Checksum maxChild) : State :=
  { s with
    checksumChildren := a
    curLoc := s.curLoc + 1
    periodicTimer :=
      if s.childList.isChild cid && s.firstChild then s.periodicTimer.set .sendAttestationResp
      else s.periodicTimer
    firstChild := s.firstChild && !s.childList.isChild cid }

theorem processAttestationReq_eq {s : State} (c : Checksum) (cid : NodeId)
    (h : s.curLoc < maxChild) :
    ∃ a, processAttestationReq s c cid = .ok (attested s cid a) ∧
      (attested s cid a).checksums = s.checksums ++ [c] := by
  obtain ⟨a, ha, htake⟩ := storeChecksum_eq (c := c) h
  refine ⟨a, ?_, htake⟩
  simp only [processAttestationReq, ha]
  cases hc : s.childList.isChild cid <;> cases hf : s.firstChild <;> simp [attested, hc, hf]

def Event.isTimer : Event → Bool
  | .periodicExpiry => true
  | .pExpiry => true
  | _ => false

/-- What one event can do. -/
inductive StepOutcome (nd : Node) (s : State) : Event → State → List Action → Prop where
  /-- Nothing to do: a stranger's topology packet, another packet type, a request not heard. -/
  | ignored {e : Event} : e.isTimer = false → taken s.childList.ids e = none →
      StepOutcome nd s e s []
  /-- A request, or what a relay without children takes for one. -/
  | request {e : Event} (mpkt : RequestPacket) : e.isTimer = false → isLeaf s = true →
      taken s.childList.ids e = none →
      StepOutcome nd s e (mcastTcpipHandler nd s mpkt).1 (mcastTcpipHandler nd s mpkt).2
  | topology {e : Event} {cid : NodeId} {t : TopologyInfo} {new : List NodeId} {s' : State}
      {out : List TopologyInfo} :
      heard s.childList.ids e = some (cid, .topology t) → cid ∈ s.childList.ids →
      s.curLoc < maxChild → TopologyOutcome nd s t cid new s' out →
      StepOutcome nd s e s' (out.map fun o => sendToParents nd (.topology o) false)
  | attestation {e : Event} {cid : NodeId} {c : Checksum} {a : Vector Checksum maxChild} :
      heard s.childList.ids e = some (cid, .attestation c) → s.curLoc < maxChild →
      (attested s cid a).checksums = s.checksums ++ [c] →
      StepOutcome nd s e (attested s cid a) []
  | secReq (secreq : RequestPacket) :
      StepOutcome nd s (.secReq secreq) s (udpSecreqCallback s secreq)
  /-- The periodic timer was not armed, or had no callback. -/
  | periodicIdle : s.periodicTimer.expire.1 = none →
      StepOutcome nd s .periodicExpiry { s with periodicTimer := s.periodicTimer.expire.2 } []
  | periodicTopology : s.periodicTimer.expire.1 = some .sendTopologyResp →
      StepOutcome nd s .periodicExpiry
        (resetVariable
          { s with
            periodicTimer := s.periodicTimer.expire.2
            myChecksum := ownChecksum nd.id })
        [sendToParents nd (.topology (topologyResp nd s)) false]
  | periodicAttestation : s.periodicTimer.expire.1 = some .sendAttestationResp →
      xorAll s.checksums ^^^ ownChecksum nd.id ≠ 0 →
      StepOutcome nd s .periodicExpiry
        (resetVariable
          { s with
            periodicTimer := s.periodicTimer.expire.2
            myChecksum := ownChecksum nd.id
            ctimerResp := .attestation (xorAll s.checksums ^^^ ownChecksum nd.id)
            pTimer := s.pTimer.set .broadcastToParents })
        [.storeBroadcast (.attestation (xorAll s.checksums ^^^ ownChecksum nd.id))]
  | periodicZero : s.periodicTimer.expire.1 = some .sendAttestationResp →
      xorAll s.checksums ^^^ ownChecksum nd.id = 0 →
      StepOutcome nd s .periodicExpiry
        { s with periodicTimer := s.periodicTimer.expire.2, myChecksum := ownChecksum nd.id } []
  | pIdle : s.pTimer.expire.1 = none →
      StepOutcome nd s .pExpiry { s with pTimer := s.pTimer.expire.2 } []
  | pBroadcast : s.pTimer.expire.1 = some .broadcastToParents →
      StepOutcome nd s .pExpiry { s with pTimer := s.pTimer.expire.2 }
        [.broadcastToParents s.ctimerResp]

theorem isLeaf_iff {s : State} : isLeaf s = true ↔ s.childList.ids = [] := by
  simp [isLeaf, ChildList.getChildCount_eq, ChildList.ids]

/-- The response handlers on a response that reached them. -/
theorem receive_outcome (nd : Node) (after : TopologyInfo → TopologyInfo → TopologyInfo)
    {s : State} {src : Addr} {pkt : ResponsePkt} {e : Event} (hb : Bounded s)
    (he : e.isTimer = false)
    (hh : heard s.childList.ids e = some (getIdFromAddr src, pkt)) :
    (receive nd after s src pkt = .error .checksumOverflow ∧
        (taken s.childList.ids e).isSome ∧ s.curLoc = maxChild) ∨
      ∃ s' out, receive nd after s src pkt = .ok (s', out) ∧ StepOutcome nd s e s' out := by
  have hle := hb.curLoc_le
  cases pkt with
  | topology t =>
    by_cases hc : s.childList.isChild (getIdFromAddr src) = true
    · have hmem := ChildList.isChild_iff.1 hc
      by_cases hcur : s.curLoc < maxChild
      · right
        obtain ⟨s', out, h, ho⟩ := processTopologyReq_cases nd after t hb hc hcur
        exact ⟨s', _, by simp [receive, h], .topology hh hmem hcur ho⟩
      · left
        exact ⟨by simp [receive, processTopologyReq_overflow hc hcur], by simp [taken, hh, hmem],
          by omega⟩
    · right
      have hc' : s.childList.isChild (getIdFromAddr src) = false := by simpa using hc
      have hmem : getIdFromAddr src ∉ s.childList.ids := fun h => hc (ChildList.isChild_iff.2 h)
      exact ⟨s, [], by simp [receive, processTopologyReq_stranger hc'],
        .ignored he (by simp [taken, hh, hmem])⟩
  | attestation c =>
    by_cases hcur : s.curLoc < maxChild
    · right
      obtain ⟨a, ha, hcs⟩ := processAttestationReq_eq c (getIdFromAddr src) hcur
      exact ⟨_, [], by simp [receive, ha], .attestation hh hcur hcs⟩
    · left
      exact ⟨by simp [receive, processAttestationReq, storeChecksum_overflow hcur],
        by simp [taken, hh], by omega⟩
  | other ty =>
    right
    exact ⟨s, [], by simp [receive], .ignored he (by simp [taken, hh])⟩

theorem step_periodicIdle (nd : Node) (b : Buffers) {s : State}
    (h : s.periodicTimer.expire.1 = none) : step nd b s .periodicExpiry =
      .ok ({ s with periodicTimer := s.periodicTimer.expire.2 }, []) := by
  simp [step, periodicExpiry, h]

theorem step_pIdle (nd : Node) (b : Buffers) {s : State} (h : s.pTimer.expire.1 = none) :
    step nd b s .pExpiry = .ok ({ s with pTimer := s.pTimer.expire.2 }, []) := by
  simp [step, pExpiry, h]

theorem step_pBroadcast (nd : Node) (b : Buffers) {s : State}
    (h : s.pTimer.expire.1 = some .broadcastToParents) : step nd b s .pExpiry =
      .ok ({ s with pTimer := s.pTimer.expire.2 }, [.broadcastToParents s.ctimerResp]) := by
  simp [step, pExpiry, h]

theorem step_periodicTopology {nd : Node} {b : Buffers} {s : State} (hb : Bounded s)
    (hx : s.periodicTimer.expire.1 = some .sendTopologyResp) :
    step nd b s .periodicExpiry =
      .ok (resetVariable
          { s with
            periodicTimer := s.periodicTimer.expire.2
            myChecksum := ownChecksum nd.id },
        [sendToParents nd (.topology (topologyResp nd s)) false]) := by
  have hsend := sendTopologyResp_eq nd
    (s := { s with periodicTimer := s.periodicTimer.expire.2 }) hb.curLoc_le
    (by have := hb.pathsLoc_le; simp; omega)
  simp only [step, periodicExpiry, hx, hsend]
  rfl

theorem step_periodicAttestation {nd : Node} {b : Buffers} {s : State} (hcur : s.curLoc ≤ maxChild)
    (hx : s.periodicTimer.expire.1 = some .sendAttestationResp)
    (hne : xorAll s.checksums ^^^ ownChecksum nd.id ≠ 0) :
    step nd b s .periodicExpiry =
      .ok (resetVariable
          { s with
            periodicTimer := s.periodicTimer.expire.2
            myChecksum := ownChecksum nd.id
            ctimerResp := .attestation (xorAll s.checksums ^^^ ownChecksum nd.id)
            pTimer := s.pTimer.set .broadcastToParents },
        [.storeBroadcast (.attestation (xorAll s.checksums ^^^ ownChecksum nd.id))]) := by
  simp only [step, periodicExpiry, hx]
  exact sendAttestationResp_eq hcur hne

/-- A combined checksum of 0: the timer has expired, and nothing else has changed. -/
theorem step_periodicZero {nd : Node} {b : Buffers} {s : State} (hcur : s.curLoc ≤ maxChild)
    (hx : s.periodicTimer.expire.1 = some .sendAttestationResp)
    (hz : xorAll s.checksums ^^^ ownChecksum nd.id = 0) :
    step nd b s .periodicExpiry =
      .ok ({ s with
        periodicTimer := s.periodicTimer.expire.2
        myChecksum := ownChecksum nd.id }, []) := by
  simp only [step, periodicExpiry, hx]
  exact sendAttestationResp_zero hcur hz

/-- One event either does what `StepOutcome` says, or stores past the array. -/
theorem step_outcome (nd : Node) (b : Buffers) {s : State} (e : Event) (hb : Bounded s) :
    (step nd b s e = .error .checksumOverflow ∧ (taken s.childList.ids e).isSome ∧
        s.curLoc = maxChild) ∨
      ∃ s' out, step nd b s e = .ok (s', out) ∧ StepOutcome nd s e s' out := by
  cases e with
  | tcpip src pkt =>
    by_cases hl : isLeaf s = true
    · right
      have hh : taken s.childList.ids (.tcpip src pkt) = none := by
        simp [taken, heard, isLeaf_iff.1 hl]
      exact ⟨_, _, by simp only [step, hl, if_true], .request (asRequest pkt) rfl hl hh⟩
    · have hne : s.childList.ids ≠ [] := fun h => hl (isLeaf_iff.2 h)
      have hh : heard s.childList.ids (.tcpip src pkt) = some (getIdFromAddr src, pkt) := by
        simp [heard, hne]
      rcases receive_outcome nd b.uipAppdata hb rfl hh with ⟨h, ht⟩ | ⟨s', out, h, ho⟩
      · exact .inl ⟨by simp [step, hl, h], ht⟩
      · exact .inr ⟨s', out, by simp [step, hl, h], ho⟩
  | broadcast src pkt =>
    exact receive_outcome nd b.databuffer hb rfl rfl
  | mcast mpkt =>
    right
    by_cases hl : isLeaf s = true
    · exact ⟨_, _, by simp only [step, hl, if_true], .request mpkt rfl hl rfl⟩
    · exact ⟨s, [], by simp [step, hl], .ignored rfl rfl⟩
  | secReq secreq => exact .inr ⟨_, _, rfl, .secReq secreq⟩
  | periodicExpiry =>
    right
    cases hx : s.periodicTimer.expire.1 with
    | none => exact ⟨_, [], step_periodicIdle nd b hx, .periodicIdle hx⟩
    | some f =>
      cases f with
      | sendTopologyResp => exact ⟨_, _, step_periodicTopology hb hx, .periodicTopology hx⟩
      | sendAttestationResp =>
        by_cases hz : xorAll s.checksums ^^^ ownChecksum nd.id = 0
        · exact ⟨_, _, step_periodicZero hb.curLoc_le hx hz, .periodicZero hx hz⟩
        · exact ⟨_, _, step_periodicAttestation hb.curLoc_le hx hz, .periodicAttestation hx hz⟩
  | pExpiry =>
    right
    cases hx : s.pTimer.expire.1 with
    | none => exact ⟨_, [], step_pIdle nd b hx, .pIdle hx⟩
    | some f =>
      cases f
      exact ⟨_, _, step_pBroadcast nd b hx, .pBroadcast hx⟩

/-- What the packet pointer of the handler of an event reads after a send. -/
def Event.after (b : Buffers) : Event → TopologyInfo → TopologyInfo → TopologyInfo
  | .tcpip _ _ => b.uipAppdata
  | .broadcast _ _ => b.databuffer
  | _ => fun received _ => received

/-- A topology packet goes to `process_topology_req`, on whichever port it arrives. -/
theorem step_topology (nd : Node) (b : Buffers) {s : State} {e : Event} {cid : NodeId}
    {t : TopologyInfo} (hh : heard s.childList.ids e = some (cid, .topology t)) :
    step nd b s e = (processTopologyReq nd (e.after b) s t cid).map fun r =>
      (r.1, r.2.map fun o => sendToParents nd (.topology o) false) := by
  cases e with
  | tcpip src pkt =>
    have hne : s.childList.ids ≠ [] := fun he => by simp [heard, he] at hh
    have hl : ¬ isLeaf s = true := fun hl => hne (isLeaf_iff.1 hl)
    simp only [heard, hne, if_false, Option.some.injEq, Prod.mk.injEq] at hh
    obtain ⟨rfl, rfl⟩ := hh
    simp only [step, hl, receive, Event.after]
    cases processTopologyReq nd b.uipAppdata s t (getIdFromAddr src) <;> rfl
  | broadcast src pkt =>
    simp only [heard, Option.some.injEq, Prod.mk.injEq] at hh
    obtain ⟨rfl, rfl⟩ := hh
    simp only [step, receive, Event.after]
    cases processTopologyReq nd b.databuffer s t (getIdFromAddr src) <;> rfl
  | mcast | secReq | periodicExpiry | pExpiry => cases hh

theorem step_topology_ok {nd : Node} {b : Buffers} {s s' : State} {e : Event} {cid : NodeId}
    {t : TopologyInfo} {out : List Action}
    (hh : heard s.childList.ids e = some (cid, .topology t))
    (h : step nd b s e = .ok (s', out)) :
    ∃ sent, processTopologyReq nd (e.after b) s t cid = .ok (s', sent) ∧
      out = sent.map fun o => sendToParents nd (.topology o) false := by
  rw [step_topology nd b hh] at h
  cases hreq : processTopologyReq nd (e.after b) s t cid with
  | error f =>
    rw [hreq] at h
    cases h
  | ok r =>
    rw [hreq] at h
    cases h
    exact ⟨r.2, rfl, rfl⟩

/-! ## The invariant of all runs -/

structure Good (children : List NodeId) (t : History) (s : State) : Prop where
  children_eq : s.childList.ids = children
  bounded : Bounded s
  checksums : s.checksums = (pending children t).map Taken.checksum

theorem Good.curLoc {children : List NodeId} {t : History} {s : State} (h : Good children t s) :
    s.curLoc = (pending children t).length := by
  rw [← h.bounded.checksums_length, h.checksums, List.length_map]

theorem good_init (c : ChildList) : Good c.ids [] (init c) :=
  ⟨rfl, ⟨by simp [init], by simp [init]⟩, by simp [init, State.checksums]⟩

theorem responded_topology (nd : Node) (out : List TopologyInfo) :
    responded (out.map fun o => sendToParents nd (.topology o) false) = !out.isEmpty := by
  cases out <;> simp [responded, sendToParents, Action.isResponse]

theorem mcastTcpipHandler_responded (nd : Node) (s : State) (mpkt : RequestPacket) :
    responded (mcastTcpipHandler nd s mpkt).2 = false := by
  simp only [mcastTcpipHandler]
  split
  · rfl
  · split
    · rfl
    · split <;> rfl

/-- Only a second-round request is answered there, and only with a second-round response. -/
theorem mem_udpSecreqCallback {s : State} {secreq : RequestPacket} {a : Action}
    (h : a ∈ udpSecreqCallback s secreq) :
    secreq.pktType = secondRound ∧ ∃ resp, a = .sendSecResp resp := by
  unfold udpSecreqCallback at h
  split at h
  · rename_i hq
    exact ⟨hq.1, _, List.mem_singleton.1 h⟩
  · cases h

theorem udpSecreqCallback_responded (s : State) (secreq : RequestPacket) :
    responded (udpSecreqCallback s secreq) = false := by
  refine List.any_eq_false.2 fun a ha => ?_
  obtain ⟨-, resp, rfl⟩ := mem_udpSecreqCallback ha
  exact Bool.false_ne_true

/-- A request changes at most the packet kept for broadcast. -/
theorem mcastTcpipHandler_state (nd : Node) (s : State) (mpkt : RequestPacket) :
    ∃ r, (mcastTcpipHandler nd s mpkt).1 = { s with ctimerResp := r } := by
  simp only [mcastTcpipHandler]
  split
  · exact ⟨s.ctimerResp, rfl⟩
  · rename_i resp _
    split
    · exact ⟨s.ctimerResp, rfl⟩
    · split
      · exact ⟨resp, rfl⟩
      · exact ⟨s.ctimerResp, rfl⟩

theorem TopologyOutcome.childList_ids {nd : Node} {s s' : State} {t : TopologyInfo} {cid : NodeId}
    {new : List NodeId} {out : List TopologyInfo} (h : TopologyOutcome nd s t cid new s' out) :
    s'.childList.ids = s.childList.ids := by
  cases h with
  | waits hacc _ => obtain ⟨a, p, n, rfl⟩ := hacc.frame; simp
  | completes hacc _ => obtain ⟨a, p, n, rfl⟩ := hacc.frame; simp
  | splits _ _ _ _ _ => simp

theorem TopologyOutcome.bounded {nd : Node} {s s' : State} {t : TopologyInfo} {cid : NodeId}
    {new : List NodeId} {out : List TopologyInfo} (h : TopologyOutcome nd s t cid new s' out) :
    Bounded s' := by
  cases h with
  | waits hacc _ => exact ⟨hacc.bounded.curLoc_le, hacc.bounded.pathsLoc_le⟩
  | completes _ _ => exact resetVariable_bounded _
  | splits _ _ _ hn _ => exact ⟨by simp, hn⟩

/-- A response takes all checksums with it; without one the packet's checksum is appended. -/
theorem TopologyOutcome.checksums {nd : Node} {s s' : State} {t : TopologyInfo} {cid : NodeId}
    {new : List NodeId} {out : List TopologyInfo} (h : TopologyOutcome nd s t cid new s' out) :
    s'.checksums = if out = [] then s.checksums ++ [t.checksum] else [] := by
  cases h with
  | waits hacc _ => rw [if_pos rfl]; exact hacc.checksums
  | completes _ _ => simp
  | splits _ _ _ _ _ => simp [State.checksums]

theorem good_step {nd : Node} {children : List NodeId} {t : History} {s s' : State} {e : Event}
    {out : List Action} (hg : Good children t s) (h : StepOutcome nd s e s' out) :
    Good children (t ++ [(e, out)]) s' := by
  obtain ⟨hc, hb, hcs⟩ := hg
  subst hc
  -- an event that stores nothing and answers nothing leaves the history as it was
  have quiet : ∀ {e : Event} {out : List Action}, taken s.childList.ids e = none →
      responded out = false → pending s.childList.ids (t ++ [(e, out)]) =
        pending s.childList.ids t := by
    intro e out he ho
    simp [pending_snoc, he, ho]
  cases h with
  | ignored _ he => exact ⟨rfl, hb, by rw [quiet he rfl]; exact hcs⟩
  | request mpkt _ _ he =>
    obtain ⟨r, hr⟩ := mcastTcpipHandler_state nd s mpkt
    rw [hr]
    exact ⟨rfl, ⟨hb.curLoc_le, hb.pathsLoc_le⟩,
      by rw [quiet he (mcastTcpipHandler_responded nd s mpkt)]; exact hcs⟩
  | @topology e cid tp new s' out hh hmem _ ho =>
    refine ⟨ho.childList_ids, ho.bounded, ?_⟩
    have ht : taken s.childList.ids e = some ⟨.topology, cid, tp.checksum⟩ := by
      simp [taken, hh, hmem]
    rw [ho.checksums, pending_snoc, responded_topology]
    cases out with
    | nil => simp [ht, hcs]
    | cons o os => simp
  | @attestation e cid c a hh hcur hcs' =>
    have ht : taken s.childList.ids e = some ⟨.attestation, cid, c⟩ := by simp [taken, hh]
    refine ⟨rfl, ⟨hcur, hb.pathsLoc_le⟩, ?_⟩
    rw [hcs', pending_snoc, ht, hcs]
    simp [responded]
  | secReq secreq =>
    refine ⟨rfl, hb, ?_⟩
    rw [quiet rfl (udpSecreqCallback_responded s secreq)]
    exact hcs
  | periodicIdle _ =>
    exact ⟨rfl, ⟨hb.curLoc_le, hb.pathsLoc_le⟩, by rw [quiet rfl rfl]; exact hcs⟩
  | periodicTopology _ =>
    exact ⟨by simp, resetVariable_bounded _, by
      simp [pending_snoc, responded, sendToParents, Action.isResponse]⟩
  | periodicAttestation _ _ =>
    exact ⟨by simp, resetVariable_bounded _, by simp [pending_snoc, responded, Action.isResponse]⟩
  | periodicZero _ _ =>
    exact ⟨rfl, ⟨hb.curLoc_le, hb.pathsLoc_le⟩, by rw [quiet rfl rfl]; exact hcs⟩
  | pIdle _ => exact ⟨rfl, ⟨hb.curLoc_le, hb.pathsLoc_le⟩, by rw [quiet rfl rfl]; exact hcs⟩
  | pBroadcast _ => exact ⟨rfl, ⟨hb.curLoc_le, hb.pathsLoc_le⟩, by rw [quiet rfl rfl]; exact hcs⟩

/-- A step that does not fault does what `StepOutcome` says. -/
theorem outcome_of_step {nd : Node} {b : Buffers} {s s' : State} {e : Event} {out : List Action}
    (hb : Bounded s) (h : step nd b s e = .ok (s', out)) : StepOutcome nd s e s' out := by
  rcases step_outcome nd b e hb with ⟨herr, _⟩ | ⟨s₁, out₁, hok, ho⟩
  · rw [herr] at h; cases h
  · rw [hok] at h; cases h; exact ho

theorem run_good {nd : Node} {b : Buffers} {C : History → State → Event → Prop} {c : ChildList}
    {t : History} {s : State} (h : (machine nd b).RunIf C (init c) t s) : Good c.ids t s := by
  refine h.invariant (good_init c) ?_
  intro t s e s' out hg _ hs
  exact good_step hg (outcome_of_step hg.bounded hs)

/-! ## A small relay, for runs on fixed inputs -/

/-- A relay below a border router at address 0. -/
def sampleNode : Node := ⟨1, 512, [⟨0, 256⟩]⟩

def oneChild : ChildList := .single 2

def twoChildren : ChildList := .pair 2 3

def sampleMachine : Machine State Event Action Fault := machine sampleNode .contiki

end Relay
end Swarna
