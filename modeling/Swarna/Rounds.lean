import Swarna.RelayHistory

/-!
# Swarna.Rounds

When a relay ends a topology round. `process_topology_req` counts packets, while the child table
flags who sent one; and the timer it sets on the way is not stopped when it responds.

* `run_marked`: in every run, the flags are exactly the marks of the topology packets taken in
  since the last response.
* `completion_all_heard`: the count completes a round with every child heard exactly when no child
  was counted twice. `completion_one_child_twice`: two packets of one child complete the round of
  two children.
* `one_response_iff`: a round ends in exactly one response only when a single packet makes the
  round and no timer callback was ever set. `second_response`: two children, two responses.
-/

namespace Swarna
namespace Relay

/-! ## The flags -/

/-- The senders of the topology packets taken in since the last response. -/
def topologySenders (children : List NodeId) (t : History) : List NodeId :=
  ((pending children t).filter fun p => p.phase = .topology).map Taken.sender

def Marked (c : ChildList) (t : History) (s : State) : Prop :=
  s.childList.nodes = ChildList.markAll (topologySenders c.ids t) c.nodes

theorem topologySenders_responded {children : List NodeId} {t : History} {e : Event}
    {out : List Action} (h : responded out = true) :
    topologySenders children (t ++ [(e, out)]) = [] := by
  simp [topologySenders, pending_snoc, h]

theorem topologySenders_silent {children : List NodeId} {t : History} {e : Event}
    {out : List Action} (h : responded out = false) :
    topologySenders children (t ++ [(e, out)]) = topologySenders children t ++
      (((taken children e).toList.filter fun p => p.phase = .topology).map Taken.sender) := by
  simp [topologySenders, pending_snoc, h]

theorem marked_reset {c : ChildList} (hc : c.Clear) {t : History} {s : State}
    (h : Marked c t s) : s.childList.restChildList.nodes = c.nodes := by
  have hforget : ∀ L : List NodeId, (ChildList.markAll L c.nodes).map
      (fun l => { l with receivedPkt := false }) =
        c.nodes.map fun l => { l with receivedPkt := false } := by
    intro L
    induction L using List.reverseRecOn with
    | nil => rfl
    | append_singleton L id ih => rw [ChildList.markAll_snoc, ChildList.markFirst_reset, ih]
  have hnodes : s.childList.restChildList.nodes = c.restChildList.nodes := by
    simp only [ChildList.restChildList]
    rw [h, hforget]
  rw [hnodes, hc.restChildList_nodes]

theorem marked_step {nd : Node} {c : ChildList} (hc : c.Clear) {t : History} {s s' : State}
    {e : Event} {out : List Action} (hids : s.childList.ids = c.ids) (hm : Marked c t s)
    (h : StepOutcome nd s e s' out) : Marked c (t ++ [(e, out)]) s' := by
  -- a response forgets the senders and resets the flags
  have hreset : ∀ {e : Event} {out : List Action} {s' : State}, responded out = true →
      s'.childList = s.childList.restChildList → Marked c (t ++ [(e, out)]) s' := by
    intro e out s' ho hs
    rw [Marked, topologySenders_responded ho, hs, marked_reset hc hm, ChildList.markAll_nil]
  -- neither is touched by an event that takes no topology packet in
  have hquiet : ∀ {e : Event} {out : List Action} {s' : State}, responded out = false →
      (∀ p ∈ taken c.ids e, p.phase ≠ .topology) → s'.childList = s.childList →
      Marked c (t ++ [(e, out)]) s' := by
    intro e out s' ho he hs
    have hnone : (taken c.ids e).toList.filter (fun p => p.phase = .topology) = [] := by
      rw [List.filter_eq_nil_iff]
      intro p hp
      simpa using he p (by simpa using hp)
    rw [Marked, topologySenders_silent ho, hs, hnone, List.map_nil, List.append_nil]
    exact hm
  cases h with
  | ignored _ he => exact hquiet rfl (by rw [← hids, he]; simp) rfl
  | request mpkt _ _ he =>
    obtain ⟨r, hr⟩ := mcastTcpipHandler_state nd s mpkt
    exact hquiet (mcastTcpipHandler_responded nd s mpkt) (by rw [← hids, he]; simp) (by rw [hr])
  | @topology e cid tp new s' out hh hmem _ ho =>
    cases ho with
    | waits hacc _ =>
      obtain ⟨a, p, n, rfl⟩ := hacc.frame
      have ht : taken c.ids e = some ⟨.topology, cid, tp.checksum⟩ := by
        rw [← hids]
        simp [taken, hh, hmem]
      have hsnoc : topologySenders c.ids (t ++ [(e, [])]) = topologySenders c.ids t ++ [cid] := by
        rw [topologySenders_silent rfl, ht]
        rfl
      rw [Marked, List.map_nil, hsnoc, ChildList.markAll_snoc, ← hm]
      rfl
    | completes hacc _ =>
      obtain ⟨a, p, n, rfl⟩ := hacc.frame
      exact hreset (by rw [responded_topology]; rfl) (by simp)
    | splits => exact hreset (by rw [responded_topology]; rfl) rfl
  | @attestation e cid x a hh _ _ =>
    have ht : taken c.ids e = some ⟨.attestation, cid, x⟩ := by
      rw [← hids]
      simp [taken, hh]
    exact hquiet rfl (by simp [ht]) rfl
  | secReq secreq =>
    exact hquiet (udpSecreqCallback_responded s secreq) (by simp [taken, heard]) rfl
  | periodicIdle | periodicZero | pIdle | pBroadcast =>
    exact hquiet rfl (by simp [taken, heard]) rfl
  | periodicTopology | periodicAttestation => exact hreset rfl rfl

theorem run_marked {nd : Node} {b : Buffers} {C : History → State → Event → Prop} {c : ChildList}
    (hc : c.Clear) {t : History} {s : State} (h : (machine nd b).RunIf C (init c) t s) :
    Marked c t s := by
  have hboth : Good c.ids t s ∧ Marked c t s := by
    refine h.invariant (P := fun t s => Good c.ids t s ∧ Marked c t s) ⟨good_init c, rfl⟩ ?_
    intro t s e s' out hg _ hs
    have ho := outcome_of_step hg.1.bounded hs
    exact ⟨good_step hg.1 ho, marked_step hc hg.1.children_eq hg.2 ho⟩
  exact hboth.2

/-! ## Completion -/

/-- Topology packets of the children, on either port, and timers. -/
def TopologyTraffic (children : List NodeId) (_ : History) (_ : State) (e : Event) : Prop :=
  (∃ cid t, heard children e = some (cid, .topology t) ∧ cid ∈ children) ∨ e.isTimer = true

theorem pending_topology {nd : Node} {b : Buffers} {c : ChildList} {t : History} {s : State}
    (hr : (machine nd b).RunIf (TopologyTraffic c.ids) (init c) t s) :
    ∀ p ∈ pending c.ids t, p.phase = .topology ∧ p.sender ∈ c.ids := by
  refine hr.invariant (P := fun t _ => ∀ p ∈ pending c.ids t, p.phase = .topology ∧
    p.sender ∈ c.ids) (by simp) ?_
  intro t s e s' out ih he _ p hp
  rw [pending_snoc] at hp
  split at hp
  · cases hp
  · rcases List.mem_append.1 hp with hp | hp
    · exact ih p hp
    · rcases he with ⟨cid, tp, hh, hmem⟩ | he
      · rw [taken, hh] at hp
        simp only [hmem, if_true, Option.toList_some, List.mem_singleton] at hp
        subst hp
        exact ⟨rfl, hmem⟩
      · cases e with
        | periodicExpiry | pExpiry => cases hp
        | tcpip | broadcast | mcast | secReq => cases he

/-- With the packet of `cid` taken in, which led to `s₂`, every child has been heard since the last
response, and the flags say so. -/
def AllHeard (children : List NodeId) (t : History) (cid : NodeId) (s₂ : State) : Prop :=
  (∀ i ∈ children, i ∈ (pending children t).map Taken.sender ++ [cid]) ∧
    s₂.childList.isAllChildSet = true

/-- As many packets as there are children, all from children: they come from different ones if and
only if they come from all. -/
theorem nodup_iff_covers {L I : List NodeId} (hsub : L ⊆ I) (hlen : L.length = I.length) :
    L.Nodup ↔ I.Nodup ∧ I ⊆ L := by
  constructor
  · intro hn
    have hp : L.Perm I := (List.subperm_of_subset hn hsub).perm_of_length_le (by omega)
    exact ⟨hp.nodup_iff.1 hn, hp.symm.subset⟩
  · rintro ⟨hn, hsup⟩
    have hp : I.Perm L := (List.subperm_of_subset hn hsup).perm_of_length_le (by omega)
    exact hp.nodup_iff.1 hn

theorem completion_all_heard {nd : Node} {b : Buffers} {c : ChildList} (hc : c.Clear)
    {t : History} {s : State} (hr : (machine nd b).RunIf (TopologyTraffic c.ids) (init c) t s)
    {after : TopologyInfo → TopologyInfo → TopologyInfo} {tp : TopologyInfo} {cid : NodeId}
    (hmem : cid ∈ c.ids) {s₂ : State} {sent : List TopologyInfo}
    (hacc : acceptTopologyReq nd after s tp cid = .ok (s₂, sent))
    (hcount : s₂.curLoc = s₂.childList.getChildCount) :
    AllHeard c.ids t cid s₂ ↔ ((pending c.ids t).map Taken.sender ++ [cid]).Nodup := by
  have hg := run_good hr
  have hp := pending_topology hr
  have hsenders : topologySenders c.ids t = (pending c.ids t).map Taken.sender := by
    rw [topologySenders, List.filter_eq_self.2]
    intro p hp'
    simpa using (hp p hp').1
  have hcur : s.curLoc < maxChild := by
    by_contra hfull
    rw [acceptTopologyReq_overflow hfull] at hacc
    cases hacc
  obtain ⟨s₃, out, hacc', hcases⟩ := acceptTopologyReq_cases nd after tp cid hg.bounded
    hcur
  rw [hacc] at hacc'
  cases hacc'
  have hpos : 0 < c.ids.length := List.length_pos_of_mem hmem
  have hchildren : s.childList.getChildCount = c.ids.length := by
    rw [← ChildList.ids_length, hg.children_eq]
  rcases hcases with ⟨_, h⟩ | ⟨o, os, _, _, _, _, _, _, a, p, n, sec, mi, mc, r, rfl⟩
  · obtain ⟨a, p, n, rfl⟩ := h.frame
    have hlen : ((pending c.ids t).map Taken.sender ++ [cid]).length = c.ids.length := by
      have h₁ : s.curLoc + 1 = s.childList.getChildCount := by simpa using hcount
      simp only [List.length_append, List.length_map, List.length_singleton, ← hg.curLoc]
      omega
    have hsub : (pending c.ids t).map Taken.sender ++ [cid] ⊆ c.ids := by
      intro i hi
      rcases List.mem_append.1 hi with hi | hi
      · obtain ⟨p, hp', rfl⟩ := List.mem_map.1 hi
        exact (hp p hp').2
      · rw [List.mem_singleton.1 hi]
        exact hmem
    have hnodes : (s.childList.childSetPktReceived cid).2.nodes =
        ChildList.markAll ((pending c.ids t).map Taken.sender ++ [cid]) c.nodes := by
      rw [ChildList.markAll_snoc, ← hsenders, ← run_marked hc hr]
      rfl
    rw [nodup_iff_covers hsub hlen, AllHeard, ChildList.isAllChildSet, hnodes,
      ChildList.markAll_all hc]
    constructor
    · rintro ⟨hall, hn, _⟩
      exact ⟨hn, hall⟩
    · rintro ⟨hn, hall⟩
      exact ⟨hall, hn, hall⟩
  · -- a split leaves the count at 0
    have h₁ : 0 = s.childList.getChildCount := by simpa using hcount
    omega

/-- A relay of two children that has heard child 2. -/
def oneHeard : State :=
  match processTopologyReq sampleNode (fun received _ => received) (init twoChildren)
    ⟨1, [2], 768, 9⟩ 2 with
  | .ok (s, _) => s
  | .error _ => init twoChildren

theorem oneHeard_run : sampleMachine.RunIf (TopologyTraffic twoChildren.ids) (init twoChildren)
    [(.broadcast 2 (.topology ⟨1, [2], 768, 9⟩), [])] oneHeard :=
  .next (t := []) .start (.inl ⟨2, _, rfl, by decide⟩) rfl

theorem completion_all_heard_second :
    ∃ s₂, acceptTopologyReq sampleNode (fun received _ => received) oneHeard ⟨1, [3], 768, 5⟩ 3 =
        .ok (s₂, []) ∧
      AllHeard twoChildren.ids [(.broadcast 2 (.topology ⟨1, [2], 768, 9⟩), [])] 3 s₂ := by
  obtain ⟨s₂, hacc, hcount⟩ : ∃ s₂, acceptTopologyReq sampleNode (fun received _ => received)
      oneHeard ⟨1, [3], 768, 5⟩ 3 = .ok (s₂, []) ∧ s₂.curLoc = s₂.childList.getChildCount :=
    ⟨_, rfl, rfl⟩
  exact ⟨s₂, hacc, (completion_all_heard (by simp [ChildList.Clear, twoChildren]) oneHeard_run
    (by decide) hacc hcount).2 (by decide)⟩

/-- Child 2 sends two packets, as a child whose path fills up does. They complete the round of the
children 2 and 3. -/
theorem completion_one_child_twice :
    ∃ s₂, acceptTopologyReq sampleNode (fun received _ => received) oneHeard ⟨1, [2], 768, 9⟩ 2 =
        .ok (s₂, []) ∧
      s₂.curLoc = s₂.childList.getChildCount ∧
      ¬ AllHeard twoChildren.ids [(.broadcast 2 (.topology ⟨1, [2], 768, 9⟩), [])] 2 s₂ :=
  ⟨_, rfl, rfl, fun h => absurd h.2 (by decide)⟩

/-! ## One response per round -/

/-- The actions that put a packet on the network. -/
def Action.isSent : Action → Bool
  | .sendToParents _ _ _ => true
  | .storeBroadcast _ => false
  | .broadcastToParents _ => true
  | .sendSecResp _ => true

/-- The topology packets `packets`, with their senders, arrive in the order of the events. -/
def Arrivals (children : List NodeId) (es : List Event) (packets : List (NodeId × TopologyInfo)) :
    Prop :=
  es.map (heard children) = packets.map fun p => some (p.1, .topology p.2)

/-- Whatever timers expire, and as often as they may, nothing is sent. -/
def Silent (nd : Node) (b : Buffers) (s : State) : Prop :=
  ∀ es : List Event, (∀ e ∈ es, e.isTimer = true) →
    ∃ t s', (machine nd b).exec s es = .ok (t, s') ∧ t.outputs.any Action.isSent = false

/-- The arrivals lead to one response, on the last of them, and timers to no further packet. A call
of `send_to_parents` counts as a response also where no neighbour is a parent. -/
def OneResponse (nd : Node) (b : Buffers) (s : State) (es : List Event) : Prop :=
  ∃ t s' o, (machine nd b).exec s es = .ok (t, s') ∧
    t.map Prod.snd = List.replicate (es.length - 1) [] ++
      [[sendToParents nd (.topology o) false]] ∧
    Silent nd b s'

/-- A `p_timer` that was set belongs to an attestation response, whose timer was set before. -/
def TimersSet (s : State) : Prop := s.periodicTimer.callback = none → s.pTimer.callback = none

theorem TopologyOutcome.timer {nd : Node} {s s' : State} {t : TopologyInfo} {cid : NodeId}
    {new : List NodeId} {out : List TopologyInfo} (h : TopologyOutcome nd s t cid new s' out) :
    s'.pTimer = s.pTimer ∧ s'.childList.ids = s.childList.ids ∧
      (s'.periodicTimer = ⟨true, some .sendTopologyResp⟩ ∨
        s'.periodicTimer = s.periodicTimer.reset ∧ s'.curLoc = 0 ∧
          s.curLoc + 1 = s.childList.getChildCount) := by
  refine ⟨?_, h.childList_ids, ?_⟩
  · cases h with
    | waits hacc _ => obtain ⟨a, p, n, rfl⟩ := hacc.frame; rfl
    | completes hacc _ => obtain ⟨a, p, n, rfl⟩ := hacc.frame; rfl
    | splits => rfl
  · cases h with
    | waits _ _ => exact .inl rfl
    | completes hacc hcount =>
      obtain ⟨a, p, n, rfl⟩ := hacc.frame
      exact .inr ⟨rfl, rfl, hcount⟩
    | splits => exact .inl rfl

theorem timersSet_step {nd : Node} {s s' : State} {e : Event} {out : List Action}
    (hs : TimersSet s) (h : StepOutcome nd s e s' out) : TimersSet s' := by
  cases h with
  | ignored | secReq => exact hs
  | request mpkt _ _ _ =>
    obtain ⟨r, hr⟩ := mcastTcpipHandler_state nd s mpkt
    rw [hr]
    exact hs
  | topology _ _ _ ho =>
    obtain ⟨hp, _, ht | ⟨ht, _⟩⟩ := ho.timer
    · intro hn
      rw [ht] at hn
      cases hn
    · intro hn
      rw [hp]
      rw [ht] at hn
      exact hs hn
  | @attestation e cid x a _ _ _ =>
    intro hn
    by_cases hset : (s.childList.isChild cid && s.firstChild) = true
    · simp [attested, hset, CTimer.set] at hn
    · simp only [attested, hset] at hn
      exact hs hn
  | periodicIdle | periodicTopology | periodicZero | pIdle | pBroadcast => exact hs
  | periodicAttestation hx _ =>
    -- the timer just expired with a callback, so it has one
    intro hn
    have hcb := (CTimer.expire_eq_some.1 hx).2
    rw [show s.periodicTimer.callback = none from hn] at hcb
    cases hcb

theorem run_timersSet {nd : Node} {b : Buffers} {C : History → State → Event → Prop}
    {c : ChildList} {t : History} {s : State} (h : (machine nd b).RunIf C (init c) t s) :
    TimersSet s := by
  have hboth : Good c.ids t s ∧ TimersSet s := by
    refine h.invariant (P := fun t s => Good c.ids t s ∧ TimersSet s)
      ⟨good_init c, fun _ => rfl⟩ ?_
    intro t s e s' out hg _ hs
    have ho := outcome_of_step hg.1.bounded hs
    exact ⟨good_step hg.1 ho, timersSet_step hg.2 ho⟩
  exact hboth.2

/-- Timers without callbacks do nothing. -/
theorem silent_of_unset {nd : Node} {b : Buffers} {s : State}
    (h₁ : s.periodicTimer.callback = none) (h₂ : s.pTimer.callback = none) : Silent nd b s := by
  intro es hes
  induction es generalizing s with
  | nil => exact ⟨[], s, rfl, by simp⟩
  | cons e es ih =>
    have he := hes e (List.mem_cons_self ..)
    have hes' : ∀ e ∈ es, e.isTimer = true := fun e he => hes e (List.mem_cons_of_mem _ he)
    have hstep : ∃ s₁, step nd b s e = .ok (s₁, []) ∧ s₁.periodicTimer.callback = none ∧
        s₁.pTimer.callback = none := by
      cases e with
      | periodicExpiry =>
        exact ⟨_, step_periodicIdle nd b (CTimer.expire_eq_none h₁), h₁, h₂⟩
      | pExpiry =>
        exact ⟨_, step_pIdle nd b (CTimer.expire_eq_none h₂), h₁, h₂⟩
      | tcpip | broadcast | mcast | secReq => cases he
    obtain ⟨s₁, hs, hs₁, hs₂⟩ := hstep
    obtain ⟨t, s', hex, hq⟩ := ih hs₁ hs₂ hes'
    exact ⟨(e, []) :: t, s', Machine.exec_cons.2 ⟨s₁, [], t, hs, hex, rfl⟩,
      by simpa [Trace.outputs] using hq⟩

/-- A topology callback left behind sends one more response. -/
theorem not_silent_topology {nd : Node} {b : Buffers} {s : State} (hb : Bounded s)
    (h : s.periodicTimer = ⟨true, some .sendTopologyResp⟩) : ¬ Silent nd b s := by
  intro hq
  obtain ⟨t, s', hex, hout⟩ := hq [.periodicExpiry] (by simp [Event.isTimer])
  obtain ⟨s₁, out, t₁, hs, ht, rfl⟩ := Machine.exec_cons.1 hex
  have hx : s.periodicTimer.expire.1 = some .sendTopologyResp :=
    CTimer.expire_eq_some.2 (by rw [h]; exact ⟨rfl, rfl⟩)
  simp only [machine, step_periodicTopology hb hx, Except.ok.injEq, Prod.mk.injEq] at hs
  obtain ⟨-, rfl⟩ := hs
  simp [Trace.outputs, sendToParents, Action.isSent] at hout

/-- An attestation callback left behind broadcasts the own checksum. -/
theorem not_silent_attestation {nd : Node} {b : Buffers} {s : State} (hb : Bounded s)
    (hcur : s.curLoc = 0) (h : s.periodicTimer = ⟨true, some .sendAttestationResp⟩) :
    ¬ Silent nd b s := by
  intro hq
  obtain ⟨t, s', hex, hout⟩ := hq [.periodicExpiry, .pExpiry] (by simp [Event.isTimer])
  obtain ⟨s₁, out, t₁, hs, ht, rfl⟩ := Machine.exec_cons.1 hex
  obtain ⟨s₂, out₂, t₂, hs₂, ht₂, rfl⟩ := Machine.exec_cons.1 ht
  have hx : s.periodicTimer.expire.1 = some .sendAttestationResp :=
    CTimer.expire_eq_some.2 (by rw [h]; exact ⟨rfl, rfl⟩)
  have hne : xorAll s.checksums ^^^ ownChecksum nd.id ≠ 0 := by
    simpa [State.checksums, hcur] using ownChecksum_ne_zero nd.id
  simp only [machine, step_periodicAttestation hb.curLoc_le hx hne, Except.ok.injEq,
    Prod.mk.injEq] at hs
  obtain ⟨rfl, rfl⟩ := hs
  simp only [machine, step, pExpiry, resetVariable_pTimer, CTimer.set, CTimer.expire,
    Except.ok.injEq] at hs₂
  cases hs₂
  simp [Trace.outputs, Action.isSent] at hout

theorem StepOutcome.topology_inv {nd : Node} {s s' : State} {e : Event} {cid : NodeId}
    {t : TopologyInfo} {out : List Action} (h : StepOutcome nd s e s' out)
    (hh : heard s.childList.ids e = some (cid, .topology t)) (hmem : cid ∈ s.childList.ids) :
    ∃ new sent, TopologyOutcome nd s t cid new s' sent ∧
      out = sent.map fun o => sendToParents nd (.topology o) false := by
  have ht : taken s.childList.ids e = some ⟨.topology, cid, t.checksum⟩ := by
    simp [taken, hh, hmem]
  cases h with
  | ignored _ he | request _ _ _ he => rw [he] at ht; cases ht
  | topology hh' _ _ ho => rw [hh] at hh'; cases hh'; exact ⟨_, _, ho, rfl⟩
  | attestation hh' _ _ => rw [hh] at hh'; cases hh'
  | secReq | periodicIdle | periodicTopology | periodicAttestation | periodicZero | pIdle
    | pBroadcast => cases hh

/-- Once set to send the topology response, the timer stays so over topology packets. -/
theorem arrivals_timer {nd : Node} {b : Buffers} {es : List Event}
    {packets : List (NodeId × TopologyInfo)} {s s' : State} {t : History} (hb : Bounded s)
    (ha : Arrivals s.childList.ids es packets) (hmem : ∀ p ∈ packets, p.1 ∈ s.childList.ids)
    (ht : s.periodicTimer = ⟨true, some .sendTopologyResp⟩)
    (hex : (machine nd b).exec s es = .ok (t, s')) :
    Bounded s' ∧ s'.periodicTimer = ⟨true, some .sendTopologyResp⟩ := by
  induction es generalizing s t packets with
  | nil => cases hex; exact ⟨hb, ht⟩
  | cons e es ih =>
    obtain ⟨s₁, out, t₁, hs, hex₁, rfl⟩ := Machine.exec_cons.1 hex
    cases packets with
    | nil => simp [Arrivals] at ha
    | cons p ps =>
      simp only [Arrivals, List.map_cons, List.cons.injEq] at ha
      obtain ⟨_, sent, ho, -⟩ := (outcome_of_step hb hs).topology_inv ha.1
        (hmem p (List.mem_cons_self ..))
      obtain ⟨-, hids, htimer⟩ := ho.timer
      refine ih ho.bounded (by rw [hids]; exact ha.2)
        (by rw [hids]; exact fun p hp => hmem p (List.mem_cons_of_mem _ hp)) ?_ hex₁
      rcases htimer with h | ⟨h, -⟩
      · exact h
      · rw [h, ht]
        rfl

/-- A packet that does not fit leaves the timer set, even if it was the last one expected. -/
theorem overfull_timer {nd : Node} {after : TopologyInfo → TopologyInfo → TopologyInfo}
    {s s' : State} {t : TopologyInfo} {cid : NodeId} {out : List TopologyInfo} (hb : Bounded s)
    (hc : s.childList.isChild cid = true) (hcur : s.curLoc < maxChild)
    (hover : maxPathNodes - 3 < s.pathsLoc + (fresh s t.ids).length)
    (h : processTopologyReq nd after s t cid = .ok (s', out)) :
    s'.periodicTimer = ⟨true, some .sendTopologyResp⟩ := by
  obtain ⟨s₂, sent, hacc, hcases⟩ := acceptTopologyReq_cases nd after t cid hb hcur
  have hsent := acceptTopologyReq_overfull hb hcur hover hacc
  rcases hcases with ⟨hnil, -⟩ | ⟨o, os, -, -, -, -, -, -, a, p, n, sec, mi, mc, r, rfl⟩
  · exact absurd hnil hsent
  · have hpos := ChildList.getChildCount_pos hc
    have hne : ¬ 0 = s.childList.getChildCount := by omega
    simp only [processTopologyReq, hc, hacc, finishTopologyReq] at h
    simp [hne] at h
    rw [← h.1]
    rfl

/-- If one response comes of the arrivals, the first packet has completed the count, and has left
the timer running with the callback it had. -/
theorem OneResponse.first {nd : Node} {b : Buffers} {s : State} {e : Event} {es : List Event}
    {p : NodeId × TopologyInfo} {ps : List (NodeId × TopologyInfo)}
    (h : OneResponse nd b s (e :: es)) (hb : Bounded s)
    (ha : Arrivals s.childList.ids (e :: es) (p :: ps))
    (hmem : ∀ q ∈ p :: ps, q.1 ∈ s.childList.ids) :
    ∃ s₁ out t₁ s', step nd b s e = .ok (s₁, out) ∧ (machine nd b).exec s₁ es = .ok (t₁, s') ∧
      Bounded s₁ ∧ s₁.curLoc = 0 ∧ s.curLoc + 1 = s.childList.getChildCount ∧
      s₁.periodicTimer = s.periodicTimer.reset ∧
      s₁.periodicTimer ≠ ⟨true, some .sendTopologyResp⟩ ∧ Silent nd b s' := by
  obtain ⟨t', s', o, hex, -, hq⟩ := h
  simp only [Arrivals, List.map_cons, List.cons.injEq] at ha
  obtain ⟨s₁, out, t₁, hs, hex₁, -⟩ := Machine.exec_cons.1 hex
  obtain ⟨_, sent, ho, -⟩ := (outcome_of_step hb hs).topology_inv ha.1
    (hmem p (List.mem_cons_self ..))
  obtain ⟨-, hids, htimer⟩ := ho.timer
  -- a topology callback left by the first packet would still be there at the end
  have hnot : s₁.periodicTimer ≠ ⟨true, some .sendTopologyResp⟩ := by
    intro h
    obtain ⟨hb', ht'⟩ := arrivals_timer ho.bounded (by rw [hids]; exact ha.2)
      (by rw [hids]; exact fun q hq => hmem q (List.mem_cons_of_mem _ hq)) h hex₁
    exact not_silent_topology hb' ht' hq
  obtain ⟨ht₁, hcur₁, hone⟩ := htimer.resolve_left hnot
  exact ⟨s₁, out, t₁, s', hs, hex₁, ho.bounded, hcur₁, hone, ht₁, hnot, hq⟩

/-- One packet that is the last one expected, and fits, leads to one response when the timer never
had a callback. -/
theorem oneResponse_of_fits {nd : Node} {b : Buffers} {s : State} {e : Event} {cid : NodeId}
    {tp : TopologyInfo} (hset : TimersSet s)
    (hh : heard s.childList.ids e = some (cid, .topology tp))
    (hchild : s.childList.isChild cid = true) (hlt : s.curLoc < maxChild)
    (hcount : s.curLoc + 1 = s.childList.getChildCount)
    (hcb : s.periodicTimer.callback = none)
    (hfit : s.pathsLoc + (fresh s tp.ids).length ≤ maxPathNodes - 3) :
    OneResponse nd b s [e] := by
  have hstep := step_topology nd b hh
  obtain ⟨s₂, hs₂, -, ⟨-, hreq⟩ | ⟨hcount', -⟩⟩ := processTopologyReq_fits nd (e.after b)
    hchild hlt hfit
  · rw [hreq] at hstep
    obtain ⟨a, paths, n, hframe⟩ := hs₂.frame
    refine ⟨_, _, topologyResp nd s₂, Machine.exec_cons.2 ⟨_, _, [], hstep, rfl, rfl⟩, rfl,
      silent_of_unset ?_ ?_⟩
    · rw [resetVariable_periodicTimer, hframe]
      exact hcb
    · rw [resetVariable_pTimer, hframe]
      exact hset hcb
  · exact absurd hcount hcount'

/-- At the start of a round, packets of all children come in, one of each. One response comes of
it exactly when there is one child, the timer never had a callback, and the path fits. -/
theorem one_response_iff {nd : Node} {b : Buffers} {c : ChildList} {t : History} {s : State}
    (hr : (machine nd b).Run (init c) t s) (hcur : s.curLoc = 0) (hloc : s.pathsLoc = 0)
    {es : List Event} (packets : List (NodeId × TopologyInfo)) (ha : Arrivals c.ids es packets)
    (hperm : (packets.map Prod.fst).Perm c.ids) (hne : c.ids ≠ []) :
    OneResponse nd b s es ↔
      c.ids.length = 1 ∧ s.periodicTimer.callback = none ∧
        ∀ p ∈ packets, p.2.pathindex.toNat ≤ maxPathNodes - 3 := by
  have hg := run_good hr
  have hmem : ∀ p ∈ packets, p.1 ∈ s.childList.ids := by
    intro p hp
    rw [hg.children_eq]
    exact hperm.subset (List.mem_map_of_mem hp)
  have hlen : packets.length = c.ids.length := by simpa using hperm.length_eq
  have hcount : s.childList.getChildCount = c.ids.length := by
    rw [← ChildList.ids_length, hg.children_eq]
  have hlt : s.curLoc < maxChild := by rw [hcur]; decide
  have hfresh : ∀ tp : TopologyInfo, s.pathsLoc + (fresh s tp.ids).length = tp.pathindex.toNat := by
    intro tp
    simp [fresh, isPresentPaths, hloc, TopologyInfo.ids]
  rw [← hg.children_eq] at ha
  cases packets with
  | nil => exact absurd (List.length_eq_zero_iff.1 hlen.symm) hne
  | cons p ps =>
    cases es with
    | nil => simp [Arrivals] at ha
    | cons e es =>
      have ha' := ha
      simp only [Arrivals, List.map_cons, List.cons.injEq] at ha'
      have hchild : s.childList.isChild p.1 = true :=
        ChildList.isChild_iff.2 (hmem p (List.mem_cons_self ..))
      -- with one child there is one packet, and one event
      have hsingle : c.ids.length = 1 → ps = [] ∧ es = [] := by
        intro hk
        have hps : ps = [] := by simpa [hk] using hlen
        subst hps
        exact ⟨rfl, by simpa using ha'.2⟩
      constructor
      · intro hone
        obtain ⟨s₁, out, t₁, s', hs, hex₁, hb₁, hcur₁, hcount₁, ht₁, hnot, hq⟩ :=
          hone.first hg.bounded ha hmem
        have hk : c.ids.length = 1 := by omega
        obtain ⟨rfl, rfl⟩ := hsingle hk
        cases hex₁
        refine ⟨hk, ?_, fun p' hp' => ?_⟩
        · cases hcb : s.periodicTimer.callback with
          | none => rfl
          | some f =>
            cases f with
            | sendTopologyResp => exact absurd (by rw [ht₁, CTimer.reset, hcb]) hnot
            | sendAttestationResp =>
              exact absurd hq (not_silent_attestation hb₁ hcur₁ (by rw [ht₁, CTimer.reset, hcb]))
        · rw [List.mem_singleton.1 hp']
          by_contra hover
          obtain ⟨sent, hreq, -⟩ := step_topology_ok ha'.1 hs
          exact hnot (overfull_timer hg.bounded hchild hlt (by rw [hfresh]; omega) hreq)
      · rintro ⟨hk, hcb, hfit⟩
        obtain ⟨rfl, rfl⟩ := hsingle hk
        exact oneResponse_of_fits (run_timersSet hr) ha'.1 hchild hlt (by omega) hcb
          (by rw [hfresh]; exact hfit p (List.mem_singleton_self p))

theorem one_response_single :
    OneResponse sampleNode .contiki (init oneChild) [.tcpip 2 (.topology ⟨1, [2], 768, 9⟩)] := by
  have hr : sampleMachine.Run (init oneChild) [] (init oneChild) := .start
  have ha : Arrivals oneChild.ids [.tcpip 2 (.topology ⟨1, [2], 768, 9⟩)]
      [(2, ⟨1, [2], 768, 9⟩)] := rfl
  exact (one_response_iff hr rfl rfl _ ha (by decide) (by decide)).2 (by decide)

/-- Two children: the timer set at the first packet is left running, and its expiry sends a second
response. -/
theorem second_response :
    ¬ OneResponse sampleNode .contiki (init twoChildren)
      [.tcpip 2 (.topology ⟨1, [2], 768, 9⟩), .tcpip 3 (.topology ⟨1, [3], 768, 5⟩)] := by
  rintro ⟨t, s', o, hex, -, hq⟩
  cases hex
  obtain ⟨t', s'', hex', hout⟩ := hq [.periodicExpiry] (by decide)
  cases hex'
  exact absurd hout (by decide)

end Relay
end Swarna
