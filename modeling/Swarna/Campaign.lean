import Swarna.RoundLog

/-!
# Swarna.Campaign

Attestation rounds one after the other, each from the state the one before has left behind.

* `deliver_rest`, `periodicExpiry_rest`, `pExpiry_rest`: what each kind of event leaves of a relay,
  and `kept_step` from them.
* `next_round`: a complete round leaves the nodes as they have to be for another one.
* `campaign_logged`: in every round of a campaign the border router logs and counts what belongs to
  this round, whatever the rounds before were.
-/

namespace Swarna

open Network (Label History traceOf senders)

namespace Relay

theorem getCombinedChecksum_childList {nd : Node} {s s' : State} {combined : Checksum}
    (h : getCombinedChecksum nd s = .ok (combined, s')) : s'.childList = s.childList := by
  simp only [getCombinedChecksum] at h
  split at h
  · cases h
  · split at h <;> cases h <;> rfl

theorem sendTopologyResp_ids {nd : Node} {s s' : State} {out : TopologyInfo}
    (h : sendTopologyResp nd s = .ok (s', out)) : s'.childList.ids = s.childList.ids := by
  simp only [sendTopologyResp] at h
  split at h
  · cases h
  · rename_i combined s₁ hs
    split at h
    · cases h
    · cases h
      rw [resetVariable, ChildList.ids_restChildList, getCombinedChecksum_childList hs]

/-- The periodic timer leaves the children as they are, and a relay that stores a response has
reset. -/
theorem periodicExpiry_rest {nd : Node} {s s' : State} {out : List Action}
    (h : periodicExpiry nd s = .ok (s', out)) : s'.childList.ids = s.childList.ids ∧
      ((∃ x, .storeBroadcast x ∈ out) → s'.curLoc = 0 ∧ s'.firstChild = true) := by
  simp only [periodicExpiry] at h
  split at h
  · cases h
    exact ⟨rfl, by simp⟩
  · split at h
    · cases h
    · rename_i hs
      cases h
      have hids := sendTopologyResp_ids hs
      exact ⟨hids, by simp [sendToParents]⟩
  · simp only [sendAttestationResp] at h
    split at h
    · cases h
    · rename_i combined s₁ hs
      have hchildren := getCombinedChecksum_childList hs
      split at h
      · cases h
        refine ⟨?_, fun _ => ⟨rfl, rfl⟩⟩
        rw [resetVariable, ChildList.ids_restChildList]
        exact congrArg ChildList.ids hchildren
      · cases h
        exact ⟨congrArg ChildList.ids hchildren, by simp⟩

theorem processAttestationReq_childList {s s' : State} {checksum : Checksum} {cid : NodeId}
    (h : processAttestationReq s checksum cid = .ok s') : s'.childList = s.childList := by
  by_cases hcur : s.curLoc < maxChild
  · obtain ⟨arr, hrun, -⟩ := processAttestationReq_eq checksum cid hcur
    rw [hrun] at h
    cases h
    rfl
  · simp [processAttestationReq, storeChecksum_overflow hcur] at h

end Relay

variable {ι : Type} [Fintype ι] [DecidableEq ι] {D : Deployment ι} {T : Tree ι}
  {nodes : ι → NodeState} {a : ι → Checksum}

namespace AttestationTree

/-- A relay has the children it started with, and has reset if it has stored a response. -/
def Kept (nodes : ι → NodeState) (n : ι) (τ : NodeHistory ι) (v : NodeState) : Prop :=
  ∀ rs, nodes n = .relay rs → ∃ s, v = .relay s ∧ s.childList.ids = rs.childList.ids ∧
    (τ.outputs ≠ [] → s.curLoc = 0 ∧ s.firstChild = true)

section Events

omit [DecidableEq ι]

/-- A relay in a round has sent nothing and its periodic timer has not run out, or it has stored a
response, has heard all its children and has its periodic timer off. -/
theorem Status.relay_cases {n : ι} {τ : NodeHistory ι} {rs s : Relay.State}
    (hrs : nodes n = .relay rs) (h : Status D T nodes a n τ (.relay s)) :
    (τ.outputs = [] ∧ Input.ext .periodicExpiry ∉ τ.map Prod.fst) ∨
      ((∃ x, .storeBroadcast x ∈ τ.outputs) ∧ (∀ d, T.parent d = some n → d ∈ senders τ) ∧
        s.periodicTimer.armed = false) := by
  cases h with
  | holding _ _ _ hexp _ ho _ _ => exact .inl ⟨ho, hexp⟩
  | stored _ hall _ ho hv harmed _ _ | broadcast _ hall ho hv harmed _ =>
    cases hv
    exact .inr ⟨⟨_, ho ▸ List.mem_cons_self⟩, hall, harmed⟩
  | router hn _ _ | waiting hn _ _ _ | answered hn _ _ _ =>
    exact absurd (hn.symm.trans hrs) (by simp)

variable {n : ι} {τ : NodeHistory ι} {rs s s' : Relay.State} {acts : List Action}

/-- A relay is delivered nothing but the aggregates of children it has not heard: it has sent
nothing before, and sends nothing now. -/
theorem deliver_rest {p : Packet ι Datagram} (hrs : nodes n = .relay rs)
    (hb : Status D T nodes a n τ (.relay s)) (hgood : GoodPacket D T nodes a p)
    (hparent : T.parent p.src = some n) (hnew : p.src ∉ senders τ)
    (hs : Relay.step (D.node n) D.buffers s ((D.assign a).relayEvent (.recv p.src p.body)) =
      .ok (s', acts)) :
    s'.childList = s.childList ∧ τ.outputs ++ acts = [] := by
  obtain ⟨src, r, body⟩ := p
  obtain ⟨-, hbody⟩ := hgood
  simp only at hbody
  subst hbody
  have hsilent : τ.outputs = [] := by
    obtain ⟨ho, -⟩ | ⟨-, hall, -⟩ := hb.relay_cases hrs
    · exact ho
    · exact absurd (hall src hparent) hnew
  simp only [Deployment.relayEvent, Relay.step, Relay.receive] at hs
  split at hs
  · cases hs
  · rename_i hreq
    cases hs
    exact ⟨Relay.processAttestationReq_childList hreq, by rw [hsilent, List.nil_append]⟩

/-- The periodic timer stores a response and resets the relay, or has run out already. -/
theorem periodicExpiry_rest (hrs : nodes n = .relay rs) (hb : Status D T nodes a n τ (.relay s))
    (hb' : Status D T nodes a n (τ ++ [(.ext .periodicExpiry, acts)]) (.relay s'))
    (hreset : τ.outputs ≠ [] → s.curLoc = 0 ∧ s.firstChild = true)
    (hs : Relay.step (D.node n) D.buffers s .periodicExpiry = .ok (s', acts)) :
    s'.childList.ids = s.childList.ids ∧ s'.curLoc = 0 ∧ s'.firstChild = true := by
  obtain ⟨ho, -⟩ | ⟨⟨x, hx⟩, -, harmed⟩ := hb.relay_cases hrs
  · obtain ⟨-, hexp⟩ | ⟨⟨x, hx⟩, -, -⟩ := hb'.relay_cases hrs
    · exact absurd (by simp) hexp
    · rw [Trace.outputs_snoc, ho, List.nil_append] at hx
      obtain ⟨hids, hstore⟩ := Relay.periodicExpiry_rest hs
      exact ⟨hids, hstore ⟨x, hx⟩⟩
  · rw [Relay.step_periodicIdle (D.node n) D.buffers (CTimer.expire_unarmed harmed)] at hs
    cases hs
    exact ⟨rfl, hreset (List.ne_nil_of_mem hx)⟩

/-- The broadcast timer runs out only behind the periodic one, and touches neither the children nor
what is stored. -/
theorem pExpiry_rest (hrs : nodes n = .relay rs) (hb : Status D T nodes a n τ (.relay s))
    (hexp : Input.ext .periodicExpiry ∈ τ.map Prod.fst)
    (hreset : τ.outputs ≠ [] → s.curLoc = 0 ∧ s.firstChild = true)
    (hs : Relay.pExpiry s = (s', acts)) :
    s'.childList = s.childList ∧ s'.curLoc = 0 ∧ s'.firstChild = true := by
  obtain ⟨-, hnot⟩ | ⟨⟨x, hx⟩, -, -⟩ := hb.relay_cases hrs
  · exact absurd hexp hnot
  · have h := hreset (List.ne_nil_of_mem hx)
    simp only [Relay.pExpiry] at hs
    split at hs <;> cases hs <;> exact ⟨rfl, h⟩

end Events

theorem kept_step (hT : AttestationTree D T nodes)
    {t : History ι Datagram NodeEvent Action} {s : Network.State ι NodeState Datagram}
    {l : Label ι Datagram NodeEvent}
    (hr : (D.assign a).network.machine.RunIf (AttestationRound T nodes) (Deployment.start nodes)
      t s) (hc : AttestationRound T nodes t s l)
    (hI : ∀ n, Status D T nodes a n (traceOf n t) (s.node n))
    (hQ : ∀ p ∈ s.flight, GoodPacket D T nodes a p) (hmem : ∀ p ∈ l.packet?, p ∈ s.flight)
    {v : NodeState} {acts : List Action}
    (hv : (D.assign a).step l.target (s.node l.target) l.input = .ok (v, acts))
    (hI' : Status D T nodes a l.target (traceOf l.target t ++ [(l.input, acts)]) v)
    (hK : Kept nodes l.target (traceOf l.target t) (s.node l.target)) :
    Kept nodes l.target (traceOf l.target t ++ [(l.input, acts)]) v := by
  intro rs hrs
  obtain ⟨s₁, hs₁, hids, hreset⟩ := hK rs hrs
  have hnot : ¬ IsClient nodes l.target := by
    rintro ⟨cs, hcs⟩
    rw [hrs] at hcs
    cases hcs
  rw [hs₁] at hv
  obtain ⟨s₂, hs₂, rfl⟩ := Deployment.step_relay_inv hv
  refine ⟨s₂, rfl, ?_⟩
  rw [Trace.outputs_snoc]
  have hbefore := hs₁ ▸ hI l.target
  cases l with
  | deliver p =>
    have hp := hmem p rfl
    have hnew := Network.notMem_senders hr rfl hp (Status.link_le hT hnot (hI p.src))
    obtain ⟨hchildren, hout⟩ := deliver_rest hrs hbefore (hQ p hp)
      (hT.hears_parent hnot (hQ p hp).1) hnew hs₂
    exact ⟨by rw [hchildren, hids], fun h => absurd hout h⟩
  | ext n e =>
    cases e with
    | request mpkt => exact absurd hc.2.1 hnot
    | periodicExpiry =>
      obtain ⟨hids', hrest⟩ := periodicExpiry_rest hrs hbefore hI' hreset hs₂
      exact ⟨hids'.trans hids, fun _ => hrest⟩
    | pExpiry =>
      obtain ⟨hchildren, hrest⟩ := pExpiry_rest hrs hbefore hc hreset (Except.ok.inj hs₂)
      exact ⟨by rw [hchildren, hids], fun _ => hrest⟩

theorem kept_run (hT : AttestationTree D T nodes)
    (hne : ∀ n rs, nodes n = .relay rs → value D T nodes a n ≠ 0)
    {t : History ι Datagram NodeEvent Action} {s : Network.State ι NodeState Datagram}
    (hr : (D.assign a).network.machine.RunIf (AttestationRound T nodes) (Deployment.start nodes)
      t s) (n : ι) : Kept nodes n (traceOf n t) (s.node n) := by
  refine (Network.nodewise (Kept nodes) (fun _ => True) hr ?_ (by simp) ?_).1 n
  · intro n rs hrs
    exact ⟨rs, hrs, rfl, by simp⟩
  · intro t s l v acts hr hc hK _ hmem hv
    obtain ⟨hI, hQ⟩ := run_status hT hne hr
    obtain ⟨v', acts', hs, hI', -⟩ := round_step hT hne hr hc hI hQ hmem
    have hv' : (D.assign a).step l.target (s.node l.target) l.input = .ok (v, acts) := hv
    rw [hs] at hv'
    cases hv'
    exact ⟨kept_step hT hr hc hI hQ hmem hs hI' (hK l.target), fun _ _ _ _ => trivial⟩

/-- Two assignments of states in which each node is of the same kind. -/
structure SameKinds (nodes nodes' : ι → NodeState) : Prop where
  router : ∀ n, nodes' n = .router ↔ nodes n = .router
  client : ∀ n, IsClient nodes' n ↔ IsClient nodes n
  relay : ∀ n, (∃ rs, nodes' n = .relay rs) ↔ ∃ rs, nodes n = .relay rs

theorem sameKinds_of_status {t : History ι Datagram NodeEvent Action}
    {s : Network.State ι NodeState Datagram}
    (hI : ∀ n, Status D T nodes a n (traceOf n t) (s.node n)) : SameKinds nodes s.node := by
  refine ⟨fun n => ?_, fun n => ?_, fun n => ?_⟩ <;> cases hI n <;> simp [IsClient, *]

omit [DecidableEq ι] in
theorem SameKinds.value_eq {nodes' : ι → NodeState} (h : SameKinds nodes nodes') (a : ι → Checksum)
    (n : ι) : value D T nodes' a n = value D T nodes a n := by
  refine xorOver_congr fun m _ => ?_
  cases hm : nodes m with
  | router => simp [term, hm, (h.router m).2 hm]
  | client cs =>
    obtain ⟨cs', hcs'⟩ := (h.client m).2 ⟨cs, hm⟩
    simp [term, hm, hcs']
  | relay rs =>
    obtain ⟨rs', hrs'⟩ := (h.relay m).2 ⟨rs, hm⟩
    simp [term, hm, hrs']

/-- After a complete round the nodes are ready for another one. -/
theorem next_round (hT : AttestationTree D T nodes)
    (hne : ∀ n rs, nodes n = .relay rs → value D T nodes a n ≠ 0)
    {t : History ι Datagram NodeEvent Action} {s : Network.State ι NodeState Datagram}
    (hr : (D.assign a).network.machine.RunIf (AttestationRound T nodes) (Deployment.start nodes)
      t s) (hcomp : Complete nodes t s) :
    AttestationTree D T s.node ∧ SameKinds nodes s.node := by
  obtain ⟨hI, -⟩ := run_status hT hne hr
  have hkinds := sameKinds_of_status hI
  have hrest : ∀ n rs', s.node n = .relay rs' → ∃ rs, nodes n = .relay rs ∧
      rs'.childList.ids = rs.childList.ids ∧ rs'.curLoc = 0 ∧ rs'.firstChild = true := by
    intro n rs' hrs'
    obtain ⟨rs, hrs⟩ := (hkinds.relay n).1 ⟨rs', hrs'⟩
    obtain ⟨s₁, hs₁, hids, hdone⟩ := kept_run hT hne hr n rs hrs
    rw [hrs'] at hs₁
    cases hs₁
    have hout := (complete_outputs hcomp (hI n) (by rw [hrs]; simp)).2 rs hrs
    obtain ⟨hcur, hfirst⟩ := hdone (by rw [hout]; simp)
    exact ⟨rs, hrs, hids, hcur, hfirst⟩
  refine ⟨⟨fun n => ?_, fun n cs hn => ?_, fun n rs hn => ?_, fun n rs hn => ?_,
    fun n rs hn c hc => ?_, fun n rs hn => ?_, fun n r hcl => ?_⟩, hkinds⟩
  · rw [hkinds.router, hT.router]
  · obtain ⟨cs₀, hcs₀⟩ := (hkinds.client n).1 ⟨cs, hn⟩
    exact hT.client_leaf n cs₀ hcs₀
  · obtain ⟨rs₀, hrs₀, -⟩ := hrest n rs hn
    exact hT.relay_child n rs₀ hrs₀
  · obtain ⟨rs₀, hrs₀, -⟩ := hrest n rs hn
    exact hT.relay_small n rs₀ hrs₀
  · obtain ⟨rs₀, hrs₀, hids, -⟩ := hrest n rs hn
    rw [hids]
    exact hT.relay_listed n rs₀ hrs₀ c hc
  · obtain ⟨-, -, -, hcur, hfirst⟩ := hrest n rs hn
    exact ⟨hcur, hfirst⟩
  · exact hT.hears n r fun h => hcl ((hkinds.client r).2 h)

end AttestationTree

open Deployment (testbedStart OneMulticast SoleRequest log erasure)
open BorderRouter (isAnswer)

namespace Deployment

variable {v w : Nat} {group : List ι} {s₀ : BorderRouter.State w}

omit [Fintype ι] in
/-- A run that leaves nothing in flight ends in a state to start from. -/
theorem restart {C : History ι Payload (StationEvent w) (StationOutput v) →
      Network.State ι (Station w) Payload → Label ι Payload (StationEvent w) → Prop}
    {t : History ι Payload (StationEvent w) (StationOutput v)}
    {s : Network.State ι (Station w) Payload} {root : ι}
    (hr : (D.testbed v group w).machine.RunIf C (testbedStart nodes s₀) t s)
    (hroot : ∀ n, nodes n = .router ↔ n = root) (hquiet : s.flight = []) {nodes' : ι → NodeState}
    (hnode : nodes' = ((erasure v w).state s).node)
    (hrouter : ∀ n, nodes' n = .router ↔ nodes n = .router) :
    ∃ b, s.node root = .router b ∧ s = testbedStart nodes' b := by
  obtain ⟨b, hb, -⟩ := router_run hr ((hroot root).2 rfl)
  refine ⟨b, hb, ?_⟩
  obtain ⟨node, flight⟩ := s
  simp only at hquiet hb
  subst hquiet
  rw [testbedStart]
  congr 1
  funext n
  have hn : nodes' n = (erasure v w).node (node n) := congrFun hnode n
  by_cases hnr : n = root
  · subst hnr
    rw [hb] at hn ⊢
    have hn' : nodes' n = .router := hn
    rw [hn']
  · have hne : nodes' n ≠ .router := fun h => hnr ((hroot n).1 ((hrouter n).1 h))
    cases hs : node n with
    | router b' =>
      rw [hs] at hn
      exact absurd hn hne
    | node u =>
      rw [hs] at hn
      have hu : nodes' n = u := hn
      cases u with
      | router => exact absurd hu hne
      | relay rs | client cs => rw [hu]

end Deployment

namespace AttestationTree

open TopologyTree (line lineTree lineNodes lineRouter lineClient)

/-- A round: the checksums assigned, what happened, and the state it ended in. -/
structure RoundRecord (ι : Type) (v w : Nat) where
  assigned : ι → Checksum
  history : History ι Payload (StationEvent w) (StationOutput v)
  final : Network.State ι (Station w) Payload

/-- Rounds, each from the state in which the one before was over. -/
inductive Campaign (D : Deployment ι) (T : Tree ι) (nodes : ι → NodeState) (group : List ι)
    (v w : Nat) (root : ι) : Network.State ι (Station w) Payload → List (RoundRecord ι v w) →
      Network.State ι (Station w) Payload → Prop where
  | nil (s : Network.State ι (Station w) Payload) : Campaign D T nodes group v w root s [] s
  | cons {s s' : Network.State ι (Station w) Payload} {r : RoundRecord ι v w}
      {rs : List (RoundRecord ι v w)} :
      (∀ n x, nodes n = .relay x → value D T nodes r.assigned n ≠ 0) →
      ((D.assign r.assigned).testbed v group w).machine.RunIf
        (SoleRequest attestation (AttestationRound T nodes)) s r.history r.final →
      Done nodes r.history r.final →
      (log root r.history).filterMap BorderRouter.multicast? ≠ [] →
      Campaign D T nodes group v w root r.final rs s' →
      Campaign D T nodes group v w root s (r :: rs) s'

variable {v w : Nat} {group : List ι} {root : ι} {s₀ : BorderRouter.State w}

omit [Fintype ι] in
/-- Between the border router and the nodes, only the timers are constrained, and not by states. -/
theorem oneMulticast_nodes {nodes' : ι → NodeState}
    {t : History ι Payload (StationEvent w) (StationOutput v)}
    {s : Network.State ι (Station w) Payload} {l : Label ι Payload (StationEvent w)}
    (hc : OneMulticast attestation (AttestationRound T nodes) t s l) :
    OneMulticast attestation (AttestationRound T nodes') t s l := by
  cases l with
  | deliver p => trivial
  | ext n e => cases e <;> exact hc

omit [DecidableEq ι] in
theorem SameKinds.values {nodes' : ι → NodeState} (h : SameKinds nodes nodes')
    (hne : ∀ n x, nodes n = .relay x → value D T nodes a n ≠ 0) :
    ∀ n x, nodes' n = .relay x → value D T nodes' a n ≠ 0 := by
  intro n x hx
  obtain ⟨x₀, hx₀⟩ := (h.relay n).1 ⟨x, hx⟩
  rw [h.value_eq]
  exact hne n x₀ hx₀

/-- What has to be in a log: the aggregates of all children, counted from 1 on. -/
def Shows (D : Deployment ι) (T : Tree ι) (nodes : ι → NodeState) (root : ι) (a : ι → Checksum)
    (l : List (BorderRouter.Output v)) : Prop :=
  ∃ heard : List ι, heard.Nodup ∧ (∀ c, c ∈ heard ↔ T.parent c = some root) ∧
    l.filter isAnswer = (heard.map fun c => .receivedChecksum
      ((value D T nodes a c).setWidth v) (getIdFromAddr (D.addr c))) ∧
    l.filterMap BorderRouter.received? = List.range' 1 heard.length

/-- The log of a round says so of its checksums. -/
def Logged (D : Deployment ι) (T : Tree ι) (nodes : ι → NodeState) (root : ι)
    (r : RoundRecord ι v w) : Prop := Shows D T nodes root r.assigned (log root r.history)

/-- What the border router has handled in a round. -/
def RoundRecord.routerTrace (D : Deployment ι) (root : ι) (r : RoundRecord ι v w) :
    Trace (BorderRouter.Event w) (BorderRouter.Output v) :=
  (D.assign r.assigned).routerTrace (traceOf root r.history)

/-- One round of a campaign. -/
theorem round_logged (hT : AttestationTree D T nodes) (hroot : ∀ n, nodes n = .router ↔ n = root)
    (hg : group.Nodup) (hgroup : ∀ n, n ∈ group ↔ IsClient nodes n) {r : RoundRecord ι v w}
    (hne : ∀ n x, nodes n = .relay x → value D T nodes r.assigned n ≠ 0)
    (hr : ((D.assign r.assigned).testbed v group w).machine.RunIf
      (SoleRequest attestation (AttestationRound T nodes)) (testbedStart nodes s₀) r.history
      r.final)
    (hdone : Done nodes r.history r.final)
    (hown : (log root r.history).filterMap BorderRouter.multicast? ≠ []) :
    Logged D T nodes root r ∧ ∃ nodes' b, r.final = testbedStart nodes' b ∧
      AttestationTree D T nodes' ∧ SameKinds nodes nodes' ∧
      (BorderRouter.machine v w).Run s₀ (r.routerTrace D root) b ∧
      log root r.history = (r.routerTrace D root).outputs := by
  have hone := Deployment.oneMulticast_of_sole hr
  have hrouter := (hroot root).2 rfl
  obtain ⟨heard, hnodup, hchild, hinbox, hall⟩ := heard_children hT hne hg hgroup hone hrouter
  obtain ⟨-, -, -, hcounts⟩ := counts_of_heard hT hne hg hgroup hr hrouter hown hinbox
  refine ⟨⟨heard, hnodup, fun c => ⟨hchild c, hall hdone c⟩, log_of_heard hone hrouter hinbox,
    hcounts⟩, ?_⟩
  obtain ⟨s', hr', hnode, hflight⟩ := Deployment.erased_run hg (fun n hn => (hgroup n).1 hn)
    (roundCondition T nodes) hone
  obtain ⟨hT', hkinds⟩ := next_round hT hne hr' (complete_of_done hg hgroup hone hdone hflight)
  obtain ⟨b, hb, hstart⟩ := Deployment.restart hone hroot hdone.quiet hnode hkinds.router
  obtain ⟨b', hb', hrun, hlog⟩ := Deployment.router_run hone hrouter
  rw [hb] at hb'
  cases hb'
  exact ⟨s'.node, b, hstart, hT', hkinds, hrun, hlog⟩

/-- The rounds of a campaign, from nodes of the same kinds: all are logged, and the border router
has run through them one after the other. -/
theorem rounds (hroot : ∀ n, nodes n = .router ↔ n = root) (hg : group.Nodup)
    (hgroup : ∀ n, n ∈ group ↔ IsClient nodes n) {rs : List (RoundRecord ι v w)}
    {s' : Network.State ι (Station w) Payload} {nodes' : ι → NodeState} {b : BorderRouter.State w}
    (hT' : AttestationTree D T nodes') (hkinds : SameKinds nodes nodes')
    (h : Campaign D T nodes group v w root (testbedStart nodes' b) rs s') :
    (∀ r ∈ rs, Logged D T nodes root r) ∧ ∃ nodes'' b' τ, s' = testbedStart nodes'' b' ∧
      AttestationTree D T nodes'' ∧ SameKinds nodes nodes'' ∧
      (BorderRouter.machine v w).Run b τ b' ∧
      τ.map Prod.fst = rs.flatMap (fun r => (r.routerTrace D root).map Prod.fst) ∧
      τ.outputs = rs.flatMap fun r => log root r.history := by
  induction rs generalizing nodes' b with
  | nil =>
    cases h
    exact ⟨by simp, nodes', b, [], rfl, hT', hkinds, .start, rfl, rfl⟩
  | cons r rs ih =>
    cases h with
    | cons hne hr hdone hown hrest =>
      have hdone' : Done nodes' r.history r.final := by
        refine ⟨hdone.multicast, fun n x hx => ?_, hdone.quiet⟩
        obtain ⟨x₀, hx₀⟩ := (hkinds.relay n).1 ⟨x, hx⟩
        exact hdone.expired n x₀ hx₀
      obtain ⟨⟨heard, hnodup, hiff, hlog, hcounts⟩, nodes'', b', hfinal, hT'', hkinds', hrun,
          hout⟩ :=
        round_logged hT' (fun n => (hkinds.router n).trans (hroot n)) hg
          (fun n => (hgroup n).trans (hkinds.client n).symm) (hkinds.values hne)
          (hr.imp fun _ _ _ hc => ⟨oneMulticast_nodes hc.1, hc.2⟩) hdone' hown
      have hvalue : ∀ c, value D T nodes' r.assigned c = value D T nodes r.assigned c :=
        hkinds.value_eq r.assigned
      simp only [hvalue] at hlog
      rw [hfinal] at hrest
      have hkinds'' : SameKinds nodes nodes'' :=
        ⟨fun n => (hkinds'.router n).trans (hkinds.router n),
          fun n => (hkinds'.client n).trans (hkinds.client n),
          fun n => (hkinds'.relay n).trans (hkinds.relay n)⟩
      obtain ⟨hlogged, n₂, b₂, τ, hend, hT₂, hkinds₂, hτ, hevents, houts⟩ := ih hT'' hkinds'' hrest
      refine ⟨List.forall_mem_cons.2 ⟨⟨heard, hnodup, hiff, hlog, hcounts⟩, hlogged⟩, n₂, b₂,
        r.routerTrace D root ++ τ, hend, hT₂, hkinds₂, hrun.append hτ, ?_, ?_⟩
      · rw [List.map_append, hevents, List.flatMap_cons]
      · rw [Trace.outputs_append, houts, List.flatMap_cons, hout]

/-- A campaign of any number of rounds, each over any interleaving and with any checksums of the
clients: every round logs and counts its own aggregates, whatever the rounds before were, and
another round does not fault. -/
theorem campaign_logged (hT : AttestationTree D T nodes)
    (hroot : ∀ n, nodes n = .router ↔ n = root) (hg : group.Nodup)
    (hgroup : ∀ n, n ∈ group ↔ IsClient nodes n) {rs : List (RoundRecord ι v w)}
    {s' : Network.State ι (Station w) Payload}
    (h : Campaign D T nodes group v w root (testbedStart nodes s₀) rs s') :
    (∀ r ∈ rs, Logged D T nodes root r) ∧
    ∀ a t s l, (∀ n x, nodes n = .relay x → value D T nodes a n ≠ 0) →
      ((D.assign a).testbed v group w).machine.RunIf
        (OneMulticast attestation (AttestationRound T nodes)) s' t s →
      OneMulticast attestation (AttestationRound T nodes) t s l →
      (∀ p ∈ l.packet?, p ∈ s.flight) →
      ∃ r, ((D.assign a).testbed v group w).machine.step s l = .ok r := by
  obtain ⟨hlogged, nodes'', b', τ, rfl, hT'', hkinds, -⟩ := rounds hroot hg hgroup hT
    ⟨fun _ => Iff.rfl, fun _ => Iff.rfl, fun _ => Iff.rfl⟩ h
  refine ⟨hlogged, fun a t s l hne hr hc hmem => ?_⟩
  exact progress hT'' (hkinds.values hne) hg (fun n => (hgroup n).trans (hkinds.client n).symm)
    (hr.imp fun _ _ _ => oneMulticast_nodes) (oneMulticast_nodes hc) hmem

theorem line_root (n : Fin 3) : lineNodes n = .router ↔ n = lineRouter := by
  rcases line_node n with rfl | rfl | rfl
  · exact iff_of_true rfl rfl
  · exact iff_of_false (fun h => by cases h) (by decide)
  · exact iff_of_false (fun h => by cases h) (by decide)

/-- The line after a round. -/
def lineAfter (x : Checksum) : Network.State (Fin 3) (Station 32) Payload :=
  match (lineTestbed x).machine.exec lineStart (lineRound x) with
  | .ok (_, s) => s
  | .error _ => lineStart

/-- Two rounds on the line, with 5 and then 9. -/
theorem line_campaign : ∃ (r r' : RoundRecord (Fin 3) 32 32)
    (s' : Network.State (Fin 3) (Station 32) Payload), r.assigned = lineChecksums 5 ∧
    r'.assigned = lineChecksums 9 ∧
    Campaign line lineTree lineNodes [lineClient] 32 32 lineRouter lineStart [r, r'] s' := by
  obtain ⟨hr, hdone⟩ := lineRound_run lineStart (x := 5) (s := lineAfter 5) rfl rfl
    (List.cons_ne_nil _ _)
  obtain ⟨hr', hdone'⟩ := lineRound_run (lineAfter 5) (x := 9) rfl rfl (List.cons_ne_nil _ _)
  exact ⟨⟨lineChecksums 5, _, _⟩, ⟨lineChecksums 9, _, _⟩, _, rfl, rfl,
    .cons (fun n rs hn => (line_value (by decide) hn).2) hr hdone (List.cons_ne_nil _ _)
      (.cons (fun n rs hn => (line_value (by decide) hn).2) hr' hdone' (List.cons_ne_nil _ _)
        (.nil _))⟩

theorem campaign_logged_line : ∃ (r r' : RoundRecord (Fin 3) 32 32)
    (s' : Network.State (Fin 3) (Station 32) Payload), r.assigned = lineChecksums 5 ∧
    r'.assigned = lineChecksums 9 ∧
    Campaign line lineTree lineNodes [lineClient] 32 32 lineRouter lineStart [r, r'] s' ∧
    Logged line lineTree lineNodes lineRouter r ∧
    Logged line lineTree lineNodes lineRouter r' := by
  obtain ⟨r, r', s', hr, hr', hcamp⟩ := line_campaign
  have hlogged := (campaign_logged line_attestationTree line_root (by simp)
    TopologyTree.line_group hcamp).1
  exact ⟨r, r', s', hr, hr', hcamp, hlogged _ List.mem_cons_self,
    hlogged _ (List.mem_cons_of_mem _ List.mem_cons_self)⟩

end AttestationTree
end Swarna
