import Swarna.Deployment
import Swarna.RelayHistory

/-!
# Swarna.LeafRelays

Relays without children in a network that is still to settle. A relay starts with an empty child
table; when `rpl_timer` expires, `network_settled` fills it, and only a relay whose table stays
empty joins the multicast group. From the start on it hears its neighbours on the checksum port,
and `udp_relay_process` takes what they send there for requests.

* `Step`: what an event makes of a relay without children.
* `no_response_without_request_iff`: such relays answer multicast requests only, and no more than
  they have received, exactly when no `TOPOLOGY` packet is delivered to one of them on the checksum
  port.
* `neighbour_answered`: two leaf relays next to each other.
-/

namespace Swarna

/-- `network_settled`. -/
def Relay.networkSettled (nd : Node) (s : Relay.State) : Except Fault Relay.State :=
  match ChildList.initChildList nd with
  | .error f => .error f
  | .ok c => .ok { s with childList := c }

namespace Settling

open Network (traceOf)

/-! ## The network -/

/-- What happens at a node besides the datagrams of other nodes. -/
inductive Event where
  | node (e : NodeEvent)
  /-- `rpl_timer` expires. -/
  | settle
  deriving DecidableEq, Repr

inductive Fault where
  | node (f : Swarna.Fault)
  /-- A request is heard only in the multicast group. -/
  | notJoined
  /-- `rpl_timer` runs once. -/
  | settledBefore
  deriving DecidableEq, Repr

structure State where
  node : NodeState
  settled : Bool

inductive Role where
  | router
  | relay
  | client
  deriving DecidableEq, Repr

/-- A node at start-up. -/
def boot : Role → State
  | .router => ⟨.router, true⟩
  | .relay => ⟨.relay (Relay.init .empty), false⟩
  | .client => ⟨.client Client.init, true⟩

/-- The node is in the multicast group. -/
def State.joined (v : State) : Bool :=
  match v.node with
  | .relay s => v.settled && Relay.isLeaf s
  | _ => true

/-- The step a node of `Deployment` makes. -/
def State.react (v : State) : Except Swarna.Fault (NodeState × List Action) →
    Except Fault (State × List Action)
  | .error f => .error (.node f)
  | .ok (node, out) => .ok (⟨node, v.settled⟩, out)

variable {ι : Type} (D : Deployment ι)

def step (n : ι) (v : State) : Input ι Datagram Event → Except Fault (State × List Action)
  | .recv src body => v.react (D.step n v.node (.recv src body))
  | .ext (.node (.request mpkt)) =>
    if v.joined then v.react (D.step n v.node (.ext (.request mpkt))) else .error .notJoined
  | .ext (.node e) => v.react (D.step n v.node (.ext e))
  | .ext .settle =>
    match v.node, v.settled with
    | .relay s, false =>
      match Relay.networkSettled (D.node n) s with
      | .error f => .error (.node f)
      | .ok s => .ok (⟨.relay s, true⟩, [])
    | _, _ => .error .settledBefore

def network : Network ι State Datagram Event Action Fault := ⟨step D, D.post⟩

/-- All nodes at start-up. -/
def start (role : ι → Role) : Network.State ι State Datagram := ⟨fun n => boot (role n), []⟩

/-! ## Requests and responses -/

/-- The trace of one node. -/
abbrev NodeHistory (ι : Type) := Trace (Input ι Datagram Event) Action

/-- A `TOPOLOGY` response goes out. -/
def isResponse : Action → Bool
  | .sendToParents (.topology _) _ dst => !dst.isEmpty
  | _ => false

def isRequest : Input ι Datagram Event → Bool
  | .ext (.node (.request _)) => true
  | _ => false

/-- A packet of a neighbour on the checksum port, with the type byte of a topology packet. -/
def isNeighbourTopology : Input ι Datagram Event → Bool
  | .recv _ ⟨.checksum, pkt⟩ => (asRequest pkt).pktType = topology
  | _ => false

theorem isRequest_of_neighbour {x : Input ι Datagram Event} (h : isNeighbourTopology x = true) :
    isRequest x = false := by
  cases x with
  | recv src body => rfl
  | ext e => cases h

def responses (τ : NodeHistory ι) : Nat := τ.outputs.countP isResponse

def requests (τ : NodeHistory ι) : Nat := τ.countP fun x => isRequest x.1

/-- The child table of a relay is empty after `τ`: it is not filled yet, or the relay has no
neighbour of greater rank. -/
def Childless (n : ι) (τ : NodeHistory ι) : Prop :=
  .ext .settle ∉ τ.map Prod.fst ∨ ∀ q ∈ (D.node n).nbrs, ¬ q.rank > (D.node n).rank

/-- While its child table is empty, the relay has never sent more responses than it has received
requests, and no packet of a neighbour on the checksum port makes it send one. -/
structure OnlyOnRequest (n : ι) (τ : NodeHistory ι) : Prop where
  count : ∀ τ₁, τ₁ <+: τ → Childless D n τ₁ → responses τ₁ ≤ requests τ₁
  silent : Whenever (fun x => isNeighbourTopology x.1 = true ∧ x.2.any isResponse = true)
    (fun τ₁ => ¬ Childless D n τ₁) τ

/-- No such packet is delivered to a relay whose child table is empty, unless it has no neighbour to
send to either. -/
def Quiet (role : ι → Role) [DecidableEq ι]
    (t : Network.History ι Datagram Event Action) (_ : Network.State ι State Datagram)
    (l : Network.Label ι Datagram Event) : Prop :=
  role l.target = .relay → isNeighbourTopology l.input = true →
    Childless D l.target (traceOf l.target t) → (D.node l.target).nbrs = []

/-! ## A relay without children -/

/-- No children, and no timer was ever set. -/
structure Unused (s : Relay.State) : Prop where
  children : s.childList.ids = []
  periodicTimer : s.periodicTimer.callback = none
  pTimer : s.pTimer.callback = none

theorem unused_init : Unused (Relay.init .empty) := ⟨rfl, rfl, rfl⟩

theorem Unused.isChild {s : Relay.State} (h : Unused s) (cid : NodeId) :
    s.childList.isChild cid = false := by
  by_contra hc
  have hmem := ChildList.isChild_iff.1 (by simpa using hc)
  rw [h.children] at hmem
  cases hmem

theorem parents_client (nd : Node) : parents nd true = [] ↔ nd.nbrs = [] := by
  simp [parents, rplNeighborIsParent]

/-- A leaf answers what has the type byte of a topology request. -/
theorem mcast_responses (nd : Node) (s : Relay.State) (mpkt : RequestPacket) :
    (Relay.mcastTcpipHandler nd s mpkt).2.countP isResponse =
      if mpkt.pktType = topology ∧ nd.nbrs ≠ [] then 1 else 0 := by
  by_cases ht : mpkt.pktType = topology
  · by_cases hn : nd.nbrs = []
    · have hp := (parents_client nd).2 hn
      simp [Relay.mcastTcpipHandler, Relay.createResponse, ht, hn, sendToParents, isResponse, hp]
    · have hp : parents nd true ≠ [] := fun h => hn ((parents_client nd).1 h)
      simp [Relay.mcastTcpipHandler, Relay.createResponse, ht, hn, sendToParents, isResponse, hp]
  · by_cases ha : mpkt.pktType = attestation
    · simp [Relay.mcastTcpipHandler, Relay.createResponse, ha, isResponse, topology, attestation]
    · simp [Relay.mcastTcpipHandler, Relay.createResponse, ht, ha]

theorem Unused.request {s s' : Relay.State} {nd : Node} {mpkt : RequestPacket} {out : List Action}
    (h : Unused s) (hs : Relay.mcastTcpipHandler nd s mpkt = (s', out)) :
    Unused s' ∧
      out.countP isResponse = if mpkt.pktType = topology ∧ nd.nbrs ≠ [] then 1 else 0 := by
  have hcount := mcast_responses nd s mpkt
  obtain ⟨r, hr⟩ := Relay.mcastTcpipHandler_state nd s mpkt
  rw [hs] at hcount hr
  refine ⟨?_, hcount⟩
  rw [show s' = { s with ctimerResp := r } from hr]
  exact ⟨h.children, h.periodicTimer, h.pTimer⟩

/-- What reaches the response handlers of such a relay sets no timer and sends nothing. -/
theorem Unused.receive {s s' : Relay.State} (h : Unused s) {nd : Node}
    {after : TopologyInfo → TopologyInfo → TopologyInfo} {src : Addr} {pkt : ResponsePkt}
    {out : List Action} (hs : Relay.receive nd after s src pkt = .ok (s', out)) :
    Unused s' ∧ out = [] := by
  cases pkt with
  | topology t =>
    simp only [Relay.receive, Relay.processTopologyReq_stranger (h.isChild _)] at hs
    cases hs
    exact ⟨h, rfl⟩
  | attestation x =>
    by_cases hcur : s.curLoc < maxChild
    · obtain ⟨a, ha, -⟩ := Relay.processAttestationReq_eq x (getIdFromAddr src) hcur
      simp only [Relay.receive, ha] at hs
      cases hs
      have hc := h.isChild (getIdFromAddr src)
      refine ⟨⟨h.children, ?_, h.pTimer⟩, rfl⟩
      simpa [Relay.attested, hc] using h.periodicTimer
    · simp [Relay.receive, Relay.processAttestationReq, Relay.storeChecksum_overflow hcur] at hs
  | other ty =>
    simp only [Relay.receive] at hs
    cases hs
    exact ⟨h, rfl⟩

variable {D}

theorem react_relay {n : ι} {v v' : State} {s : Relay.State} {x : Input ι Datagram NodeEvent}
    {out : List Action} (hv : v.node = .relay s)
    (h : v.react (D.step n v.node x) = .ok (v', out)) :
    ∃ s', Relay.step (D.node n) D.buffers s (D.relayEvent x) = .ok (s', out) ∧
      v' = ⟨.relay s', v.settled⟩ := by
  rw [hv] at h
  simp only [Deployment.step] at h
  cases hs : Relay.step (D.node n) D.buffers s (D.relayEvent x) with
  | error f =>
    rw [hs] at h
    cases h
  | ok r =>
    obtain ⟨s', out'⟩ := r
    rw [hs] at h
    cases h
    exact ⟨s', rfl, rfl⟩

/-- What an event other than the expiry of `rpl_timer` makes of a relay without children: it
answers requests, and what it takes for requests. -/
inductive Step (D : Deployment ι) (n : ι) (settled : Bool) (x : Input ι Datagram Event) (v' : State)
    (out : List Action) : Prop where
  | request (s' : Relay.State) : isRequest x = true → v' = ⟨.relay s', settled⟩ → Unused s' →
      out.countP isResponse ≤ 1 → Step D n settled x v' out
  | neighbour (s' : Relay.State) : isRequest x = false → isNeighbourTopology x = true →
      v' = ⟨.relay s', settled⟩ → Unused s' →
      out.countP isResponse = (if (D.node n).nbrs = [] then 0 else 1) → Step D n settled x v' out
  | silent (s' : Relay.State) : isRequest x = false → isNeighbourTopology x = false →
      v' = ⟨.relay s', settled⟩ → Unused s' → out.countP isResponse = 0 → Step D n settled x v' out

theorem step_unused {n : ι} {v v' : State} {s : Relay.State} {x : Input ι Datagram Event}
    {out : List Action} (hv : v.node = .relay s) (hu : Unused s) (hx : x ≠ .ext .settle)
    (h : step D n v x = .ok (v', out)) : Step D n v.settled x v' out := by
  have hleaf : Relay.isLeaf s = true := Relay.isLeaf_iff.2 hu.children
  cases x with
  | recv src body =>
    obtain ⟨s', hs, rfl⟩ := react_relay hv h
    obtain ⟨port, pkt⟩ := body
    cases port with
    | checksum =>
      simp only [Deployment.relayEvent, Relay.step, hleaf, if_true] at hs
      obtain ⟨hu', hcount⟩ := hu.request (Except.ok.inj hs)
      by_cases ht : (asRequest pkt).pktType = topology
      · refine .neighbour s' rfl (by simpa [isNeighbourTopology] using ht) rfl hu' ?_
        rw [hcount]
        by_cases hn : (D.node n).nbrs = [] <;> simp [ht, hn]
      · refine .silent s' rfl (by simpa [isNeighbourTopology] using ht) rfl hu' ?_
        rw [hcount, if_neg (fun hc => ht hc.1)]
    | broadcast =>
      obtain ⟨hu', rfl⟩ := hu.receive hs
      exact .silent s' rfl rfl rfl hu' rfl
  | ext e =>
    cases e with
    | settle => exact absurd rfl hx
    | node e =>
      cases e with
      | request mpkt =>
        simp only [step] at h
        split at h
        · obtain ⟨s', hs, rfl⟩ := react_relay hv h
          simp only [Deployment.relayEvent, Relay.step, hleaf, if_true] at hs
          obtain ⟨hu', hcount⟩ := hu.request (Except.ok.inj hs)
          refine .request s' rfl rfl hu' ?_
          rw [hcount]
          split <;> omega
        · cases h
      | periodicExpiry =>
        obtain ⟨s', hs, rfl⟩ := react_relay hv h
        rw [Deployment.relayEvent,
          Relay.step_periodicIdle _ _ (CTimer.expire_eq_none hu.periodicTimer)] at hs
        cases hs
        exact .silent _ rfl rfl rfl ⟨hu.children, hu.periodicTimer, hu.pTimer⟩ rfl
      | pExpiry =>
        obtain ⟨s', hs, rfl⟩ := react_relay hv h
        rw [Deployment.relayEvent, Relay.step_pIdle _ _ (CTimer.expire_eq_none hu.pTimer)] at hs
        cases hs
        exact .silent _ rfl rfl rfl ⟨hu.children, hu.periodicTimer, hu.pTimer⟩ rfl

/-- A relay with no neighbour of greater rank has no children after `network_settled` either. -/
theorem networkSettled_unused {nd : Node} {s s' : Relay.State} (hu : Unused s)
    (hn : ∀ q ∈ nd.nbrs, ¬ q.rank > nd.rank) (h : Relay.networkSettled nd s = .ok s') :
    Unused s' := by
  unfold Relay.networkSettled at h
  split at h
  · cases h
  · rename_i c hc
    cases h
    refine ⟨?_, hu.periodicTimer, hu.pTimer⟩
    show c.ids = []
    have hnone : nd.nbrs.filter (fun q => q.rank > nd.rank) = [] := by
      rw [List.filter_eq_nil_iff]
      intro q hq
      simpa using hn q hq
    rw [ChildList.initChildList_ids hc, hnone, List.map_nil]

theorem step_settle {n : ι} {v v' : State} {s : Relay.State} {out : List Action}
    (hv : v.node = .relay s) (h : step D n v (.ext .settle) = .ok (v', out)) :
    ∃ s', Relay.networkSettled (D.node n) s = .ok s' ∧ v' = ⟨.relay s', true⟩ ∧ out = [] := by
  obtain ⟨node, settled⟩ := v
  cases hv
  cases settled with
  | true => cases h
  | false =>
    simp only [step] at h
    split at h
    · cases h
    · rename_i s' hs
      cases h
      exact ⟨s', hs, rfl, rfl⟩

/-! ## Runs -/

theorem childless_of_snoc {n : ι} {τ : NodeHistory ι} {x : Input ι Datagram Event × List Action}
    (h : Childless D n (τ ++ [x])) : Childless D n τ := by
  refine h.imp_left fun hno hmem => hno ?_
  rw [List.map_append]
  exact List.mem_append_left _ hmem

theorem step_isRelay {n : ι} {v v' : State} {s : Relay.State} {x : Input ι Datagram Event}
    {out : List Action} (hv : v.node = .relay s) (h : step D n v x = .ok (v', out)) :
    ∃ s', v'.node = .relay s' := by
  cases x with
  | recv src body =>
    obtain ⟨s', -, rfl⟩ := react_relay hv h
    exact ⟨s', rfl⟩
  | ext e =>
    cases e with
    | settle =>
      obtain ⟨s', -, rfl, -⟩ := step_settle hv h
      exact ⟨s', rfl⟩
    | node e =>
      cases e with
      | request mpkt =>
        simp only [step] at h
        split at h
        · obtain ⟨s', -, rfl⟩ := react_relay hv h
          exact ⟨s', rfl⟩
        · cases h
      | periodicExpiry | pExpiry =>
        obtain ⟨s', -, rfl⟩ := react_relay hv h
        exact ⟨s', rfl⟩

/-- A relay, unused while it has no children. -/
def IsRelay (D : Deployment ι) (n : ι) (τ : NodeHistory ι) (v : State) : Prop :=
  ∃ s, v.node = .relay s ∧ (Childless D n τ → Unused s)

theorem isRelay_step {n : ι} {τ : NodeHistory ι} {v v' : State} {x : Input ι Datagram Event}
    {out : List Action} (hi : IsRelay D n τ v) (h : step D n v x = .ok (v', out)) :
    IsRelay D n (τ ++ [(x, out)]) v' := by
  obtain ⟨s, hv, hs⟩ := hi
  obtain ⟨s', hv'⟩ := step_isRelay hv h
  refine ⟨s', hv', fun hchild => ?_⟩
  have hu := hs (childless_of_snoc hchild)
  by_cases hx : x = .ext .settle
  · subst hx
    obtain ⟨s₁, hset, rfl, -⟩ := step_settle hv h
    cases hv'
    rcases hchild with hno | hranks
    · exact absurd (by simp) hno
    · exact networkSettled_unused hu hranks hset
  · cases step_unused hv hu hx h with
    | request s₁ _ hv₁ hu₁ _ | neighbour s₁ _ _ hv₁ hu₁ _ | silent s₁ _ _ hv₁ hu₁ _ =>
      subst hv₁
      cases hv'
      exact hu₁

theorem onlyOnRequest_nil (n : ι) : OnlyOnRequest D n [] := by
  refine ⟨fun τ₁ h _ => ?_, whenever_nil⟩
  rw [List.prefix_nil.1 h]
  exact Nat.le_refl _

/-- One more step of the relay: the count and the silence are kept when the step sends no more
responses than it takes requests, or the relay has children. -/
theorem OnlyOnRequest.snoc {n : ι} {τ : NodeHistory ι} {x : Input ι Datagram Event}
    {out : List Action} (h : OnlyOnRequest D n τ)
    (hcount : Childless D n τ → out.countP isResponse ≤ if isRequest x then 1 else 0)
    (hsilent : Childless D n τ → isNeighbourTopology x = true → out.any isResponse = false) :
    OnlyOnRequest D n (τ ++ [(x, out)]) := by
  constructor
  · intro τ₁ hτ hchild
    rcases List.prefix_concat_iff.1 hτ with rfl | hτ
    · have hold := h.count τ List.prefix_rfl (childless_of_snoc hchild)
      have hnew := hcount (childless_of_snoc hchild)
      simp only [responses, requests] at hold ⊢
      rw [Trace.outputs_snoc, List.countP_append, List.countP_append]
      simp only [List.countP_singleton]
      omega
    · exact h.count τ₁ hτ hchild
  · refine h.silent.snoc fun hy hchild => ?_
    rw [hsilent hchild hy.1] at hy
    exact Bool.false_ne_true hy.2

variable [DecidableEq ι] {role : ι → Role}
  {C : Network.History ι Datagram Event Action → Network.State ι State Datagram →
    Network.Label ι Datagram Event → Prop}
  {t : Network.History ι Datagram Event Action} {s : Network.State ι State Datagram}

theorem run_isRelay (h : (network D).machine.RunIf C (start role) t s) {n : ι}
    (hn : role n = .relay) : IsRelay D n (traceOf n t) (s.node n) := by
  refine (Network.nodewise (fun n τ v => role n = .relay → IsRelay D n τ v) (fun _ => True) h
    (fun n hn => ?_) (fun _ _ => trivial) ?_).1 n hn
  · show IsRelay D n [] (boot (role n))
    rw [hn]
    exact ⟨_, rfl, fun _ => unused_init⟩
  · intro t s l v acts _ _ hI _ _ hv
    exact ⟨fun hl => isRelay_step (hI _ hl) hv, fun _ _ _ _ => trivial⟩

theorem onlyOnRequest_of_quiet (h : (network D).machine.RunIf (Quiet D role) (start role) t s)
    {n : ι} (hn : role n = .relay) : OnlyOnRequest D n (traceOf n t) := by
  induction h with
  | start => exact onlyOnRequest_nil n
  | @next t s s' l out hr hq hs ih =>
    obtain ⟨v, acts, hv, -, rfl, -, -⟩ := Network.step_inv hs
    by_cases hl : l.target = n
    · subst hl
      obtain ⟨s₁, hv₁, hu⟩ := run_isRelay hr hn
      rw [Network.traceOf_snoc_self]
      -- what the step of a relay without children sends
      have hstep : Childless D l.target (traceOf l.target t) →
          acts.countP isResponse ≤ (if isRequest l.input then 1 else 0) ∧
            (isNeighbourTopology l.input = true → acts.countP isResponse = 0) := by
        intro hchild
        by_cases hx : l.input = .ext .settle
        · rw [hx] at hv
          obtain ⟨-, -, -, rfl⟩ := step_settle hv₁ hv
          exact ⟨Nat.zero_le _, fun _ => rfl⟩
        · cases step_unused hv₁ (hu hchild) hx hv with
          | request s₂ hreq _ _ hcount =>
            refine ⟨by simpa [hreq] using hcount, fun hnt => ?_⟩
            rw [isRequest_of_neighbour hnt] at hreq
            cases hreq
          | neighbour s₂ hreq hnt _ _ hcount =>
            rw [if_pos (hq hn hnt hchild)] at hcount
            rw [hcount]
            exact ⟨Nat.zero_le _, fun _ => rfl⟩
          | silent s₂ _ hnt _ _ hcount =>
            rw [hcount]
            exact ⟨Nat.zero_le _, fun _ => rfl⟩
      refine ih.snoc (fun hchild => (hstep hchild).1) fun hchild hnt => ?_
      exact List.any_eq_false.2 (List.countP_eq_zero.1 ((hstep hchild).2 hnt))
    · rw [Network.traceOf_snoc_ne hl]
      exact ih

theorem no_response_without_request_iff (h : (network D).machine.Run (start role) t s) :
    (∀ n, role n = .relay → OnlyOnRequest D n (traceOf n t)) ↔
      (network D).machine.RunIf (Quiet D role) (start role) t s := by
  refine ⟨fun hall => Machine.runIf_of_run h ?_, fun hq n hn => onlyOnRequest_of_quiet hq hn⟩
  rintro t₁ ⟨l, out⟩ t₂ s₁ rfl h₁ hl hnt hchild
  obtain ⟨s₁', s₂, h₁', -, hstep⟩ := h.split
  cases h₁.unique h₁'
  obtain ⟨v, acts, hv, -, hout, -, -⟩ := Network.step_inv hstep
  obtain ⟨s₃, hv₃, hu⟩ := run_isRelay h₁ hl
  have hsplit : traceOf l.target (t₁ ++ (l, out) :: t₂) =
      traceOf l.target t₁ ++ (l.input, acts) :: traceOf l.target t₂ := by
    rw [show out = acts.map fun o => (l.target, o) from hout]
    exact Network.traceOf_split
  have hquiet : acts.any isResponse ≠ true := fun hany =>
    (hall l.target hl).silent _ _ _ hsplit ⟨hnt, hany⟩ hchild
  have hx : l.input ≠ .ext .settle := by
    intro hx
    rw [hx] at hnt
    cases hnt
  cases step_unused hv₃ (hu hchild) hx hv with
  | request s₄ hreq _ _ _ =>
    rw [isRequest_of_neighbour hnt] at hreq
    cases hreq
  | neighbour s₄ _ _ _ _ hcount =>
    by_contra hn
    rw [if_neg hn] at hcount
    refine hquiet (List.any_eq_true.2 ?_)
    obtain ⟨a, ha, hr⟩ := List.countP_pos_iff.1 (by omega : 0 < acts.countP isResponse)
    exact ⟨a, ha, hr⟩
  | silent s₄ _ hno _ _ _ =>
    show (D.node l.target).nbrs = []
    rw [show isNeighbourTopology l.input = true from hnt] at hno
    cases hno

/-! ## Two leaf relays next to each other -/

def neighbours : Deployment (Fin 2) where
  node
    | 0 => ⟨0, 512, [⟨1, 512⟩]⟩
    | 1 => ⟨1, 512, [⟨0, 512⟩]⟩
  addr n := BitVec.ofNat 128 n
  resolve a := if h : a.toNat < 2 then some ⟨a.toNat, h⟩ else none
  resolve_addr := by decide
  hears _ := []
  attest n seed := attestMemory (BitVec.ofNat 16 n) seed
  buffers := .contiki

def asked : List (Network.Label (Fin 2) Datagram Event) :=
  [.ext 0 .settle, .ext 0 (.node (.request ⟨topology, 0⟩))]

theorem no_response_without_request_asked :
    ∃ t s, (network neighbours).machine.exec (start fun _ => .relay) asked = .ok (t, s) ∧
      responses (traceOf 0 t) = 1 ∧
      (network neighbours).machine.RunIf (Quiet neighbours fun _ => .relay)
        (start fun _ => .relay) t s ∧
      ∀ n, OnlyOnRequest neighbours n (traceOf n t) := by
  obtain ⟨t, s, h, hlabels, hone⟩ :
      ∃ t s, (network neighbours).machine.exec (start fun _ => .relay) asked = .ok (t, s) ∧
        t.map Prod.fst = asked ∧ responses (traceOf 0 t) = 1 := ⟨_, _, rfl, rfl, rfl⟩
  have hr := Machine.run_of_exec h
  have hquiet : (network neighbours).machine.RunIf (Quiet neighbours fun _ => .relay)
      (start fun _ => .relay) t s := by
    refine Machine.runIf_of_run hr ?_
    rintro t₁ x t₂ s₁ rfl - - hnt
    have hx : x.1 ∈ asked := by
      rw [← hlabels]
      simp
    simp only [asked, List.mem_cons, List.not_mem_nil, or_false] at hx
    rcases hx with hx | hx <;> rw [hx] at hnt <;> cases hnt
  exact ⟨t, s, h, hone, hquiet, fun n => (no_response_without_request_iff hr).2 hquiet n rfl⟩

/-- Relay 0 answers a request; its response makes relay 1 answer too. -/
theorem neighbour_answered :
    ∃ t s o, (network neighbours).machine.exec (start fun _ => .relay)
        (asked ++ [.deliver ⟨0, 1, ⟨.checksum, .topology o⟩⟩]) = .ok (t, s) ∧
      Childless neighbours 1 (traceOf 1 t) ∧ requests (traceOf 1 t) = 0 ∧
      responses (traceOf 1 t) = 1 ∧ ¬ OnlyOnRequest neighbours 1 (traceOf 1 t) := by
  obtain ⟨t, s, o, h, hranks, hreq, hresp⟩ :
      ∃ t s o, (network neighbours).machine.exec (start fun _ => .relay)
          (asked ++ [.deliver ⟨0, 1, ⟨.checksum, .topology o⟩⟩]) = .ok (t, s) ∧
        (∀ q ∈ (neighbours.node 1).nbrs, ¬ q.rank > (neighbours.node 1).rank) ∧
        requests (traceOf 1 t) = 0 ∧ responses (traceOf 1 t) = 1 :=
    ⟨_, _, ⟨1, [0], 512, ownChecksum 0⟩, rfl, by decide, rfl, rfl⟩
  refine ⟨t, s, o, h, .inr hranks, hreq, hresp, fun honly => ?_⟩
  have hle := honly.count _ List.prefix_rfl (.inr hranks)
  rw [hreq, hresp] at hle
  omega

end Settling
end Swarna
