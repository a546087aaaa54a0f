import Swarna.TopologyTree

/-!
# Swarna.AttestationTree

The attestation round on a tree. Clients broadcast the checksums assigned to them; a relay collects
its children's broadcasts in any order, combines them when its periodic timer expires, and
broadcasts the result when `p_timer` does.

* `AttestationTree`: relays of up to `maxChild` listed children, each of which hears the broadcasts
  of its own children only.
* `hold_step`: what a relay holds after any of its children were heard.
* `attestation_round`: over every interleaving, no node faults, and what a node broadcasts is the
  XOR over its subtree of the assigned checksums of clients and the own checksums of relays; so it
  does not depend on the order, and one changed client shows at the border router.
-/

namespace Swarna

open Network (traceOf senders)

variable {ι : Type}

/-- A round of deployment `D` from the states `nodes`, on the tree `T`. -/
structure AttestationTree (D : Deployment ι) (T : Tree ι) (nodes : ι → NodeState) [Fintype ι]
    [DecidableEq ι] : Prop where
  router : ∀ n, nodes n = .router ↔ T.parent n = none
  client_leaf : ∀ n s, nodes n = .client s → ∀ c, T.parent c ≠ some n
  relay_child : ∀ n s, nodes n = .relay s → ∃ c, T.parent c = some n
  relay_small : ∀ n s, nodes n = .relay s → (T.children n).card ≤ maxChild
  relay_listed : ∀ n s, nodes n = .relay s → ∀ c, T.parent c = some n →
    getIdFromAddr (D.addr c) ∈ s.childList.ids
  relay_start : ∀ n s, nodes n = .relay s → s.curLoc = 0 ∧ s.firstChild = true
  /-- A broadcast is heard by the parent, once, and by no other relay or router. -/
  hears : ∀ n r, ¬ IsClient nodes r → (D.hears n).count r = if T.parent n = some r then 1 else 0

/-- The deployment with the checksums `a` assigned to its clients. -/
def Deployment.assign (D : Deployment ι) (a : ι → Checksum) : Deployment ι :=
  { D with attest := fun n _ => some (a n) }

theorem Deployment.packets_store (D : Deployment ι) (a : ι → Checksum) (n : ι)
    (pkt : ResponsePkt) : (D.assign a).network.packets n (.storeBroadcast pkt) = [] := rfl

theorem Deployment.packets_broadcast (D : Deployment ι) (a : ι → Checksum) (n : ι)
    (pkt : ResponsePkt) : (D.assign a).network.packets n (.broadcastToParents pkt) =
      (D.hears n).map fun d => ⟨n, d, ⟨.broadcast, pkt⟩⟩ := by
  simp [Network.packets, network, post, assign]

/-- What a node adds to the aggregate. -/
def term (D : Deployment ι) (nodes : ι → NodeState) (a : ι → Checksum) (n : ι) : Checksum :=
  match nodes n with
  | .client _ => a n
  | .relay _ => D.own n
  | .router => D.own n

/-- The aggregate over the subtree of a node. -/
noncomputable def value [Fintype ι] (D : Deployment ι) (T : Tree ι) (nodes : ι → NodeState)
    (a : ι → Checksum) (n : ι) : Checksum := xorOver (T.subtree n) (term D nodes a)

namespace AttestationTree

variable [Fintype ι] {D : Deployment ι} {T : Tree ι} {nodes : ι → NodeState} {a : ι → Checksum}

/-! ## A relay collecting its children's broadcasts -/

/-- What relay `r` holds after the children `hs` were heard. -/
structure Holding (D : Deployment ι) (T : Tree ι) (nodes : ι → NodeState) (a : ι → Checksum)
    (r : ι) (hs : List ι) (s : Relay.State) : Prop where
  curLoc : s.curLoc = hs.length
  sums : xorAll s.checksums = xorAll (hs.map (value D T nodes a))
  isChild : ∀ c, T.parent c = some r → s.childList.isChild (getIdFromAddr (D.addr c)) = true
  firstChild : s.firstChild = hs.isEmpty
  timer : hs ≠ [] → s.periodicTimer = ⟨true, some .sendAttestationResp⟩

/-- One more child's broadcast is stored; the first sets the timer. -/
theorem hold_step (b : Buffers) {r c : ι} {hs : List ι} {s : Relay.State}
    (h : Holding D T nodes a r hs s) (hc : T.parent c = some r)
    (hle : (hs ++ [c]).length ≤ maxChild) :
    ∃ s', Relay.step (D.node r) b s (.broadcast (D.addr c) (.attestation (value D T nodes a c))) =
        .ok (s', []) ∧ Holding D T nodes a r (hs ++ [c]) s' := by
  have hcur : s.curLoc < maxChild := by
    rw [List.length_append, List.length_singleton, ← h.curLoc] at hle
    exact hle
  obtain ⟨arr, hrun, hcs⟩ := Relay.processAttestationReq_eq (value D T nodes a c)
    (getIdFromAddr (D.addr c)) hcur
  refine ⟨Relay.attested s (getIdFromAddr (D.addr c)) arr,
    by simp [Relay.step, Relay.receive, hrun], ?_⟩
  have hchild := h.isChild c hc
  refine ⟨by simp [Relay.attested, h.curLoc], ?_, h.isChild, ?_, fun _ => ?_⟩
  · rw [hcs]
    simp [h.sums]
  · simp [Relay.attested, hchild]
  · simp only [Relay.attested, hchild, h.firstChild, Bool.true_and]
    cases hs with
    | nil => rfl
    | cons d ds => simpa using h.timer (by simp)

/-- How far a node has come, by its trace `τ` and its state `v`. -/
inductive Status (D : Deployment ι) (T : Tree ι) (nodes : ι → NodeState) (a : ι → Checksum)
    (n : ι) (τ : NodeHistory ι) (v : NodeState) : Prop where
  | router : nodes n = .router → τ.outputs = [] → v = .router → Status D T nodes a n τ v
  | waiting {cs cs' : Client.State} : nodes n = .client cs → ¬ Asked τ → τ.outputs = [] →
      v = .client cs' → Status D T nodes a n τ v
  | answered {cs cs' : Client.State} : nodes n = .client cs → Asked τ →
      τ.outputs = [.broadcastToParents (.attestation (value D T nodes a n))] → v = .client cs' →
      Status D T nodes a n τ v
  | holding {rs s : Relay.State} : nodes n = .relay rs → (senders τ).Nodup →
      (∀ d ∈ senders τ, T.parent d = some n) →
      Input.ext .periodicExpiry ∉ τ.map Prod.fst → Input.ext .pExpiry ∉ τ.map Prod.fst →
      τ.outputs = [] → v = .relay s → Holding D T nodes a n (senders τ) s →
      Status D T nodes a n τ v
  | stored {rs s : Relay.State} : nodes n = .relay rs →
      (∀ d, T.parent d = some n → d ∈ senders τ) → Input.ext .pExpiry ∉ τ.map Prod.fst →
      τ.outputs = [.storeBroadcast (.attestation (value D T nodes a n))] → v = .relay s →
      s.periodicTimer.armed = false → s.pTimer = ⟨true, some .broadcastToParents⟩ →
      s.ctimerResp = .attestation (value D T nodes a n) → Status D T nodes a n τ v
  | broadcast {rs s : Relay.State} : nodes n = .relay rs →
      (∀ d, T.parent d = some n → d ∈ senders τ) →
      τ.outputs = [.storeBroadcast (.attestation (value D T nodes a n)),
        .broadcastToParents (.attestation (value D T nodes a n))] → v = .relay s →
      s.periodicTimer.armed = false → s.pTimer.armed = false → Status D T nodes a n τ v

/-- A broadcast of the sender's aggregate, on its way to someone who hears it. -/
def GoodPacket (D : Deployment ι) (T : Tree ι) (nodes : ι → NodeState) (a : ι → Checksum)
    (p : Packet ι Datagram) : Prop :=
  p.dst ∈ D.hears p.src ∧ p.body = ⟨.broadcast, .attestation (value D T nodes a p.src)⟩

/-- What a node posts is nothing but its aggregate, to each node that hears it. -/
theorem Status.posted {n : ι} {τ : NodeHistory ι} {v : NodeState}
    (h : Status D T nodes a n τ v) :
    τ.outputs.flatMap ((D.assign a).network.packets n) = [] ∨
      τ.outputs.flatMap ((D.assign a).network.packets n) = (D.hears n).map fun d =>
        ⟨n, d, ⟨.broadcast, .attestation (value D T nodes a n)⟩⟩ := by
  cases h with
  | router _ ho _ | waiting _ _ ho _ | holding _ _ _ _ _ ho _ _ =>
    left
    rw [ho]
    rfl
  | stored _ _ _ ho _ _ _ _ =>
    left
    rw [ho]
    rfl
  | answered _ _ ho _ =>
    right
    rw [ho]
    simp [Deployment.packets_broadcast]
  | broadcast _ _ ho _ _ _ =>
    right
    rw [ho]
    simp [Deployment.packets_store, Deployment.packets_broadcast]

theorem goodPacket_of_action {n : ι} {act : Action}
    (h : act = .storeBroadcast (.attestation (value D T nodes a n)) ∨
      act = .broadcastToParents (.attestation (value D T nodes a n))) :
    ∀ p ∈ (D.assign a).network.packets n act, GoodPacket D T nodes a p := by
  intro p hp
  rcases h with rfl | rfl
  · cases hp
  · obtain ⟨x, hx, rfl⟩ := List.mem_map.1 hp
    obtain ⟨d, hd, rfl⟩ := List.mem_map.1 hx
    exact ⟨hd, rfl⟩

variable [DecidableEq ι]

theorem holding_start (hT : AttestationTree D T nodes) {r : ι} {s : Relay.State}
    (hr : nodes r = .relay s) : Holding D T nodes a r [] s := by
  obtain ⟨hcur, hfirst⟩ := hT.relay_start r s hr
  exact ⟨hcur, by simp [Relay.State.checksums, hcur],
    fun c hc => ChildList.isChild_iff.2 (hT.relay_listed r s hr c hc), hfirst, by simp⟩

theorem heard_le (hT : AttestationTree D T nodes) {r : ι} {rs : Relay.State}
    (hr : nodes r = .relay rs) {hs : List ι} (hn : hs.Nodup)
    (hhs : ∀ d ∈ hs, T.parent d = some r) : hs.length ≤ maxChild := by
  have hsub : hs.toFinset ⊆ T.children r := fun d hd =>
    Tree.mem_children.2 (hhs d (List.mem_toFinset.1 hd))
  have := Finset.card_le_card hsub
  rw [List.toFinset_card_of_nodup hn] at this
  exact Nat.le_trans this (hT.relay_small r rs hr)

/-- With all children heard, the combined checksum is the aggregate of the subtree. -/
theorem holding_value {r : ι} {rs : Relay.State} (hr : nodes r = .relay rs) {hs : List ι}
    {s : Relay.State} (hn : hs.Nodup) (hall : ∀ c, c ∈ hs ↔ T.parent c = some r)
    (h : Holding D T nodes a r hs s) :
    xorAll s.checksums ^^^ ownChecksum (D.node r).id = value D T nodes a r := by
  have hterm : term D nodes a r = ownChecksum (D.node r).id := by
    simp only [term, hr]
    rfl
  have hset : xorOver (T.children r) (value D T nodes a) =
      xorAll (hs.map (value D T nodes a)) := xorOver_eq hn (by simp [hall]) _
  rw [h.sums, ← hset, value, Tree.xorOver_subtree, hterm, BitVec.xor_comm]
  rfl

/-! ## The round -/

/-- Deliveries, one attestation request for each client, and timers: a relay's periodic timer
expires when all its children were heard, its `p_timer` after that. -/
def AttestationRound (T : Tree ι) (nodes : ι → NodeState)
    (t : Network.History ι Datagram NodeEvent Action)
    (_ : Network.State ι NodeState Datagram) : Network.Label ι Datagram NodeEvent → Prop
  | .deliver _ => True
  | .ext n (.request mpkt) =>
    mpkt.pktType = attestation ∧ IsClient nodes n ∧ ¬ Asked (traceOf n t)
  | .ext n .periodicExpiry => ∀ c, T.parent c = some n → c ∈ senders (traceOf n t)
  | .ext n .pExpiry => Input.ext .periodicExpiry ∈ (traceOf n t).map Prod.fst

theorem status_start (hT : AttestationTree D T nodes) (n : ι) :
    Status D T nodes a n [] (nodes n) := by
  cases hn : nodes n with
  | router => exact .router hn rfl rfl
  | client cs => exact .waiting hn (by simp [Asked]) rfl rfl
  | relay rs =>
    exact .holding hn (by simp [senders]) (by simp [senders]) (by simp) (by simp) rfl rfl
      (hT.holding_start hn)

theorem hears_parent (hT : AttestationTree D T nodes) {n r : ι} (hr : ¬ IsClient nodes r)
    (h : r ∈ D.hears n) : T.parent n = some r := by
  have hcount := hT.hears n r hr
  by_contra hne
  rw [if_neg hne, List.count_eq_zero] at hcount
  exact hcount h

omit [DecidableEq ι] in
/-- Broadcasts and timers change nothing at the border router and at clients. -/
theorem Status.bystander {n : ι} {τ : NodeHistory ι} {v : NodeState}
    {x : Input ι Datagram NodeEvent} (h : Status D T nodes a n τ v)
    (hn : ∀ rs, nodes n ≠ .relay rs) (hx : (∃ src pkt, x = .recv src ⟨.broadcast, pkt⟩) ∨
      x = .ext .periodicExpiry ∨ x = .ext .pExpiry) :
    (D.assign a).step n v x = .ok (v, []) ∧ Status D T nodes a n (τ ++ [(x, [])]) v := by
  have hasked : Asked (τ ++ [(x, [])]) ↔ Asked τ := by
    rcases hx with ⟨src, pkt, rfl⟩ | rfl | rfl <;> simp [Asked]
  have hclient : ∀ s, (D.assign a).step n (.client s) x = .ok (.client s, []) := by
    intro s
    rcases hx with ⟨src, pkt, rfl⟩ | rfl | rfl <;> rfl
  cases h with
  | router hn' ho hv =>
    subst hv
    exact ⟨rfl, .router hn' (by simp [ho]) rfl⟩
  | waiting hn' hnot ho hv =>
    subst hv
    exact ⟨hclient _, .waiting hn' (by rwa [hasked]) (by simp [ho]) rfl⟩
  | answered hn' hyes ho hv =>
    subst hv
    exact ⟨hclient _, .answered hn' (by rwa [hasked]) (by simp [ho]) rfl⟩
  | holding hn' _ _ _ _ _ _ _ | stored hn' _ _ _ _ _ _ _ | broadcast hn' _ _ _ _ _ =>
    exact absurd hn' (hn _)

theorem deliver_step (hT : AttestationTree D T nodes) {p : Packet ι Datagram}
    {τ : NodeHistory ι} {v : NodeState} (hgood : GoodPacket D T nodes a p)
    (hnew : ¬ IsClient nodes p.dst → p.src ∉ senders τ) (h : Status D T nodes a p.dst τ v) :
    ∃ v', (D.assign a).step p.dst v (.recv p.src p.body) = .ok (v', []) ∧
      Status D T nodes a p.dst (τ ++ [(.recv p.src p.body, [])]) v' := by
  obtain ⟨src, r, body⟩ := p
  obtain ⟨hhear, hbody⟩ := hgood
  simp only at hhear hbody hnew h ⊢
  subst hbody
  have hsnoc : senders (τ ++ [(.recv src ⟨.broadcast, .attestation (value D T nodes a src)⟩, [])]) =
      senders τ ++ [src] := by simp [senders]
  have hrelay : ∀ {rs}, nodes r = .relay rs → ¬ IsClient nodes r := by
    rintro rs hn ⟨cs, hcs⟩
    rw [hn] at hcs
    cases hcs
  have hbystander := fun hn => h.bystander hn
    (.inl ⟨src, .attestation (value D T nodes a src), rfl⟩)
  cases h with
  | router hn _ _ | waiting hn _ _ _ | answered hn _ _ _ =>
    exact ⟨v, hbystander fun rs hrs => by rw [hn] at hrs; cases hrs⟩
  | stored hn hall _ _ _ _ _ _ | broadcast hn hall _ _ _ _ =>
    -- all children were heard, and this is the first packet of its sender
    exact absurd (hall src (hT.hears_parent (hrelay hn) hhear)) (hnew (hrelay hn))
  | @holding rs s hn hnodup hhs hexp hpexp ho hv hold =>
    subst hv
    have hparent := hT.hears_parent (hrelay hn) hhear
    have hnodup' := nodup_snoc hnodup (hnew (hrelay hn))
    have hhs' : ∀ d ∈ senders τ ++ [src], T.parent d = some r := by
      intro d hd
      rcases List.mem_append.1 hd with hd | hd
      · exact hhs d hd
      · rw [List.mem_singleton.1 hd]
        exact hparent
    obtain ⟨s', hstep, hold'⟩ := hold_step (D.assign a).buffers hold hparent
      (hT.heard_le hn hnodup' hhs')
    have hstep' : Relay.step ((D.assign a).node r) (D.assign a).buffers s
        (.broadcast ((D.assign a).addr src) (.attestation (value D T nodes a src))) =
          .ok (s', []) := hstep
    refine ⟨.relay s', Deployment.step_relay hstep', ?_⟩
    exact .holding hn (by rwa [hsnoc]) (by rwa [hsnoc]) (by simpa using hexp) (by simpa using hpexp)
      (by simp [ho]) rfl (by rwa [hsnoc])

theorem request_step {n : ι} {τ : NodeHistory ι} {v : NodeState} {mpkt : RequestPacket}
    (hT : AttestationTree D T nodes) (hm : mpkt.pktType = attestation) (hcl : IsClient nodes n)
    (hnot : ¬ Asked τ) (h : Status D T nodes a n τ v) :
    ∃ v' act, (D.assign a).step n v (.ext (.request mpkt)) = .ok (v', [act]) ∧
      act = .broadcastToParents (.attestation (value D T nodes a n)) ∧
      Status D T nodes a n (τ ++ [(.ext (.request mpkt), [act])]) v' := by
  obtain ⟨cs₀, hn⟩ := hcl
  cases h with
  | @waiting _ cs _ _ ho hv =>
    subst hv
    have hvalue : value D T nodes a n = a n := by
      simp only [value, Tree.subtree_leaf (hT.client_leaf n cs₀ hn), xorOver_singleton, term, hn]
    have htype : ¬ mpkt.pktType = topology := by
      rw [hm]
      decide
    have hseed : ¬ attestation = topology := by decide
    have hstep : (D.assign a).step n (.client cs) (.ext (.request mpkt)) =
        .ok (.client { cs with checksum := a n, ctimerResp := .attestation (a n) },
          [.broadcastToParents (.attestation (a n))]) := by
      simp [Deployment.step, Deployment.clientEvent, Client.step, Client.tcpipHandler,
        Client.createResponse, Deployment.assign, hm, hseed]
    refine ⟨_, _, hstep, by rw [hvalue], .answered hn ?_ ?_ rfl⟩
    · exact ⟨_, List.mem_append_right _ (List.mem_singleton_self _), mpkt, rfl⟩
    · simp [ho, hvalue]
  | answered _ hyes _ _ => exact absurd hyes hnot
  | router hn' _ _ | holding hn' _ _ _ _ _ _ _ | stored hn' _ _ _ _ _ _ _
    | broadcast hn' _ _ _ _ _ =>
    rw [hn] at hn'
    cases hn'

/-- The periodic timer, with all children heard, stores the aggregate for broadcast. -/
theorem periodic_step {n : ι} {τ : NodeHistory ι} {v : NodeState} (hT : AttestationTree D T nodes)
    (hne : ∀ n rs, nodes n = .relay rs → value D T nodes a n ≠ 0)
    (hall : ∀ c, T.parent c = some n → c ∈ senders τ) (h : Status D T nodes a n τ v) :
    ∃ v' acts, (D.assign a).step n v (.ext .periodicExpiry) = .ok (v', acts) ∧
      (∀ act ∈ acts, act = .storeBroadcast (.attestation (value D T nodes a n))) ∧
      Status D T nodes a n (τ ++ [(.ext .periodicExpiry, acts)]) v' := by
  have hsnoc : ∀ acts : List Action,
      senders (τ ++ [(.ext .periodicExpiry, acts)]) = senders τ := fun acts => by simp [senders]
  have hp : ∀ acts : List Action, Input.ext NodeEvent.pExpiry ∉ τ.map Prod.fst →
      Input.ext NodeEvent.pExpiry ∉
        (τ ++ [(Input.ext NodeEvent.periodicExpiry, acts)]).map Prod.fst :=
    fun acts h => by simpa using h
  have hbystander := fun hn => h.bystander hn (.inr (.inl rfl))
  cases h with
  | router hn _ _ | waiting hn _ _ _ | answered hn _ _ _ =>
    obtain ⟨hs, hstatus⟩ := hbystander fun rs hrs => by rw [hn] at hrs; cases hrs
    exact ⟨v, [], hs, by simp, hstatus⟩
  | @holding rs s hn hnodup hhs hexp hpexp ho hv hold =>
    subst hv
    obtain ⟨c, hc⟩ := hT.relay_child n rs hn
    have htimer := hold.timer (List.ne_nil_of_mem (hall c hc))
    have hx : s.periodicTimer.expire.1 = some .sendAttestationResp :=
      CTimer.expire_eq_some.2 (by rw [htimer]; exact ⟨rfl, rfl⟩)
    have hvalue := holding_value hn hnodup (fun c => ⟨hhs c, hall c⟩) hold
    have hcur : s.curLoc ≤ maxChild := by
      rw [hold.curLoc]
      exact hT.heard_le hn hnodup hhs
    have hstep := Relay.step_periodicAttestation (b := (D.assign a).buffers) hcur hx
      (hvalue ▸ hne n rs hn)
    rw [hvalue] at hstep
    have hstep' : ∃ s', Relay.step ((D.assign a).node n) (D.assign a).buffers s .periodicExpiry =
        .ok (s', [.storeBroadcast (.attestation (value D T nodes a n))]) ∧
        s'.periodicTimer.armed = false ∧ s'.pTimer = ⟨true, some .broadcastToParents⟩ ∧
        s'.ctimerResp = .attestation (value D T nodes a n) := ⟨_, hstep, rfl, rfl, rfl⟩
    obtain ⟨s', hs', harmed, hpt, hresp⟩ := hstep'
    refine ⟨.relay s', _, Deployment.step_relay hs', by simp, ?_⟩
    exact .stored hn (by rwa [hsnoc]) (hp _ hpexp) (by simp [ho]) rfl harmed hpt hresp
  | @stored rs s hn hall' hpexp ho hv harmed hpt hresp =>
    subst hv
    have hs' := Relay.step_periodicIdle ((D.assign a).node n) (D.assign a).buffers
      (CTimer.expire_unarmed harmed)
    refine ⟨_, [], Deployment.step_relay hs', by simp, ?_⟩
    exact .stored hn (by rwa [hsnoc]) (hp _ hpexp) (by simp [ho]) rfl rfl hpt hresp
  | @broadcast rs s hn hall' ho hv harmed hparmed =>
    subst hv
    have hs' := Relay.step_periodicIdle ((D.assign a).node n) (D.assign a).buffers
      (CTimer.expire_unarmed harmed)
    refine ⟨_, [], Deployment.step_relay hs', by simp, ?_⟩
    exact .broadcast hn (by rwa [hsnoc]) (by simp [ho]) rfl rfl hparmed

omit [DecidableEq ι] in
/-- `p_timer`, once the aggregate is stored, broadcasts it. -/
theorem pExpiry_step {n : ι} {τ : NodeHistory ι} {v : NodeState}
    (hexpired : Input.ext .periodicExpiry ∈ τ.map Prod.fst) (h : Status D T nodes a n τ v) :
    ∃ v' acts, (D.assign a).step n v (.ext .pExpiry) = .ok (v', acts) ∧
      (∀ act ∈ acts, act = .broadcastToParents (.attestation (value D T nodes a n))) ∧
      Status D T nodes a n (τ ++ [(.ext .pExpiry, acts)]) v' := by
  have hsnoc : ∀ acts : List Action, senders (τ ++ [(.ext .pExpiry, acts)]) = senders τ :=
    fun acts => by simp [senders]
  have hbystander := fun hn => h.bystander hn (.inr (.inr rfl))
  cases h with
  | router hn _ _ | waiting hn _ _ _ | answered hn _ _ _ =>
    obtain ⟨hs, hstatus⟩ := hbystander fun rs hrs => by rw [hn] at hrs; cases hrs
    exact ⟨v, [], hs, by simp, hstatus⟩
  | holding _ _ _ hexp _ _ _ _ => exact absurd hexpired hexp
  | @stored rs s hn hall hpexp ho hv harmed hpt hresp =>
    subst hv
    have hx : s.pTimer.expire.1 = some .broadcastToParents :=
      CTimer.expire_eq_some.2 (by rw [hpt]; exact ⟨rfl, rfl⟩)
    have hs' := Relay.step_pBroadcast ((D.assign a).node n) (D.assign a).buffers hx
    rw [hresp] at hs'
    refine ⟨_, _, Deployment.step_relay hs', by simp, ?_⟩
    exact .broadcast hn (by rwa [hsnoc]) (by simp [ho]) rfl harmed rfl
  | @broadcast rs s hn hall ho hv harmed hparmed =>
    subst hv
    have hs' := Relay.step_pIdle ((D.assign a).node n) (D.assign a).buffers
      (CTimer.expire_unarmed hparmed)
    refine ⟨_, [], Deployment.step_relay hs', by simp, ?_⟩
    exact .broadcast hn (by rwa [hsnoc]) (by simp [ho]) rfl harmed rfl

/-- To a relay or router a node has sent its aggregate at most once. -/
theorem Status.link_le (hT : AttestationTree D T nodes) {n r : ι} {τ : NodeHistory ι}
    {v : NodeState} (hr : ¬ IsClient nodes r) (h : Status D T nodes a n τ v) :
    (Network.link n r (τ.outputs.flatMap ((D.assign a).network.packets n))).length ≤ 1 := by
  rcases h.posted with ho | ho <;> rw [ho]
  · simp [Network.link]
  · have hcount : (Network.link n r ((D.hears n).map fun d =>
        (⟨n, d, ⟨.broadcast, .attestation (value D T nodes a n)⟩⟩ : Packet ι Datagram))).length =
        (D.hears n).count r := by
      rw [Network.link, List.filter_map, List.length_map, List.count, List.countP_eq_length_filter]
      refine congrArg List.length (List.filter_congr fun d _ => ?_)
      simp [beq_eq_decide]
    rw [hcount, hT.hears n r hr]
    split <;> omega

/-- One step of the round: it does not fault, and keeps the status of the node and the goodness of
the packets. -/
theorem round_step (hT : AttestationTree D T nodes)
    (hne : ∀ n rs, nodes n = .relay rs → value D T nodes a n ≠ 0)
    {t : Network.History ι Datagram NodeEvent Action} {s : Network.State ι NodeState Datagram}
    {l : Network.Label ι Datagram NodeEvent}
    (hr : (D.assign a).network.machine.RunIf (AttestationRound T nodes) (Deployment.start nodes) t
      s)
    (hc : AttestationRound T nodes t s l)
    (hI : ∀ n, Status D T nodes a n (traceOf n t) (s.node n))
    (hQ : ∀ p ∈ s.flight, GoodPacket D T nodes a p) (hmem : ∀ p ∈ l.packet?, p ∈ s.flight) :
    ∃ v acts, (D.assign a).step l.target (s.node l.target) l.input = .ok (v, acts) ∧
      Status D T nodes a l.target (traceOf l.target t ++ [(l.input, acts)]) v ∧
      ∀ act ∈ acts, ∀ p ∈ (D.assign a).network.packets l.target act, GoodPacket D T nodes a p := by
  cases l with
  | deliver p =>
    have hp : p ∈ s.flight := hmem p rfl
    obtain ⟨v', hs, hstatus⟩ := deliver_step hT (hQ p hp)
      (fun hcl => Network.notMem_senders hr rfl hp (Status.link_le hT hcl (hI p.src))) (hI p.dst)
    exact ⟨v', [], hs, hstatus, by simp⟩
  | ext n e =>
    cases e with
    | request mpkt =>
      obtain ⟨hm, hcl, hnot⟩ := hc
      obtain ⟨v', act, hs, hact, hstatus⟩ := request_step hT hm hcl hnot (hI n)
      refine ⟨v', [act], hs, hstatus, fun x hx => goodPacket_of_action (.inr ?_)⟩
      rw [List.mem_singleton.1 hx]
      exact hact
    | periodicExpiry =>
      obtain ⟨v', acts, hs, hacts, hstatus⟩ := periodic_step hT hne hc (hI n)
      exact ⟨v', acts, hs, hstatus, fun x hx => goodPacket_of_action (.inl (hacts x hx))⟩
    | pExpiry =>
      obtain ⟨v', acts, hs, hacts, hstatus⟩ := pExpiry_step hc (hI n)
      exact ⟨v', acts, hs, hstatus, fun x hx => goodPacket_of_action (.inr (hacts x hx))⟩

theorem run_status (hT : AttestationTree D T nodes)
    (hne : ∀ n rs, nodes n = .relay rs → value D T nodes a n ≠ 0)
    {t : Network.History ι Datagram NodeEvent Action} {s : Network.State ι NodeState Datagram}
    (hr : (D.assign a).network.machine.RunIf (AttestationRound T nodes) (Deployment.start nodes)
      t s) :
    (∀ n, Status D T nodes a n (traceOf n t) (s.node n)) ∧
      ∀ p ∈ s.flight, GoodPacket D T nodes a p := by
  refine Network.nodewise (Status D T nodes a) (GoodPacket D T nodes a) hr hT.status_start
    (by simp [Deployment.start]) ?_
  intro t s l v acts hr hc hI hQ hmem hv
  obtain ⟨v', acts', hs, hstatus, hpost⟩ := round_step hT hne hr hc hI hQ hmem
  have hv' : (D.assign a).step l.target (s.node l.target) l.input = .ok (v, acts) := hv
  rw [hs] at hv'
  cases hv'
  exact ⟨hstatus, hpost⟩

omit [DecidableEq ι] in
theorem Status.outputs_eq {n : ι} {τ : NodeHistory ι} {v : NodeState}
    (h : Status D T nodes a n τ v) {x : ResponsePkt} (hx : .broadcastToParents x ∈ τ.outputs) :
    x = .attestation (value D T nodes a n) := by
  cases h with
  | router _ ho _ | waiting _ _ ho _ | holding _ _ _ _ _ ho _ _ | stored _ _ _ ho _ _ _ _ =>
    simp [ho] at hx
  | answered _ _ ho _ | broadcast _ _ ho _ _ _ => simpa [ho] using hx

/-- The aggregate of a subtree changes with the checksum of one of its clients. -/
theorem value_ne {a' : ι → Checksum} {m n : ι} (hm : IsClient nodes m) (hdiff : a m ≠ a' m)
    (hsame : ∀ n, n ≠ m → a n = a' n) (hmem : m ∈ T.subtree n) :
    value D T nodes a n ≠ value D T nodes a' n := by
  obtain ⟨cs, hcs⟩ := hm
  refine xorOver_ne hmem ?_ fun x _ hx => ?_
  · simpa only [term, hcs] using hdiff
  · simp only [term, hsame x hx]

/-- Every client was asked, every relay's `p_timer` expired, nothing is in flight. -/
structure Complete (nodes : ι → NodeState) (t : Network.History ι Datagram NodeEvent Action)
    (s : Network.State ι NodeState Datagram) : Prop where
  asked : ∀ n, IsClient nodes n → Asked (traceOf n t)
  expired : ∀ n rs, nodes n = .relay rs → Input.ext .pExpiry ∈ (traceOf n t).map Prod.fst
  quiet : s.flight = []

/-- What a node has broadcast once the round is complete. -/
theorem complete_outputs {t : Network.History ι Datagram NodeEvent Action}
    {s : Network.State ι NodeState Datagram} (hcomp : Complete nodes t s) {n : ι}
    {v : NodeState} (h : Status D T nodes a n (traceOf n t) v) (hn : nodes n ≠ .router) :
    (traceOf n t).outputs.flatMap ((D.assign a).network.packets n) = ((D.hears n).map fun d =>
        ⟨n, d, ⟨.broadcast, .attestation (value D T nodes a n)⟩⟩) ∧
      ∀ rs, nodes n = .relay rs →
        (traceOf n t).outputs = [.storeBroadcast (.attestation (value D T nodes a n)),
          .broadcastToParents (.attestation (value D T nodes a n))] := by
  cases h with
  | router hn' _ _ => exact absurd hn' hn
  | waiting hn' hnot _ _ => exact absurd (hcomp.asked n ⟨_, hn'⟩) hnot
  | answered hn' _ ho _ =>
    refine ⟨?_, fun rs hr => by rw [hn'] at hr; cases hr⟩
    rw [ho]
    simp [Deployment.packets_broadcast]
  | holding hn' _ _ _ hpexp _ _ _ | stored hn' _ hpexp _ _ _ _ _ =>
    exact absurd (hcomp.expired n _ hn') hpexp
  | broadcast hn' _ ho _ _ _ =>
    refine ⟨?_, fun rs _ => ho⟩
    rw [ho]
    simp [Deployment.packets_store, Deployment.packets_broadcast]

/-- What the border router has heard of a child once the round is complete. -/
theorem complete_heard (hT : AttestationTree D T nodes)
    (hne : ∀ n rs, nodes n = .relay rs → value D T nodes a n ≠ 0)
    {t : Network.History ι Datagram NodeEvent Action} {s : Network.State ι NodeState Datagram}
    (hr : (D.assign a).network.machine.RunIf (AttestationRound T nodes) (Deployment.start nodes)
      t s) (hcomp : Complete nodes t s) {root top : ι} (hroot : nodes root = .router)
    (htop : T.parent top = some root) (body : Datagram) :
    .recv top body ∈ (traceOf root t).map Prod.fst ↔
      body = ⟨.broadcast, .attestation (value D T nodes a top)⟩ := by
  have hnot : nodes top ≠ .router := by
    intro he
    rw [(hT.router top).1 he] at htop
    cases htop
  have hears : root ∈ D.hears top := by
    rw [← List.count_pos_iff, hT.hears top root (by rintro ⟨cs, hcs⟩; rw [hroot] at hcs; cases hcs),
      if_pos htop]
    exact Nat.one_pos
  rw [Network.recv_iff_posted hr rfl hcomp.quiet,
    (complete_outputs hcomp ((run_status hT hne hr).1 top) hnot).1, List.mem_map]
  constructor
  · rintro ⟨d, -, he⟩
    cases he
    rfl
  · rintro rfl
    exact ⟨root, hears, rfl⟩

theorem attestation_round (hT : AttestationTree D T nodes)
    (hne : ∀ n rs, nodes n = .relay rs → value D T nodes a n ≠ 0)
    {t : Network.History ι Datagram NodeEvent Action} {s : Network.State ι NodeState Datagram}
    (hr : (D.assign a).network.machine.RunIf (AttestationRound T nodes) (Deployment.start nodes)
      t s) :
    (∀ l, AttestationRound T nodes t s l → (∀ p ∈ l.packet?, p ∈ s.flight) →
      ∃ r, (D.assign a).network.machine.step s l = .ok r) ∧
    (∀ n rs, nodes n = .relay rs → ∀ x,
      .broadcastToParents x ∈ (traceOf n t).outputs → x = .attestation (value D T nodes a n)) ∧
    (Complete nodes t s → ∀ n rs, nodes n = .relay rs →
      (traceOf n t).outputs = [.storeBroadcast (.attestation (value D T nodes a n)),
        .broadcastToParents (.attestation (value D T nodes a n))]) ∧
    ∀ a' m, IsClient nodes m → a m ≠ a' m → (∀ n, n ≠ m → a n = a' n) →
      (∀ n rs, nodes n = .relay rs → value D T nodes a' n ≠ 0) →
      ∀ t' s', (D.assign a').network.machine.RunIf (AttestationRound T nodes)
        (Deployment.start nodes) t' s' → Complete nodes t s → Complete nodes t' s' →
      ∀ root top, nodes root = .router → T.parent top = some root → m ∈ T.subtree top →
        ∃ x x', x ≠ x' ∧
          (∀ body, .recv top body ∈ (traceOf root t).map Prod.fst ↔
            body = ⟨.broadcast, .attestation x⟩) ∧
          ∀ body, .recv top body ∈ (traceOf root t').map Prod.fst ↔
            body = ⟨.broadcast, .attestation x'⟩ := by
  obtain ⟨hI, hQ⟩ := run_status hT hne hr
  refine ⟨fun l hc hmem => ?_, fun n rs hn x hx => ?_, fun hcomp n rs hn => ?_, ?_⟩
  · obtain ⟨v, acts, hs, -⟩ := round_step hT hne hr hc hI hQ hmem
    exact Network.step_of_node hmem hs
  · exact (hI n).outputs_eq hx
  · exact (complete_outputs hcomp (hI n) (by rw [hn]; simp)).2 rs hn
  · intro a' m hm hdiff hsame hne' t' s' hr' hcomp hcomp' root top hroot htop hmem
    exact ⟨value D T nodes a top, value D T nodes a' top, value_ne hm hdiff hsame hmem,
      complete_heard hT hne hr hcomp hroot htop, complete_heard hT hne' hr' hcomp' hroot htop⟩

open TopologyTree (Fork fork forkTree forkNodes fork_topologyTree line lineTree lineNodes lineRouter
  lineRelay lineClient line_topologyTree)

theorem line_attestationTree : AttestationTree line lineTree lineNodes where
  router := line_topologyTree.router
  client_leaf := line_topologyTree.client_leaf
  relay_child := line_topologyTree.relay_child
  relay_small n s _ := (Finset.card_le_univ _).trans (by decide)
  relay_listed n s h := match n with
    | 0 | 2 => by cases h
    | 1 => by cases h; decide
  relay_start n s h := match n with
    | 0 | 2 => by cases h
    | 1 => by cases h; exact ⟨rfl, rfl⟩
  hears n r hr := match r with
    | 0 | 1 => match n with
      | 0 | 1 | 2 => by decide
    | 2 => absurd ⟨_, rfl⟩ hr

def lineChecksums (x : Checksum) : Fin 3 → Checksum := fun n => if n = lineClient then x else 0

theorem line_value {x : Checksum} (hx : ownChecksum 1 ^^^ x ≠ 0) {n : Fin 3} {rs : Relay.State}
    (hn : lineNodes n = .relay rs) :
    value line lineTree lineNodes (lineChecksums x) n = ownChecksum 1 ^^^ x ∧
      value line lineTree lineNodes (lineChecksums x) n ≠ 0 := by
  have hchildren : lineTree.children 1 = {2} := by decide
  have hleaf : lineTree.subtree 2 = {2} := Tree.subtree_leaf (by decide)
  have hvalue : value line lineTree lineNodes (lineChecksums x) 1 = ownChecksum 1 ^^^ x := by
    rw [value, Tree.xorOver_subtree, hchildren, xorOver_singleton, hleaf, xorOver_singleton]
    rfl
  match n with
  | 0 | 2 => cases hn
  | 1 => exact ⟨hvalue, hvalue ▸ hx⟩

theorem line_node (n : Fin 3) : n = lineRouter ∨ n = lineRelay ∨ n = lineClient := by
  decide +revert

/-! ## A relay with two clients -/

theorem fork_attestationTree : AttestationTree fork forkTree forkNodes where
  router := fork_topologyTree.router
  client_leaf := fork_topologyTree.client_leaf
  relay_child := fork_topologyTree.relay_child
  relay_small n s _ := (Finset.card_le_univ _).trans (by decide)
  relay_listed n s h := by
    cases n with
    | router | left | right => cases h
    | relay =>
      cases h
      decide
  relay_start n s h := by
    cases n with
    | router | left | right => cases h
    | relay =>
      cases h
      exact ⟨rfl, rfl⟩
  hears n r hr := by
    cases r with
    | router | relay => cases n <;> decide
    | left | right => exact absurd ⟨_, rfl⟩ hr

/-- `left` computes `x`, and `right` 6. -/
def forkChecksums (x : Checksum) (n : Fork) : Checksum :=
  if n = .left then x else if n = .right then 6 else 0

theorem fork_value {x : Checksum} (hx : ownChecksum 1 ^^^ (x ^^^ 6) ≠ 0) {n : Fork}
    {rs : Relay.State} (hn : forkNodes n = .relay rs) :
    value fork forkTree forkNodes (forkChecksums x) n = ownChecksum 1 ^^^ (x ^^^ 6) ∧
      value fork forkTree forkNodes (forkChecksums x) n ≠ 0 := by
  have hchildren : forkTree.children .relay = {.left, .right} := by decide
  have hleft : forkTree.subtree .left = {.left} := Tree.subtree_leaf (by decide)
  have hright : forkTree.subtree .right = {.right} := Tree.subtree_leaf (by decide)
  have hvalue : value fork forkTree forkNodes (forkChecksums x) .relay =
      ownChecksum 1 ^^^ (x ^^^ 6) := by
    rw [value, Tree.xorOver_subtree, hchildren, xorOver_insert (by decide), xorOver_singleton,
      hleft, hright, xorOver_singleton, xorOver_singleton]
    rfl
  cases n with
  | router | left | right => cases hn
  | relay => exact ⟨hvalue, hvalue ▸ hx⟩

/-- The timer may expire once both clients are heard. -/
theorem fork_heard {t : Network.History Fork Datagram NodeEvent Action}
    {s : Network.State Fork NodeState Datagram} {c d : Fork}
    (hcd : c = .left ∧ d = .right ∨ c = .right ∧ d = .left)
    (h : senders (traceOf .relay t) = [c, d]) :
    AttestationRound forkTree forkNodes t s (.ext .relay .periodicExpiry) := by
  intro n hn
  rw [h]
  cases n with
  | router | relay => cases hn
  | left | right => rcases hcd with ⟨rfl, rfl⟩ | ⟨rfl, rfl⟩ <;> simp

theorem fork_complete {t : Network.History Fork Datagram NodeEvent Action}
    {s : Network.State Fork NodeState Datagram} (hleft : Asked (traceOf .left t))
    (hright : Asked (traceOf .right t))
    (hrelay : Input.ext .pExpiry ∈ (traceOf Fork.relay t).map Prod.fst) (hquiet : s.flight = []) :
    Complete forkNodes t s := by
  refine ⟨fun n hn => ?_, fun n rs hn => ?_, hquiet⟩
  · cases n with
    | router | relay =>
      obtain ⟨cs, hcs⟩ := hn
      cases hcs
    | left => exact hleft
    | right => exact hright
  · cases n with
    | router | left | right => cases hn
    | relay => exact hrelay

/-- Both clients are asked, the relay hears `c` and then `d`, its timers expire, and the border
router hears it. -/
def forkLabels (x : Checksum) (c d : Fork) : List (Network.Label Fork Datagram NodeEvent) :=
  [.ext .left (.request ⟨attestation, 0⟩), .ext .right (.request ⟨attestation, 0⟩),
    .deliver ⟨c, .relay, ⟨.broadcast, .attestation (forkChecksums x c)⟩⟩,
    .deliver ⟨d, .relay, ⟨.broadcast, .attestation (forkChecksums x d)⟩⟩,
    .ext .relay .periodicExpiry, .ext .relay .pExpiry,
    .deliver ⟨.relay, .router, ⟨.broadcast,
      .attestation (forkChecksums x c ^^^ forkChecksums x d ^^^ ownChecksum 1)⟩⟩]

theorem fork_run {x : Checksum} {c d : Fork} {t : Network.History Fork Datagram NodeEvent Action}
    {s : Network.State Fork NodeState Datagram}
    (hcd : c = .left ∧ d = .right ∨ c = .right ∧ d = .left)
    (h : (fork.assign (forkChecksums x)).network.machine.exec (Deployment.start forkNodes)
      (forkLabels x c d) = .ok (t, s)) (hquiet : s.flight = []) :
    (fork.assign (forkChecksums x)).network.machine.RunIf (AttestationRound forkTree forkNodes)
      (Deployment.start forkNodes) t s ∧ Complete forkNodes t s ∧
      senders (traceOf .relay t) = [c, d] := by
  obtain ⟨_, _, _, h₁, e₁, rfl⟩ := Machine.exec_cons.1 h
  obtain ⟨_, _, _, h₂, e₂, rfl⟩ := Machine.exec_cons.1 e₁
  obtain ⟨_, _, _, h₃, e₃, rfl⟩ := Machine.exec_cons.1 e₂
  obtain ⟨_, _, _, h₄, e₄, rfl⟩ := Machine.exec_cons.1 e₃
  obtain ⟨_, _, _, h₅, e₅, rfl⟩ := Machine.exec_cons.1 e₄
  obtain ⟨_, _, _, h₆, e₆, rfl⟩ := Machine.exec_cons.1 e₅
  obtain ⟨_, _, _, h₇, e₇, rfl⟩ := Machine.exec_cons.1 e₆
  cases e₇
  refine ⟨.next (t := [_, _, _, _, _, _]) (.next (t := [_, _, _, _, _]) (.next (t := [_, _, _, _])
    (.next (t := [_, _, _]) (.next (t := [_, _]) (.next (t := [_]) (.next (t := []) .start
    ⟨rfl, ⟨_, rfl⟩, fun ⟨_, hmem, _⟩ => List.not_mem_nil hmem⟩ h₁)
    ⟨rfl, ⟨_, rfl⟩, fun ⟨_, hmem, _⟩ => List.not_mem_nil hmem⟩ h₂) trivial h₃) trivial h₄)
    (fork_heard hcd rfl) h₅) ?_ h₆) trivial h₇, fork_complete ?_ ?_ ?_ hquiet, rfl⟩
  · exact List.mem_cons_of_mem _ (List.mem_cons_of_mem _ (List.mem_cons_self ..))
  · exact ⟨_, List.mem_cons_self .., _, rfl⟩
  · exact ⟨_, List.mem_cons_self .., _, rfl⟩
  · exact List.mem_cons_of_mem _ (List.mem_cons_of_mem _ (List.mem_cons_of_mem _
      (List.mem_cons_self ..)))

/-- The clients are heard in one order and in the other, and two checksums of `left` reach the
border router as two values. -/
theorem attestation_round_fork : ∃ t t' : Network.History Fork Datagram NodeEvent Action,
    senders (traceOf .relay t) = [.left, .right] ∧ senders (traceOf .relay t') = [.right, .left] ∧
    (traceOf .relay t).outputs = [.storeBroadcast (.attestation (ownChecksum 1 ^^^ (5 ^^^ 6))),
      .broadcastToParents (.attestation (ownChecksum 1 ^^^ (5 ^^^ 6)))] ∧
    ∃ x x', x ≠ x' ∧
      .recv .relay ⟨.broadcast, .attestation x⟩ ∈ (traceOf .router t).map Prod.fst ∧
      .recv .relay ⟨.broadcast, .attestation x'⟩ ∈ (traceOf .router t').map Prod.fst := by
  obtain ⟨hr, hcomp, hsenders⟩ := fork_run (x := 5) (.inl ⟨rfl, rfl⟩) rfl rfl
  obtain ⟨hr', hcomp', hsenders'⟩ := fork_run (x := 9) (.inr ⟨rfl, rfl⟩) rfl rfl
  obtain ⟨-, -, hout, hdiff⟩ := attestation_round fork_attestationTree
    (fun n rs hn => (fork_value (by decide) hn).2) hr
  have hvalue := (fork_value (x := 5) (n := .relay) (by decide) rfl).1
  have hout₁ := (hout hcomp .relay _ rfl).trans (by rw [hvalue])
  have hsame : ∀ n : Fork, n ≠ .left → forkChecksums 5 n = forkChecksums 9 n :=
    fun n hn => (if_neg hn).trans (if_neg hn).symm
  obtain ⟨x, x', hne, hx, hx'⟩ := hdiff (forkChecksums 9) .left ⟨_, rfl⟩ (by decide) hsame
    (fun n rs hn => (fork_value (by decide) hn).2) _ _ hr' hcomp hcomp' .router .relay rfl rfl
    (Tree.subtree_subset rfl (Tree.self_mem_subtree Fork.left))
  exact ⟨_, _, hsenders, hsenders', hout₁, x, x', hne, (hx _).2 rfl, (hx' _).2 rfl⟩

end AttestationTree

end Swarna
