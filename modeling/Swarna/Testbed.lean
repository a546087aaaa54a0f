import Swarna.AttestationTree
import Swarna.BorderRouter
import Swarna.Erasure

/-!
# Swarna.Testbed

The border router and the nodes as one network. A request of the verifier makes the border router
multicast to its group; the clients answer, the relays combine, and what reaches the border router
is logged.

* `Deployment.testbed`: the network, and `Deployment.erasure`, which leaves the border router out.
* `requests_conserved`: a client is asked once for each multicast.
* `erased_run`: a run with one multicast is, erased, a round of the nodes.
* `log_reports`: what the border router logs of the responses is what it was sent, in order.
-/

namespace Swarna

open Network (Label History traceOf delivered)

/-- A datagram between nodes, or a request to the multicast group. -/
inductive Payload where
  | datagram (d : Datagram)
  | multicast (mpkt : RequestPacket)
  deriving DecidableEq, Repr

/-- `w` is the width of `clock_time_t` at the border router. -/
inductive Station (w : Nat) where
  | router (s : BorderRouter.State w)
  | node (s : NodeState)

inductive StationEvent (w : Nat) where
  /-- A datagram of the verifier, and what `clock_time` returns while it is handled. -/
  | verifier (rpkt : BorderRouter.ReqPkt) (clockTime : BitVec w)
  | periodicExpiry
  | pExpiry
  deriving DecidableEq, Repr

inductive StationOutput (v : Nat) where
  | log (o : BorderRouter.Output v)
  | act (a : Action)
  deriving DecidableEq, Repr

def StationOutput.log? {v : Nat} : StationOutput v → Option (BorderRouter.Output v)
  | log o => some o
  | act _ => none

variable {ι : Type}

namespace Deployment

section

variable (D : Deployment ι) (v : Nat) {w : Nat}

/-- Both ports of the border router have the same callback. -/
def routerEvent : Input ι Payload (StationEvent w) → Option (BorderRouter.Event w)
  | .recv src (.datagram d) => some (.response (D.addr src) d.pkt)
  | .recv _ (.multicast _) => none
  | .ext (.verifier rpkt clockTime) => some (.request rpkt clockTime)
  | .ext .periodicExpiry => none
  | .ext .pExpiry => none

/-- The verifier knows the border router only. -/
def nodeInput : Input ι Payload (StationEvent w) → Option (Input ι Datagram NodeEvent)
  | .recv src (.datagram d) => some (.recv src d)
  | .recv _ (.multicast mpkt) => some (.ext (.request mpkt))
  | .ext (.verifier _ _) => none
  | .ext .periodicExpiry => some (.ext .periodicExpiry)
  | .ext .pExpiry => some (.ext .pExpiry)

def stationStep (n : ι) : Station w → Input ι Payload (StationEvent w) →
    Except Fault (Station w × List (StationOutput v))
  | .router s, x =>
    match D.routerEvent x with
    | none => .ok (.router s, [])
    | some e =>
      match BorderRouter.step v s e with
      | .error f => f.elim
      | .ok (s, out) => .ok (.router s, out.map .log)
  | .node s, x =>
    match nodeInput x with
    | none => .ok (.node s, [])
    | some y =>
      match D.step n s y with
      | .error f => .error f
      | .ok (s, out) => .ok (.node s, out.map .act)

/-- The members of the multicast group are given. -/
def stationPost (group : List ι) (n : ι) : StationOutput v → List (ι × Payload)
  | .log (.multicast pkt) => group.map fun m => (m, .multicast pkt)
  | .log _ => []
  | .act a => (D.post n a).map fun x => (x.1, .datagram x.2)

def testbed (group : List ι) (w : Nat) :
    Network ι (Station w) Payload (StationEvent w) (StationOutput v) Fault :=
  ⟨D.stationStep v, D.stationPost v group⟩

/-- The nodes as given, the border router in state `s₀`, nothing in flight. -/
def testbedStart (nodes : ι → NodeState) (s₀ : BorderRouter.State w) :
    Network.State ι (Station w) Payload :=
  ⟨fun n => match nodes n with
    | .router => .router s₀
    | .relay s => .node (.relay s)
    | .client s => .node (.client s), []⟩

end

/-- Leaves out what the border router keeps and logs. -/
def erasure (v w : Nat) : Erasure (Station w) Payload (StationEvent w) (StationOutput v) NodeState
    Datagram NodeEvent Action where
  node
    | .router _ => .router
    | .node s => s
  body
    | .datagram d => .inl d
    | .multicast mpkt => .inr (some (.request mpkt))
  event
    | .verifier _ _ => none
    | .periodicExpiry => some .periodicExpiry
    | .pExpiry => some .pExpiry
  output
    | .log _ => none
    | .act a => some a

variable {D : Deployment ι} {v w : Nat} {group : List ι} {nodes : ι → NodeState}
  {s₀ : BorderRouter.State w}

theorem erasure_input (x : Input ι Payload (StationEvent w)) :
    (erasure v w).input x = nodeInput x := by
  cases x with
  | recv src b => cases b <;> rfl
  | ext e => cases e <;> rfl

theorem erasure_start (nodes : ι → NodeState) (s₀ : BorderRouter.State w) :
    (erasure v w).state (testbedStart nodes s₀) = start nodes := by
  simp only [Erasure.state, testbedStart, start, List.filterMap_nil]
  congr 1
  funext n
  cases nodes n <;> rfl

/-- What a station does: the border router handles an event or none, a node makes its step. -/
theorem stationStep_cases {n : ι} {x : Input ι Payload (StationEvent w)} {s s' : Station w}
    {out : List (StationOutput v)} (h : D.stationStep v n s x = .ok (s', out)) :
    (∃ b b' o, s = .router b ∧ s' = .router b' ∧ out = o.map .log ∧
      ((D.routerEvent x = none ∧ b' = b ∧ o = []) ∨
        ∃ e, D.routerEvent x = some e ∧ BorderRouter.step v b e = .ok (b', o))) ∨
    ∃ u u' o, s = .node u ∧ s' = .node u' ∧ out = o.map .act ∧
      ((nodeInput x = none ∧ u' = u ∧ o = []) ∨
        ∃ y, nodeInput x = some y ∧ D.step n u y = .ok (u', o)) := by
  cases s with
  | router b =>
    left
    simp only [stationStep] at h
    split at h
    · rename_i hx
      cases h
      exact ⟨b, b, [], rfl, rfl, rfl, .inl ⟨hx, rfl, rfl⟩⟩
    · rename_i e hx
      split at h
      · rename_i f _
        exact f.elim
      · rename_i b' o hs
        cases h
        exact ⟨b, b', o, rfl, rfl, rfl, .inr ⟨e, hx, hs⟩⟩
  | node u =>
    right
    simp only [stationStep] at h
    split at h
    · rename_i hx
      cases h
      exact ⟨u, u, [], rfl, rfl, rfl, .inl ⟨hx, rfl, rfl⟩⟩
    · rename_i y hx
      split at h
      · cases h
      · rename_i u' o hs
        cases h
        exact ⟨u, u', o, rfl, rfl, rfl, .inr ⟨y, hx, hs⟩⟩

theorem output_log (o : List (BorderRouter.Output v)) :
    (o.map StationOutput.log).filterMap (erasure v w).output = [] := by
  rw [List.filterMap_map, List.filterMap_eq_nil_iff]
  exact fun _ _ => rfl

theorem output_act (o : List Action) :
    (o.map (StationOutput.act (v := v))).filterMap (erasure v w).output = o := by
  rw [List.filterMap_map]
  exact List.filterMap_some

/-- The nodes do in the testbed what they do without the border router. -/
theorem erasure_sound (D : Deployment ι) (group : List ι) (v w : Nat) :
    (erasure v w).Sound (D.testbed v group w) D.network where
  step n s x y s' acts hx hs := by
    rw [erasure_input] at hx
    rcases stationStep_cases hs with ⟨b, b', o, rfl, rfl, rfl, -⟩ |
      ⟨u, u', o, rfl, rfl, rfl, ⟨hnone, -⟩ | ⟨y', hy, hstep⟩⟩
    · rw [output_log]
      rfl
    · rw [hx] at hnone
      cases hnone
    · rw [hx] at hy
      cases hy
      rw [output_act]
      exact hstep
  hidden n s x s' acts hx hs := by
    rw [erasure_input] at hx
    rcases stationStep_cases hs with ⟨b, b', o, rfl, rfl, rfl, -⟩ |
      ⟨u, u', o, rfl, rfl, rfl, ⟨-, rfl, rfl⟩ | ⟨y', hy, -⟩⟩
    · exact ⟨rfl, output_log o⟩
    · exact ⟨rfl, rfl⟩
    · rw [hx] at hy
      cases hy
  fault n s x f hs := by
    cases s with
    | router b =>
      simp only [testbed, stationStep] at hs
      split at hs
      · cases hs
      · rename_i e _
        cases hb : BorderRouter.step v b e with
        | error f => exact f.elim
        | ok r =>
          rw [hb] at hs
          cases hs
    | node u =>
      simp only [testbed, stationStep] at hs
      split at hs
      · cases hs
      · rename_i y hx
        split at hs
        · rename_i hf
          cases hs
          exact ⟨y, f, by rw [erasure_input, hx], hf⟩
        · cases hs
  post n o := by
    cases o with
    | log o =>
      have hnone : ∀ l : List (ι × Payload), (∀ x ∈ l, ∃ pkt, x.2 = .multicast pkt) →
          (l.map fun x => (⟨n, x.1, x.2⟩ : Packet ι Payload)).filterMap (erasure v w).packet =
            [] := by
        intro l hl
        rw [List.filterMap_map, List.filterMap_eq_nil_iff]
        rintro ⟨m, body⟩ hx
        obtain ⟨pkt, rfl⟩ := hl _ hx
        rfl
      refine hnone _ fun x hx => ?_
      cases o with
      | multicast pkt =>
        obtain ⟨m, -, rfl⟩ := List.mem_map.1 hx
        exact ⟨pkt, rfl⟩
      | _ => cases hx
    | act a =>
      simp only [Network.packets, testbed, stationPost, network, List.map_map, List.filterMap_map]
      exact (congrFun List.filterMap_eq_map _).trans (List.append_nil _).symm

/-! ## Requests -/

/-- The requests to the group among outputs. -/
def multicasts (out : List (ι × StationOutput v)) : List RequestPacket :=
  out.filterMap fun x => x.2.log?.bind BorderRouter.multicast?

theorem multicasts_append (out out' : List (ι × StationOutput v)) :
    multicasts (out ++ out') = multicasts out ++ multicasts out' := List.filterMap_append

/-- A step multicasts what an event of the border router does. -/
theorem multicasts_step {n : ι} {x : Input ι Payload (StationEvent w)} {s s' : Station w}
    {acts : List (StationOutput v)} (h : D.stationStep v n s x = .ok (s', acts)) :
    multicasts (acts.map fun o => (n, o)) = [] ∨ ∃ e, D.routerEvent x = some e ∧
      multicasts (acts.map fun o => (n, o)) = BorderRouter.relayed e := by
  have hlog : ∀ o : List (BorderRouter.Output v),
      multicasts ((o.map StationOutput.log).map fun o => (n, o)) =
        o.filterMap BorderRouter.multicast? := by
    intro o
    rw [multicasts, List.filterMap_map, List.filterMap_map]
    rfl
  rcases stationStep_cases h with ⟨b, b', o, rfl, rfl, rfl, ⟨-, -, rfl⟩ | ⟨e, he, hs⟩⟩ |
    ⟨u, u', o, rfl, rfl, rfl, -⟩
  · exact .inl rfl
  · exact .inr ⟨e, he, by rw [hlog, (BorderRouter.step_answer hs).2.1]⟩
  · left
    rw [multicasts, List.filterMap_map, List.filterMap_map, List.filterMap_eq_nil_iff]
    exact fun _ _ => rfl

variable [DecidableEq ι]

/-- The requests for `n` among packets. -/
def requestsTo (n : ι) (l : List (Packet ι Payload)) : List RequestPacket :=
  l.filterMap fun p =>
    match p.body with
    | .multicast mpkt => if p.dst = n then some mpkt else none
    | .datagram _ => none

theorem mem_requestsTo {n : ι} {l : List (Packet ι Payload)} {mpkt : RequestPacket} :
    mpkt ∈ requestsTo n l ↔ ∃ src, ⟨src, n, .multicast mpkt⟩ ∈ l := by
  simp only [requestsTo, List.mem_filterMap]
  constructor
  · rintro ⟨⟨src, dst, body⟩, hp, hm⟩
    cases body with
    | datagram d => cases hm
    | multicast m =>
      simp only [Option.ite_none_right_eq_some, Option.some.injEq] at hm
      obtain ⟨rfl, rfl⟩ := hm
      exact ⟨src, hp⟩
  · rintro ⟨src, hp⟩
    exact ⟨_, hp, by simp⟩

theorem requestsTo_append (n : ι) (l l' : List (Packet ι Payload)) :
    requestsTo n (l ++ l') = requestsTo n l ++ requestsTo n l' := List.filterMap_append

/-- A member of the group is sent each multicast once, others none. -/
theorem requestsTo_posted (hg : group.Nodup) (n : ι)
    (t : History ι Payload (StationEvent w) (StationOutput v)) :
    requestsTo n ((D.testbed v group w).posted t) =
      if n ∈ group then multicasts t.outputs else [] := by
  have hone : ∀ x : ι × StationOutput v, requestsTo n ((D.testbed v group w).packets x.1 x.2) =
      if n ∈ group then multicasts [x] else [] := by
    rintro ⟨m, o⟩
    cases o with
    | act a =>
      have hnone : requestsTo n ((D.testbed v group w).packets m (.act a)) = [] := by
        rw [requestsTo, List.filterMap_eq_nil_iff]
        intro p hp
        obtain ⟨x, hx, rfl⟩ := List.mem_map.1 hp
        obtain ⟨y, -, rfl⟩ := List.mem_map.1 hx
        rfl
      rw [hnone]
      split <;> rfl
    | log o =>
      cases o with
      | multicast pkt =>
        have hpackets : requestsTo n ((D.testbed v group w).packets m (.log (.multicast pkt))) =
            (group.filter (· = n)).map fun _ => pkt := by
          simp only [requestsTo, Network.packets, testbed, stationPost, List.map_map,
            List.filterMap_map]
          clear hg
          induction group with
          | nil => rfl
          | cons c group ih => by_cases hc : c = n <;> simpa [hc] using ih
        rw [hpackets, List.filter_eq, hg.count]
        split <;> rfl
      | _ => split <;> rfl
  rw [Network.posted]
  induction t.outputs with
  | nil =>
    split <;> rfl
  | cons x out ih =>
    have hcons : multicasts (x :: out) = multicasts [x] ++ multicasts out :=
      multicasts_append [x] out
    rw [List.flatMap_cons, requestsTo_append, ih, hone, hcons]
    split <;> rfl

variable {C : History ι Payload (StationEvent w) (StationOutput v) →
    Network.State ι (Station w) Payload → Label ι Payload (StationEvent w) → Prop}
  {t : History ι Payload (StationEvent w) (StationOutput v)}
  {s : Network.State ι (Station w) Payload}

/-- A member of the group has got, or will get, each multicast once. -/
theorem requests_conserved (hg : group.Nodup)
    (hr : (D.testbed v group w).machine.RunIf C (testbedStart nodes s₀) t s) (n : ι) :
    (requestsTo n (delivered t) ++ requestsTo n s.flight).Perm
      (if n ∈ group then multicasts t.outputs else []) := by
  rw [← requestsTo_append, ← requestsTo_posted (D := D) hg]
  have h := Network.conserved hr
  exact h.filterMap _

/-- A node was asked if a multicast was delivered to it. -/
theorem asked_iff (n : ι) :
    Asked (traceOf n ((erasure v w).trace t)) ↔ requestsTo n (delivered t) ≠ [] := by
  rw [Erasure.traceOf_trace]
  constructor
  · rintro ⟨x, hx, mpkt, hm⟩
    obtain ⟨y, hy, hxy⟩ := List.mem_filterMap.1 hx
    rw [erasure_input] at hxy
    obtain ⟨z, hz, rfl⟩ := Option.map_eq_some_iff.1 hxy
    simp only at hm
    subst hm
    obtain ⟨inp, out⟩ := y
    cases inp with
    | recv src body =>
      cases body with
      | datagram d => cases hz
      | multicast m =>
        have hmem : .recv src (.multicast m) ∈ (traceOf n t).map Prod.fst :=
          List.mem_map.2 ⟨_, hy, rfl⟩
        exact List.ne_nil_of_mem (mem_requestsTo.2 ⟨src, Network.recv_mem_traceOf.1 hmem⟩)
    | ext e => cases e <;> cases hz
  · intro h
    obtain ⟨mpkt, hm⟩ := List.exists_mem_of_ne_nil _ h
    obtain ⟨src, hp⟩ := mem_requestsTo.1 hm
    obtain ⟨⟨inp, out⟩, hx, hinp⟩ := List.mem_map.1 (Network.recv_mem_traceOf.2 hp)
    simp only at hinp
    subst hinp
    exact ⟨(.ext (.request mpkt), out.filterMap (erasure v w).output),
      List.mem_filterMap.2 ⟨_, hx, rfl⟩, mpkt, rfl⟩

/-! ## A round -/

/-- Deliveries, the timers `C` allows, and datagrams of the verifier: any number, of which one asks
for a round, of type `q`. -/
def OneMulticast (q : BitVec 8) (C : History ι Datagram NodeEvent Action →
    Network.State ι NodeState Datagram → Label ι Datagram NodeEvent → Prop)
    (t : History ι Payload (StationEvent w) (StationOutput v))
    (s : Network.State ι (Station w) Payload) : Label ι Payload (StationEvent w) → Prop
  | .deliver _ => True
  | .ext _ (.verifier rpkt _) =>
    rpkt.reqType = topology ∨ rpkt.reqType = attestation →
      rpkt.reqType = q ∧ multicasts t.outputs = []
  | .ext n .periodicExpiry =>
    C ((erasure v w).trace t) ((erasure v w).state s) (.ext n .periodicExpiry)
  | .ext n .pExpiry => C ((erasure v w).trace t) ((erasure v w).state s) (.ext n .pExpiry)

/-- A condition on rounds of type `q`: it is about the history alone, and lets each client be asked
once. -/
structure RoundCondition (q : BitVec 8) (nodes : ι → NodeState)
    (C : History ι Datagram NodeEvent Action → Network.State ι NodeState Datagram →
      Label ι Datagram NodeEvent → Prop) : Prop where
  deliver : ∀ t s p, C t s (.deliver p)
  request : ∀ t s n mpkt, mpkt.pktType = q → IsClient nodes n → ¬ Asked (traceOf n t) →
    C t s (.ext n (.request mpkt))
  history : ∀ t s s' l, C t s l → C t s' l

section

variable {q : BitVec 8} {A : History ι Datagram NodeEvent Action →
  Network.State ι NodeState Datagram → Label ι Datagram NodeEvent → Prop}

/-- At most one multicast, of the type asked for. -/
theorem multicasts_le
    (hr : (D.testbed v group w).machine.RunIf (OneMulticast q A) (testbedStart nodes s₀) t s) :
    (multicasts t.outputs).length ≤ 1 ∧ ∀ mpkt ∈ multicasts t.outputs, mpkt.pktType = q := by
  refine hr.invariant (P := fun t _ => (multicasts t.outputs).length ≤ 1 ∧
    ∀ mpkt ∈ multicasts t.outputs, mpkt.pktType = q) ⟨by simp [multicasts], by simp [multicasts]⟩ ?_
  rintro t s l s' out ⟨hlen, htype⟩ hc hs
  obtain ⟨v', acts, hv, -, rfl, -, -⟩ := Network.step_inv hs
  rw [Trace.outputs_snoc, multicasts_append]
  rcases multicasts_step (n := l.target) hv with hnone | ⟨e, he, hout⟩
  · rw [hnone, List.append_nil]
    exact ⟨hlen, htype⟩
  · rw [hout]
    cases l with
    | deliver p =>
      have hempty : BorderRouter.relayed e = [] := by
        obtain ⟨src, dst, body⟩ := p
        cases body <;> cases he
        rfl
      rw [hempty, List.append_nil]
      exact ⟨hlen, htype⟩
    | ext n e' =>
      cases e' with
      | verifier rpkt clockTime =>
        cases he
        simp only [BorderRouter.relayed]
        split
        · rename_i hq
          obtain ⟨htype', hno⟩ := hc hq
          rw [hno]
          exact ⟨by simp, by simpa using htype'⟩
        · rw [List.append_nil]
          exact ⟨hlen, htype⟩
      | periodicExpiry | pExpiry => cases he

/-- A request on its way is for a client that was not asked before. -/
theorem request_in_flight (hg : group.Nodup) (hgroup : ∀ n ∈ group, IsClient nodes n)
    (hr : (D.testbed v group w).machine.RunIf (OneMulticast q A) (testbedStart nodes s₀) t s)
    {src n : ι} {mpkt : RequestPacket} (hp : ⟨src, n, .multicast mpkt⟩ ∈ s.flight) :
    mpkt.pktType = q ∧ IsClient nodes n ∧ ¬ Asked (traceOf n ((erasure v w).trace t)) := by
  have hmem := mem_requestsTo.2 ⟨src, hp⟩
  have hperm := requests_conserved hg hr n
  obtain ⟨hlen, htype⟩ := multicasts_le hr
  have hall : n ∈ group := by
    by_contra hn
    rw [if_neg hn] at hperm
    have := hperm.subset (List.mem_append_right _ hmem)
    cases this
  rw [if_pos hall] at hperm
  refine ⟨htype _ (hperm.subset (List.mem_append_right _ hmem)), hgroup n hall, ?_⟩
  rw [asked_iff, not_not]
  have h₁ := hperm.length_eq
  have h₂ := List.length_pos_of_mem hmem
  rw [List.length_append] at h₁
  exact List.eq_nil_of_length_eq_zero (by omega)

theorem erased_condition (hg : group.Nodup) (hgroup : ∀ n ∈ group, IsClient nodes n)
    (hA : RoundCondition q nodes A)
    (hr : (D.testbed v group w).machine.RunIf (OneMulticast q A) (testbedStart nodes s₀) t s)
    {l : Label ι Payload (StationEvent w)} {l' : Label ι Datagram NodeEvent}
    (hc : OneMulticast q A t s l) (hmem : ∀ p ∈ l.packet?, p ∈ s.flight)
    (hl : (erasure v w).label l = some l') (s' : Network.State ι NodeState Datagram) :
    A ((erasure v w).trace t) s' l' := by
  cases l with
  | deliver p =>
    obtain ⟨src, dst, body⟩ := p
    cases body with
    | datagram d =>
      cases hl
      exact hA.deliver _ _ _
    | multicast mpkt =>
      cases hl
      obtain ⟨htype, hcl, hnot⟩ := request_in_flight hg hgroup hr (hmem _ rfl)
      exact hA.request _ _ _ _ htype hcl hnot
  | ext n e =>
    cases e with
    | verifier rpkt clockTime => cases hl
    | periodicExpiry | pExpiry =>
      cases hl
      exact hA.history _ _ _ _ hc

/-- A round with the border router is, erased, a round of the nodes. -/
theorem erased_run (hg : group.Nodup) (hgroup : ∀ n ∈ group, IsClient nodes n)
    (hA : RoundCondition q nodes A)
    (hr : (D.testbed v group w).machine.RunIf (OneMulticast q A) (testbedStart nodes s₀) t s) :
    ∃ s', D.network.machine.RunIf A (start nodes) ((erasure v w).trace t) s' ∧
      s'.node = ((erasure v w).state s).node ∧ s'.flight.Perm ((erasure v w).state s).flight := by
  rw [← erasure_start nodes s₀ (v := v)]
  exact (erasure_sound D group v w).run hr fun _ _ _ _ _ hr hc hmem hl _ =>
    erased_condition hg hgroup hA hr hc hmem hl _

/-- It faults only if the nodes do. -/
theorem testbed_step (hg : group.Nodup) (hgroup : ∀ n ∈ group, IsClient nodes n)
    (hA : RoundCondition q nodes A)
    (hr : (D.testbed v group w).machine.RunIf (OneMulticast q A) (testbedStart nodes s₀) t s)
    (hstep : ∀ t s l, D.network.machine.RunIf A (start nodes) t s → A t s l →
      (∀ p ∈ l.packet?, p ∈ s.flight) → ∃ r, D.network.machine.step s l = .ok r)
    {l : Label ι Payload (StationEvent w)} (hc : OneMulticast q A t s l)
    (hmem : ∀ p ∈ l.packet?, p ∈ s.flight) :
    ∃ r, (D.testbed v group w).machine.step s l = .ok r := by
  obtain ⟨s', hr', hnode, hflight⟩ := erased_run hg hgroup hA hr
  refine (erasure_sound D group v w).step_of_step hnode hflight hmem fun l' hl hmem' => ?_
  exact hstep _ _ _ hr' (erased_condition hg hgroup hA hr hc hmem hl s') hmem'

/-- With a multicast out and nothing in flight, all of the group have been asked. -/
theorem group_asked (hg : group.Nodup)
    (hr : (D.testbed v group w).machine.RunIf (OneMulticast q A) (testbedStart nodes s₀) t s)
    (hout : multicasts t.outputs ≠ []) (hquiet : s.flight = []) {n : ι} (hn : n ∈ group) :
    Asked (traceOf n ((erasure v w).trace t)) := by
  rw [asked_iff]
  have hperm := requests_conserved hg hr n
  have hnil : requestsTo n [] = [] := rfl
  rw [if_pos hn, hquiet, hnil, List.append_nil] at hperm
  intro hnone
  rw [hnone] at hperm
  exact hout hperm.symm.eq_nil

end

/-! ## The log -/

/-- What the border router `n` has logged. -/
def log (n : ι) (t : History ι Payload (StationEvent w) (StationOutput v)) :
    List (BorderRouter.Output v) := (traceOf n t).outputs.filterMap StationOutput.log?

/-- The trace of the border router's own machine. -/
def routerTrace (D : Deployment ι)
    (τ : Trace (Input ι Payload (StationEvent w)) (StationOutput v)) :
    Trace (BorderRouter.Event w) (BorderRouter.Output v) :=
  τ.filterMap fun x => (D.routerEvent x.1).map fun e => (e, x.2.filterMap StationOutput.log?)

/-- The border router runs as it does alone. -/
theorem router_run
    (hr : (D.testbed v group w).machine.RunIf C (testbedStart nodes s₀) t s) {n : ι}
    (hn : nodes n = .router) : ∃ b, s.node n = .router b ∧
      (BorderRouter.machine v w).Run s₀ (D.routerTrace (traceOf n t)) b ∧
      log n t = (D.routerTrace (traceOf n t)).outputs := by
  induction hr with
  | start => exact ⟨s₀, by simp [testbedStart, hn], .start, rfl⟩
  | @next t s s' l out hr hc hs ih =>
    obtain ⟨b, hb, hrun, hlog⟩ := ih
    obtain ⟨u, acts, hu, hnode, rfl, -, -⟩ := Network.step_inv hs
    by_cases htarget : l.target = n
    · subst htarget
      rw [hb] at hu
      have hstep : D.stationStep v l.target (.router b) l.input = .ok (u, acts) := hu
      have hout : ∀ o : List (BorderRouter.Output v),
          (o.map StationOutput.log).filterMap StationOutput.log? = o := by
        intro o
        rw [List.filterMap_map]
        exact List.filterMap_some
      have hlog' : log l.target (t ++ [(l, acts.map fun o => (l.target, o))]) =
          log l.target t ++ acts.filterMap StationOutput.log? := by
        simp only [log]
        rw [Network.traceOf_snoc_self, Trace.outputs_snoc, List.filterMap_append]
      rcases stationStep_cases hstep with ⟨b₁, b', o, hb₁, rfl, rfl, hcase⟩ | ⟨_, _, _, hno, _⟩
      · cases hb₁
        rw [hlog', Network.traceOf_snoc_self, routerTrace, List.filterMap_append, hout,
          ← routerTrace]
        rcases hcase with ⟨hx, rfl, rfl⟩ | ⟨e, hx, hs'⟩
        · refine ⟨_, by rw [hnode, Function.update_self], ?_, ?_⟩
          · simpa [hx] using hrun
          · simpa [hx] using hlog
        · refine ⟨b', by rw [hnode, Function.update_self], ?_, ?_⟩
          · have hnext := hrun.next trivial hs'
            simpa [hx, hout] using hnext
          · simp [hx, hout, hlog]
      · cases hno
    · refine ⟨b, by rw [hnode, Function.update_of_ne (Ne.symm htarget), hb], ?_, ?_⟩
      · rw [Network.traceOf_snoc_ne htarget]
        exact hrun
      · rw [log, Network.traceOf_snoc_ne htarget]
        exact hlog

omit [DecidableEq ι] in
/-- The responses among the events of the border router are its inbox. -/
theorem responses_routerTrace (τ : Trace (Input ι Payload (StationEvent w)) (StationOutput v)) :
    ((D.routerTrace τ).map Prod.fst).filterMap BorderRouter.response? =
      (Network.inbox ((erasure v w).nodeTrace τ)).map fun x => (D.addr x.1, x.2.pkt) := by
  induction τ with
  | nil => rfl
  | cons x τ ih =>
    obtain ⟨inp, out⟩ := x
    have hcons : D.routerTrace ((inp, out) :: τ) =
        D.routerTrace [(inp, out)] ++ D.routerTrace τ := by
      rw [← List.singleton_append]
      exact List.filterMap_append
    have hcons' : Network.inbox ((erasure v w).nodeTrace ((inp, out) :: τ)) =
        Network.inbox ((erasure v w).nodeTrace [(inp, out)]) ++
          Network.inbox ((erasure v w).nodeTrace τ) := by
      rw [← List.singleton_append, Erasure.nodeTrace, List.filterMap_append]
      exact List.filterMap_append
    rw [hcons, hcons', List.map_append, List.filterMap_append, List.map_append, ih]
    congr 1
    cases inp with
    | recv src body =>
      cases body with
      | datagram d =>
        simp [routerTrace, routerEvent, Erasure.nodeTrace, erasure_input, nodeInput,
          Network.inbox, BorderRouter.response?]
      | multicast mpkt => rfl
    | ext e => cases e <;> rfl

/-- The responses logged are those received, in order. -/
theorem log_reports
    (hr : (D.testbed v group w).machine.RunIf C (testbedStart nodes s₀) t s) {n : ι}
    (hn : nodes n = .router) : (log n t).filter BorderRouter.isAnswer =
      (Network.inbox (traceOf n ((erasure v w).trace t))).flatMap fun x =>
        BorderRouter.answerLog v (w := w) (.response (D.addr x.1) x.2.pkt) := by
  obtain ⟨b, -, hrun, hlog⟩ := router_run hr hn
  rw [hlog, (BorderRouter.answers_eq hrun).1, BorderRouter.answerLog_responses,
    responses_routerTrace, ← Erasure.traceOf_trace, List.flatMap_map]

/-- A round, with no datagram of the verifier behind the multicast. -/
def SoleRequest (q : BitVec 8) (A : History ι Datagram NodeEvent Action →
    Network.State ι NodeState Datagram → Label ι Datagram NodeEvent → Prop)
    (t : History ι Payload (StationEvent w) (StationOutput v))
    (s : Network.State ι (Station w) Payload) (l : Label ι Payload (StationEvent w)) : Prop :=
  OneMulticast q A t s l ∧
    ∀ n rpkt clockTime, l = .ext n (.verifier rpkt clockTime) → multicasts t.outputs = []

section

variable {q : BitVec 8} {A : History ι Datagram NodeEvent Action →
  Network.State ι NodeState Datagram → Label ι Datagram NodeEvent → Prop}

theorem oneMulticast_of_sole
    (hr : (D.testbed v group w).machine.RunIf (SoleRequest q A) (testbedStart nodes s₀) t s) :
    (D.testbed v group w).machine.RunIf (OneMulticast q A) (testbedStart nodes s₀) t s :=
  hr.imp fun _ _ _ h => h.1

/-- If nothing arrives before the multicast, the requests come first and then the responses. -/
theorem events_split {n : ι}
    (hr : (D.testbed v group w).machine.RunIf (SoleRequest q A) (testbedStart nodes s₀) t s)
    (hsilent : ∀ t s, (D.testbed v group w).machine.RunIf (OneMulticast q A)
      (testbedStart nodes s₀) t s → multicasts t.outputs = [] →
      Network.inbox (traceOf n ((erasure v w).trace t)) = []) :
    ∃ pre post, (D.routerTrace (traceOf n t)).map Prod.fst = pre ++ post ∧
      (∀ e ∈ pre, BorderRouter.response? e = none) ∧
      ∀ e ∈ post, (BorderRouter.response? e).isSome = true := by
  induction hr with
  | start => exact ⟨[], [], rfl, by simp, by simp⟩
  | @next t s s' l out hr hc hs ih =>
    obtain ⟨pre, post, hsplit, hpre, hpost⟩ := ih
    by_cases htarget : l.target = n
    · subst htarget
      obtain ⟨u, acts, -, -, rfl, -, -⟩ := Network.step_inv hs
      rw [Network.traceOf_snoc_self, routerTrace, List.filterMap_append, List.map_append,
        ← routerTrace, hsplit]
      cases hx : D.routerEvent l.input with
      | none => exact ⟨pre, post, by simp [hx], hpre, hpost⟩
      | some e =>
        cases he : BorderRouter.response? e with
        | some r =>
          refine ⟨pre, post ++ [e], by simp [hx], hpre, fun e' he' => ?_⟩
          rcases List.mem_append.1 he' with he' | he'
          · exact hpost e' he'
          · rw [List.mem_singleton.1 he', he]
            rfl
        | none =>
          -- a request comes before any response
          have hlabel : ∃ rpkt clockTime, l = .ext l.target (.verifier rpkt clockTime) := by
            cases l with
            | deliver p =>
              obtain ⟨src, dst, body⟩ := p
              cases body <;> cases hx
              cases he
            | ext m e' =>
              cases e' with
              | verifier rpkt clockTime => exact ⟨rpkt, clockTime, rfl⟩
              | periodicExpiry | pExpiry => cases hx
          obtain ⟨rpkt, clockTime, hl⟩ := hlabel
          have hinbox := hsilent t s (oneMulticast_of_sole hr) (hc.2 _ _ _ hl)
          have hnone := responses_routerTrace (D := D) (traceOf l.target t)
          rw [← Erasure.traceOf_trace, hinbox, hsplit, List.filterMap_append, List.map_nil,
            List.append_eq_nil_iff] at hnone
          have hempty : post = [] := by
            rw [List.eq_nil_iff_forall_not_mem]
            intro e' he'
            have := List.filterMap_eq_nil_iff.1 hnone.2 e' he'
            have hsome := hpost e' he'
            rw [this] at hsome
            cases hsome
          refine ⟨pre ++ [e], [], by simp [hx, hempty], fun e' he' => ?_, by simp⟩
          rcases List.mem_append.1 he' with he' | he'
          · exact hpre e' he'
          · rw [List.mem_singleton.1 he', he]
    · rw [Network.traceOf_snoc_ne htarget]
      exact ⟨pre, post, hsplit, hpre, hpost⟩

end

end Deployment
end Swarna
