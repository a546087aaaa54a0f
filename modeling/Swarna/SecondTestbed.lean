import Swarna.Deployment
import Swarna.SecondRound
import Swarna.TopologyTree
import Swarna.VerifierTrace

/-!
# Swarna.SecondTestbed

The verifier and the nodes as one network: the second round, whatever else the nodes do meanwhile.

* `secondTestbed`: the verifier sends requests to the addresses of its map, and the nodes answer to
  the host it runs on, `router_addr`. Datagrams of the first round go between the nodes as before.
* `slots`: the requests and answers in flight.
* `account_answered`, `account_ignored`, `account_node`: who takes a step, and what the account is
  after it.
* `account_run`: in every run, what was requested is what was answered and what is in flight.
* `second_round_closed`: so the verifier sends what the file asks for, waits for one answer at a
  time, and is through when nothing is in flight.

`recvfrom` is taken to succeed. What the border router does with the starts and stops is left out.
-/

namespace Swarna

open Network (Label History traceOf)
open Verifier (Libc NodeMap Request Process)

/-- A datagram between nodes, a request of the verifier, or an answer to one. -/
inductive SecondPayload where
  | datagram (d : Datagram)
  | request (pktType runCount : BitVec 8)
  | answer (resp : SecRndResp)
  deriving DecidableEq, Repr

inductive Party where
  | verifier (p : Process)
  | node (u : NodeState)

inductive PartyOutput where
  | sent (q : Request)
  | act (a : Action)
  deriving DecidableEq, Repr

inductive PartyFault where
  | verifier (f : Verifier.Fault)
  | node (f : Fault)
  deriving DecidableEq, Repr

def PartyOutput.sent? : PartyOutput → Option Request
  | sent q => some q
  | act _ => none

variable {ι : Type}

namespace Deployment

section

variable (D : Deployment ι) (L : Libc)

/-- The verifier at its socket. -/
def verifierEvent : Input (Option ι) SecondPayload NodeEvent → Option Verifier.Event
  | .recv (some n) (.answer _) => some (.datagram (D.addr n))
  | _ => none

/-- A node at its second-round port; of the request it reads the type. -/
def secondCallback : NodeState → (pktType : BitVec 8) → List Action
  | .router, _ => []
  | .relay s, pktType => Relay.udpSecreqCallback s ⟨pktType, 0⟩
  | .client s, pktType => Client.udpSecreqCallback s ⟨pktType, 0⟩

def nodeStep (n : ι) (u : NodeState) :
    Input (Option ι) SecondPayload NodeEvent → Except Fault (NodeState × List Action)
  | .recv _ (.request pktType _) => .ok (u, secondCallback u pktType)
  | .recv (some m) (.datagram d) => D.step n u (.recv m d)
  | .ext e => D.step n u (.ext e)
  | _ => .ok (u, [])

def partyStep : Option ι → Party → Input (Option ι) SecondPayload NodeEvent →
    Except PartyFault (Party × List PartyOutput)
  | _, .verifier p, x =>
    match D.verifierEvent x with
    | none => .ok (.verifier p, [])
    | some e =>
      match Verifier.step L p e with
      | .error f => .error (.verifier f)
      | .ok (p, out) => .ok (.verifier p, out.map .sent)
  | some n, .node u, x =>
    match D.nodeStep n u x with
    | .error f => .error (.node f)
    | .ok (u, out) => .ok (.node u, out.map .act)
  | none, .node u, _ => .ok (.node u, [])

/-- `router_addr` is the address of the host. -/
def partyPost : Option ι → PartyOutput → List (Option ι × SecondPayload)
  | _, .sent q => (D.resolve q.dst).toList.map fun n => (some n, .request q.pktType q.runCount)
  | _, .act (.sendSecResp resp) => [(none, .answer resp)]
  | some n, .act a => (D.post n a).map fun x => (some x.1, .datagram x.2)
  | none, .act _ => []

def secondTestbed :
    Network (Option ι) Party SecondPayload NodeEvent PartyOutput PartyFault :=
  ⟨D.partyStep L, D.partyPost⟩

/-- The nodes as given, and the verifier in its receive loop, with its first requests in flight. -/
def secondStart (nodes : ι → NodeState) (p₀ : Process) (out₀ : List Request) :
    Network.State (Option ι) Party SecondPayload :=
  ⟨fun h => match h with
    | none => .verifier p₀
    | some n => .node (nodes n),
    out₀.flatMap fun q => (D.secondTestbed L).packets none (.sent q)⟩

/-! ## Nodes -/

/-- A relay in a state it can have come to. -/
def Reached (n : ι) : NodeState → Prop
  | .router => True
  | .relay s => ∃ c t, (Relay.machine (D.node n) D.buffers).Run (Relay.init c) t s
  | .client _ => True

end

/-- The answer of a node to a second-round request. -/
def answerOf : NodeState → Option SecRndResp
  | .router => none
  | .relay s => some ⟨s.maxIndex, s.myChecksum⟩
  | .client s => some ⟨0, s.checksum⟩

variable {D : Deployment ι} {L : Libc} {n : ι} {u u' : NodeState}

theorem secondCallback_eq (hu : D.Reached n u) : secondCallback u secondRound =
    (answerOf u).toList.map .sendSecResp := by
  cases u with
  | router => rfl
  | client s => rfl
  | relay s =>
    obtain ⟨c, t, hr⟩ := hu
    simp [secondCallback, answerOf, Relay.udpSecreqCallback, Relay.run_completed hr]

theorem secondCallback_other {pktType : BitVec 8} (h : pktType ≠ secondRound) :
    secondCallback u pktType = [] := by
  cases u with
  | router => rfl
  | relay s => exact if_neg fun hq => h hq.1
  | client s => exact if_neg h

/-- What a client does but answer requests. -/
theorem client_noAnswer {e : Client.Event} {x : Input ι Datagram NodeEvent}
    (he : clientEvent x = some e) (nd : Node) (attest : BitVec 32 → Option Checksum)
    (s : Client.State) (resp : SecRndResp) :
    .sendSecResp resp ∉ (Client.step nd attest s e).2 := by
  have hhandler : ∀ mpkt, .sendSecResp resp ∉ (Client.tcpipHandler nd attest s mpkt).2 := by
    intro mpkt
    simp only [Client.tcpipHandler]
    split <;> simp [sendToParents]
  cases e with
  | mcast mpkt => exact hhandler mpkt
  | tcpip pkt =>
    rw [Client.step]
    split
    · exact hhandler _
    · simp
  | broadcast pkt => simp [Client.step]
  | secReq q =>
    exfalso
    cases x with
    | recv src d =>
      obtain ⟨port, pkt⟩ := d
      cases port <;> cases he
    | ext e => cases e <;> cases he

/-- The first round leaves relays in states they can come to, and answers no requests. -/
theorem step_reached {x : Input ι Datagram NodeEvent} {out : List Action} (hu : D.Reached n u)
    (h : D.step n u x = .ok (u', out)) :
    D.Reached n u' ∧ (u' = .router ↔ u = .router) ∧ ∀ resp, .sendSecResp resp ∉ out := by
  cases u with
  | router =>
    cases h
    exact ⟨trivial, Iff.rfl, by simp⟩
  | client s =>
    simp only [step] at h
    split at h
    · cases h
      exact ⟨trivial, by simp, by simp⟩
    · rename_i e he
      cases h
      exact ⟨trivial, by simp, client_noAnswer he _ _ _⟩
  | relay s =>
    obtain ⟨c, t, hr⟩ := hu
    obtain ⟨s', hs, rfl⟩ := step_relay_inv h
    refine ⟨⟨c, _, hr.next trivial hs⟩, by simp, fun resp hresp => ?_⟩
    obtain ⟨q, hq, -⟩ := Relay.secReq_of_answer
      (Relay.outcome_of_step (Relay.run_good hr).bounded hs) hresp trivial
    cases x with
    | recv src d =>
      obtain ⟨port, pkt⟩ := d
      cases port <;> cases hq
    | ext e => cases e <;> cases hq

/-! ## Requests and answers in flight -/

section

variable (D)

/-- The address of the node asked, or of the one that answers. -/
def slot? : Packet (Option ι) SecondPayload → Option Addr
  | ⟨_, some n, .request pktType _⟩ => if pktType = secondRound then some (D.addr n) else none
  | ⟨some n, none, .answer _⟩ => some (D.addr n)
  | _ => none

def slots (flight : List (Packet (Option ι) SecondPayload)) : List Addr :=
  flight.filterMap D.slot?

end

open Verifier (Answers receivedIn requestedIn)

@[simp] theorem slots_append (l l' : List (Packet (Option ι) SecondPayload)) :
    D.slots (l ++ l') = D.slots l ++ D.slots l' := List.filterMap_append

/-- What requests take up, if they go to nodes. -/
theorem slots_sent {out : List Request}
    (hout : ∀ q ∈ out, q.pktType = secondRound → ∃ n, D.addr n = q.dst) :
    D.slots (out.flatMap fun q => (D.secondTestbed L).packets none (.sent q)) =
      requestedIn (out.map .sent) := by
  induction out with
  | nil => rfl
  | cons q out ih =>
    obtain ⟨hq, hout⟩ := List.forall_mem_cons.1 hout
    rw [List.flatMap_cons, slots_append, ih hout, List.map_cons]
    by_cases hk : q.pktType = secondRound
    · obtain ⟨n, hn⟩ := hq hk
      simp [slots, slot?, Network.packets, secondTestbed, partyPost, ← hn, D.resolve_addr,
        requestedIn, hk]
    · cases hr : D.resolve q.dst <;>
        simp [slots, slot?, Network.packets, secondTestbed, partyPost, hr, requestedIn, hk]

/-- The first round takes up nothing. -/
theorem slots_acts {n : ι} {out : List Action} (hout : ∀ resp, .sendSecResp resp ∉ out) :
    D.slots ((out.map PartyOutput.act).flatMap ((D.secondTestbed L).packets (some n))) = [] := by
  refine List.filterMap_eq_nil_iff.2 fun p hp => ?_
  obtain ⟨o, ho, hp⟩ := List.mem_flatMap.1 hp
  obtain ⟨a, ha, rfl⟩ := List.mem_map.1 ho
  obtain ⟨x, hx, rfl⟩ := List.mem_map.1 hp
  cases a with
  | sendSecResp resp => exact absurd ha (hout resp)
  | sendToParents | storeBroadcast | broadcastToParents =>
    obtain ⟨y, -, rfl⟩ := List.mem_map.1 hx
    rfl

/-- Nodes send no requests. -/
theorem noRequest_acts {n : ι} {out : List Action} {c h : Option ι} {q k : BitVec 8} :
    ⟨c, h, .request q k⟩ ∉
      (out.map PartyOutput.act).flatMap ((D.secondTestbed L).packets (some n)) := by
  intro hp
  obtain ⟨o, ho, hp⟩ := List.mem_flatMap.1 hp
  obtain ⟨a, -, rfl⟩ := List.mem_map.1 ho
  obtain ⟨x, hx, hp⟩ := List.mem_map.1 hp
  obtain ⟨-, -, hbody⟩ := Packet.mk.inj hp
  cases a with
  | sendSecResp resp =>
    cases List.mem_singleton.1 hx
    cases hbody
  | sendToParents | storeBroadcast | broadcastToParents =>
    obtain ⟨y, -, rfl⟩ := List.mem_map.1 hx
    cases hbody

/-! ## The verifier in a run -/

section

variable (D)

/-- The trace of the verifier's own machine. -/
def verifierTrace (τ : Trace (Input (Option ι) SecondPayload NodeEvent) PartyOutput) :
    Trace Verifier.Event Request :=
  τ.filterMap fun x => (D.verifierEvent x.1).map fun e => (e, x.2.filterMap PartyOutput.sent?)

end

theorem verifierTrace_snoc (τ : Trace (Input (Option ι) SecondPayload NodeEvent) PartyOutput)
    {x : Input (Option ι) SecondPayload NodeEvent} {e : Verifier.Event} {out : List Request}
    (hx : D.verifierEvent x = some e) :
    D.verifierTrace (τ ++ [(x, out.map .sent)]) = D.verifierTrace τ ++ [(e, out)] := by
  have hout : (out.map PartyOutput.sent).filterMap PartyOutput.sent? = out := by
    rw [List.filterMap_map]
    exact List.filterMap_some
  simp [verifierTrace, List.filterMap_append, hx, hout]

theorem verifierTrace_ignored (τ : Trace (Input (Option ι) SecondPayload NodeEvent) PartyOutput)
    {x : Input (Option ι) SecondPayload NodeEvent} {out : List PartyOutput}
    (hx : D.verifierEvent x = none) : D.verifierTrace (τ ++ [(x, out)]) = D.verifierTrace τ := by
  simp [verifierTrace, List.filterMap_append, hx]

/-! ## The account -/

/-- All requests go to nodes other than the border router. -/
def ToNodes (D : Deployment ι) (nodes : ι → NodeState) (out : List Request) : Prop :=
  ∀ q ∈ out, q.pktType = secondRound → ∃ n, D.addr n = q.dst ∧ nodes n ≠ .router

/-- The verifier runs on answers only, the nodes are as they can be, and what was requested was
answered or is in flight. -/
structure Account (D : Deployment ι) (L : Libc) (nodes : ι → NodeState) (p₀ : Process)
    (out₀ : List Request) (τ : Trace Verifier.Event Request)
    (s : Network.State (Option ι) Party SecondPayload) : Prop where
  verifier : ∃ p, s.node none = .verifier p ∧
    (Verifier.machine L).RunIf (Answers out₀) p₀ τ p
  kept : ∀ n, ∃ u, s.node (some n) = .node u ∧ D.Reached n u ∧ (u = .router ↔ nodes n = .router)
  asked : ∀ c n k, ⟨c, some n, .request secondRound k⟩ ∈ s.flight → nodes n ≠ .router
  account : (requestedIn (Verifier.log out₀ τ)).Perm
    (receivedIn (Verifier.log out₀ τ) ++ D.slots s.flight)

theorem account_perm {R V S S' δ π ρ ν : List Addr} (h : R.Perm (V ++ S))
    (hs : (δ ++ S').Perm (S ++ π)) (hcase : ν = δ ∧ ρ = π ∨ ν = [] ∧ ρ = [] ∧ δ = π) :
    (R ++ ρ).Perm (V ++ ν ++ S') := by
  rcases hcase with ⟨rfl, rfl⟩ | ⟨rfl, rfl, rfl⟩
  · rw [List.append_assoc]
    refine (h.append_right ρ).trans ?_
    rw [List.append_assoc]
    exact hs.symm.append_left V
  · rw [List.append_nil, List.append_nil]
    have hflight : S'.Perm S :=
      (List.perm_append_left_iff δ).1 (hs.trans List.perm_append_comm)
    exact h.trans (hflight.symm.append_left V)

theorem asked_sent {nodes : ι → NodeState} {out : List Request} (hout : ToNodes D nodes out)
    {c : Option ι} {n : ι} {k : BitVec 8} (hp : ⟨c, some n, .request secondRound k⟩ ∈
      out.flatMap fun q => (D.secondTestbed L).packets none (.sent q)) : nodes n ≠ .router := by
  obtain ⟨q, hq, hp⟩ := List.mem_flatMap.1 hp
  obtain ⟨x, hx, hp⟩ := List.mem_map.1 hp
  obtain ⟨n', hn', rfl⟩ := List.mem_map.1 hx
  obtain ⟨-, hdst, hbody⟩ := Packet.mk.inj hp
  obtain ⟨n₁, hn₁, hrouter⟩ := hout q hq (SecondPayload.request.inj hbody).1
  rw [← hn₁, D.resolve_addr] at hn'
  cases hdst
  cases List.mem_singleton.1 hn'
  exact hrouter

theorem receivedIn_sent (out : List Request) : receivedIn (out.map .sent) = [] := by
  refine List.filterMap_eq_nil_iff.2 fun x hx => ?_
  obtain ⟨q, -, rfl⟩ := List.mem_map.1 hx
  rfl

theorem account_start {nodes : ι → NodeState} {p₀ : Process} {out₀ : List Request}
    (hnodes : ∀ n, D.Reached n (nodes n)) (hout : ToNodes D nodes out₀) :
    Account D L nodes p₀ out₀ [] (D.secondStart L nodes p₀ out₀) := by
  refine ⟨⟨p₀, rfl, .start⟩, fun n => ⟨nodes n, rfl, hnodes n, Iff.rfl⟩,
    fun c n k hp => asked_sent hout hp, ?_⟩
  have hlog : Verifier.log out₀ [] = out₀.map .sent := List.append_nil _
  have hslots : D.slots (D.secondStart L nodes p₀ out₀).flight = requestedIn (out₀.map .sent) :=
    slots_sent fun q hq hk => (hout q hq hk).imp fun _ h => h.1
  rw [hlog, receivedIn_sent, hslots, List.nil_append]

/-- The verifier takes an answer in. -/
theorem receivedIn_snoc (out₀ : List Request) (τ : Trace Verifier.Event Request) (src : Addr)
    (out : List Request) :
    receivedIn (Verifier.log out₀ (τ ++ [(.datagram src, out)])) =
        receivedIn (Verifier.log out₀ τ) ++ [src] ∧
      requestedIn (Verifier.log out₀ (τ ++ [(.datagram src, out)])) =
        requestedIn (Verifier.log out₀ τ) ++ requestedIn (out.map .sent) := by
  rw [Verifier.log_snoc, Verifier.receivedIn_append, Verifier.receivedIn_append, receivedIn_sent,
    Verifier.requestedIn_append, Verifier.requestedIn_append]
  exact ⟨rfl, rfl⟩

theorem nodeStep_cases {n : ι} {u u' : NodeState}
    {x : Input (Option ι) SecondPayload NodeEvent} {out : List Action} (hu : D.Reached n u)
    (h : D.nodeStep n u x = .ok (u', out)) :
    D.Reached n u' ∧ (u' = .router ↔ u = .router) ∧
      ((∃ c k, x = .recv c (.request secondRound k) ∧ u' = u ∧
          out = (answerOf u).toList.map .sendSecResp) ∨
        (∀ c k, x ≠ .recv c (.request secondRound k)) ∧ ∀ resp, .sendSecResp resp ∉ out) := by
  cases x with
  | ext e =>
    obtain ⟨hu', hrouter, hno⟩ := step_reached hu h
    exact ⟨hu', hrouter, .inr ⟨by simp, hno⟩⟩
  | recv c body =>
    cases body with
    | request pktType k =>
      cases h
      refine ⟨hu, Iff.rfl, ?_⟩
      by_cases hk : pktType = secondRound
      · subst hk
        exact .inl ⟨c, k, rfl, rfl, secondCallback_eq hu⟩
      · rw [secondCallback_other hk]
        refine .inr ⟨fun c' k' hx => ?_, by simp⟩
        cases hx
        exact hk rfl
    | datagram d =>
      cases c with
      | none =>
        cases h
        exact ⟨hu, Iff.rfl, .inr ⟨by simp, by simp⟩⟩
      | some m =>
        obtain ⟨hu', hrouter, hno⟩ := step_reached hu h
        exact ⟨hu', hrouter, .inr ⟨by simp, hno⟩⟩
    | answer resp =>
      have h : D.nodeStep n u (.recv c (.answer resp)) = .ok (u, []) ∧
          D.nodeStep n u (.recv c (.answer resp)) = .ok (u', out) := ⟨by cases c <;> rfl, h⟩
      cases h.1.symm.trans h.2
      exact ⟨hu, Iff.rfl, .inr ⟨by simp, by simp⟩⟩

/-- What one step does at the verifier: it takes an answer, or ignores what comes. -/
theorem verifier_step {p : Process} {x : Input (Option ι) SecondPayload NodeEvent} {party : Party}
    {acts : List PartyOutput} (h : D.partyStep L none (.verifier p) x = .ok (party, acts)) :
    (∃ n resp p' out, x = .recv (some n) (.answer resp) ∧
      Verifier.step L p (.datagram (D.addr n)) = .ok (p', out) ∧ party = .verifier p' ∧
      acts = out.map .sent) ∨
    D.verifierEvent x = none ∧ party = .verifier p ∧ acts = [] := by
  cases he : D.verifierEvent x with
  | none =>
    simp only [partyStep, he] at h
    cases h
    exact .inr ⟨rfl, rfl, rfl⟩
  | some e =>
    obtain ⟨n, resp, rfl, rfl⟩ : ∃ n resp, x = .recv (some n) (.answer resp) ∧
        e = .datagram (D.addr n) := by
      cases x with
      | ext e => cases he
      | recv c body =>
        cases c with
        | none => cases he
        | some n =>
          cases body with
          | answer resp =>
            cases he
            exact ⟨n, resp, rfl, rfl⟩
          | datagram | request => cases he
    simp only [partyStep, he] at h
    split at h
    · cases h
    · rename_i p' out hs
      cases h
      exact .inl ⟨n, resp, p', out, rfl, hs, rfl, rfl⟩

theorem node_step {n : ι} {u : NodeState} {x : Input (Option ι) SecondPayload NodeEvent}
    {party : Party} {acts : List PartyOutput}
    (h : D.partyStep L (some n) (.node u) x = .ok (party, acts)) :
    ∃ u' out, D.nodeStep n u x = .ok (u', out) ∧ party = .node u' ∧ acts = out.map .act := by
  simp only [partyStep] at h
  split at h
  · cases h
  · rename_i u' out hs
    cases h
    exact ⟨u', out, hs, rfl, rfl⟩

/-- What a delivery to the verifier takes out of flight, if it ignores it. -/
theorem slots_ignored {l : Label (Option ι) SecondPayload NodeEvent} (h : l.target = none)
    (he : D.verifierEvent l.input = none) : l.packet?.toList.filterMap D.slot? = [] := by
  cases l with
  | ext h e => rfl
  | deliver p =>
    obtain ⟨src, dst, body⟩ := p
    cases h
    cases body with
    | answer resp =>
      cases src with
      | none => rfl
      | some n => cases he
    | datagram | request => cases src <;> rfl

theorem slots_noRequest {n : ι} {l : Label (Option ι) SecondPayload NodeEvent}
    (h : l.target = some n) (he : ∀ c k, l.input ≠ .recv c (.request secondRound k)) :
    l.packet?.toList.filterMap D.slot? = [] := by
  cases l with
  | ext h e => rfl
  | deliver p =>
    obtain ⟨src, dst, body⟩ := p
    cases h
    cases body with
    | request pktType k =>
      have hk : pktType ≠ secondRound := fun hk => he src k (by rw [hk]; rfl)
      simp [Network.Label.packet?, slot?, hk]
    | datagram | answer => cases src <;> rfl

/-- What is delivered to the verifier is an answer it has not had. -/
theorem answers_of_account {out₀ : List Request} {τ : Trace Verifier.Event Request} {p : Process}
    {flight : List (Packet (Option ι) SecondPayload)} {n : ι} {resp : SecRndResp}
    (h : (requestedIn (Verifier.log out₀ τ)).Perm
      (receivedIn (Verifier.log out₀ τ) ++ D.slots flight))
    (hp : ⟨some n, none, .answer resp⟩ ∈ flight) :
    Answers out₀ τ p (.datagram (D.addr n)) := by
  have hslot : D.addr n ∈ D.slots flight := List.mem_filterMap.2 ⟨_, hp, rfl⟩
  exact ((List.subperm_append_left _).2 (List.singleton_subperm_iff.2 hslot)).trans
    h.symm.subperm

section Steps

variable {nodes : ι → NodeState} {p₀ p p' : Process} {out₀ : List Request}
  {τ : Trace Verifier.Event Request} {s s' : Network.State (Option ι) Party SecondPayload}

/-- What a node's step takes out of flight and what it posts are the same in number. -/
theorem slots_node {n : ι} {u u' : NodeState} {out : List Action}
    {l : Label (Option ι) SecondPayload NodeEvent} (ha : Account D L nodes p₀ out₀ τ s)
    (hu : s.node (some n) = .node u) (htarget : l.target = some n)
    (hmem : ∀ q ∈ l.packet?, q ∈ s.flight) (h : D.nodeStep n u l.input = .ok (u', out)) :
    l.packet?.toList.filterMap D.slot? = D.slots
      ((out.map PartyOutput.act).flatMap ((D.secondTestbed L).packets (some n))) := by
  obtain ⟨u₁, hu₁, hreached, hrouter⟩ := ha.kept n
  cases hu₁.symm.trans hu
  obtain ⟨-, -, ⟨c, k, hx, rfl, rfl⟩ | ⟨hx, hno⟩⟩ := nodeStep_cases hreached h
  · obtain rfl : l = .deliver ⟨c, some n, .request secondRound k⟩ := by
      cases l with
      | ext h e => cases hx
      | deliver q =>
        obtain ⟨src, dst, body⟩ := q
        cases htarget
        cases hx
        rfl
    have hask := ha.asked c n k (hmem _ rfl)
    cases u' with
    | router => exact absurd (hrouter.1 rfl) hask
    | relay | client => rfl
  · rw [slots_noRequest htarget hx]
    exact (slots_acts hno).symm

variable [DecidableEq ι]

/-- The verifier takes an answer and sends its requests. -/
theorem account_answered {n : ι} {resp : SecRndResp} {out : List Request}
    (hsends : ∀ τ p, (Verifier.machine L).RunIf (Answers out₀) p₀ τ p →
      ToNodes D nodes τ.outputs)
    (ha : Account D L nodes p₀ out₀ τ s) (hp : s.node none = .verifier p)
    (hv : Verifier.step L p (.datagram (D.addr n)) = .ok (p', out))
    (hnode : s'.node = Function.update s.node none (.verifier p'))
    (hmem : ⟨some n, none, .answer resp⟩ ∈ s.flight)
    (hperm : (([⟨some n, none, .answer resp⟩] : List (Packet (Option ι) SecondPayload)) ++
      s'.flight).Perm
        (s.flight ++ (out.map PartyOutput.sent).flatMap ((D.secondTestbed L).packets none))) :
    Account D L nodes p₀ out₀ (τ ++ [(.datagram (D.addr n), out)]) s' := by
  obtain ⟨⟨p₁, hp₁, hrun⟩, hkept, hasked, haccount⟩ := ha
  cases hp₁.symm.trans hp
  have hrun' := hrun.next (answers_of_account haccount hmem) hv
  have hto : ToNodes D nodes out := fun q hq => hsends _ _ hrun' q (by
    rw [Trace.outputs_snoc]
    exact List.mem_append_right _ hq)
  have hpost : (out.map PartyOutput.sent).flatMap ((D.secondTestbed L).packets none) =
      out.flatMap fun q => (D.secondTestbed L).packets none (.sent q) := List.flatMap_map ..
  rw [hpost] at hperm
  have hslots := hperm.filterMap D.slot?
  rw [List.filterMap_append, List.filterMap_append] at hslots
  refine ⟨⟨p', by rw [hnode, Function.update_self], hrun'⟩, fun n' => ?_, fun c n' k hc => ?_, ?_⟩
  · rw [hnode, Function.update_of_ne (Option.some_ne_none n')]
    exact hkept n'
  · obtain hc | hc := List.mem_append.1 (hperm.subset (List.mem_append_right _ hc))
    · exact hasked c n' k hc
    · exact asked_sent hto hc
  · obtain ⟨hrec, hreq⟩ := receivedIn_snoc out₀ τ (D.addr n) out
    rw [hrec, hreq]
    refine account_perm haccount hslots (.inl ⟨rfl, ?_⟩)
    exact (slots_sent fun q hq hk => (hto q hq hk).imp fun _ h => h.1).symm

/-- The verifier ignores what comes, and it was no answer. -/
theorem account_ignored {δ : List (Packet (Option ι) SecondPayload)}
    (ha : Account D L nodes p₀ out₀ τ s) (hp : s.node none = .verifier p)
    (hnode : s'.node = Function.update s.node none (.verifier p))
    (hδ : δ.filterMap D.slot? = []) (hperm : (δ ++ s'.flight).Perm s.flight) :
    Account D L nodes p₀ out₀ τ s' := by
  obtain ⟨hverifier, hkept, hasked, haccount⟩ := ha
  rw [← hp, Function.update_eq_self] at hnode
  have hslots := hperm.filterMap D.slot?
  rw [List.filterMap_append, hδ, List.nil_append] at hslots
  refine ⟨by rwa [hnode], by rwa [hnode], fun c n k hc => ?_, ?_⟩
  · exact hasked c n k (hperm.subset (List.mem_append_right _ hc))
  · exact haccount.trans (hslots.symm.append_left _)

/-- A node takes a step, and posts as many answers as it was delivered requests. -/
theorem account_node {n : ι} {u u' : NodeState} {out : List Action}
    {δ : List (Packet (Option ι) SecondPayload)}
    (ha : Account D L nodes p₀ out₀ τ s) (hu : s.node (some n) = .node u)
    (hreached : D.Reached n u') (hrouter : u' = .router ↔ u = .router)
    (hnode : s'.node = Function.update s.node (some n) (.node u'))
    (hδ : δ.filterMap D.slot? = D.slots
      ((out.map PartyOutput.act).flatMap ((D.secondTestbed L).packets (some n))))
    (hperm : (δ ++ s'.flight).Perm
      (s.flight ++ (out.map PartyOutput.act).flatMap ((D.secondTestbed L).packets (some n)))) :
    Account D L nodes p₀ out₀ τ s' := by
  obtain ⟨⟨p, hp, hrun⟩, hkept, hasked, haccount⟩ := ha
  have hslots := hperm.filterMap D.slot?
  rw [List.filterMap_append, List.filterMap_append] at hslots
  refine ⟨⟨p, ?_, hrun⟩, fun n' => ?_, fun c n' k hc => ?_, ?_⟩
  · rw [hnode, Function.update_of_ne (Option.some_ne_none n).symm, hp]
  · rw [hnode]
    by_cases hn : n' = n
    · subst hn
      obtain ⟨u₁, hu₁, -, hrouter₁⟩ := hkept n'
      cases hu₁.symm.trans hu
      rw [Function.update_self]
      exact ⟨u', rfl, hreached, hrouter.trans hrouter₁⟩
    · rw [Function.update_of_ne fun h => hn (Option.some.inj h)]
      exact hkept n'
  · obtain hc | hc := List.mem_append.1 (hperm.subset (List.mem_append_right _ hc))
    · exact hasked c n' k hc
    · exact (noRequest_acts hc).elim
  · have h := account_perm (ν := []) (ρ := []) haccount hslots (.inr ⟨rfl, rfl, hδ⟩)
    rwa [List.append_nil, List.append_nil] at h

end Steps

variable [DecidableEq ι]

theorem account_step {nodes : ι → NodeState} {p₀ : Process} {out₀ : List Request}
    (hsends : ∀ τ p, (Verifier.machine L).RunIf (Answers out₀) p₀ τ p →
      ToNodes D nodes τ.outputs)
    {t : History (Option ι) SecondPayload NodeEvent PartyOutput}
    {s s' : Network.State (Option ι) Party SecondPayload}
    {l : Label (Option ι) SecondPayload NodeEvent} {out : List (Option ι × PartyOutput)}
    (ha : Account D L nodes p₀ out₀ (D.verifierTrace (traceOf none t)) s)
    (hs : (D.secondTestbed L).machine.step s l = .ok (s', out)) :
    Account D L nodes p₀ out₀ (D.verifierTrace (traceOf none (t ++ [(l, out)]))) s' := by
  obtain ⟨party, acts, hstep, hnode, rfl, hmem, hperm⟩ := Network.step_inv hs
  have htrace : traceOf l.target (t ++ [(l, acts.map fun o => (l.target, o))]) =
      traceOf l.target t ++ [(l.input, acts)] := Network.traceOf_snoc_self
  cases htarget : l.target with
  | none =>
    obtain ⟨p, hp, -⟩ := ha.verifier
    rw [htarget] at hstep hnode hperm htrace
    have hstep : D.partyStep L none (s.node none) l.input = .ok (party, acts) := hstep
    rw [hp] at hstep
    rw [htrace]
    obtain ⟨n, resp, p', o, hx, hv, rfl, rfl⟩ | ⟨hx, rfl, rfl⟩ := verifier_step hstep
    · obtain rfl : l = .deliver ⟨some n, none, .answer resp⟩ := by
        cases l with
        | ext h e => cases hx
        | deliver q =>
          obtain ⟨src, dst, body⟩ := q
          cases htarget
          cases hx
          rfl
      rw [verifierTrace_snoc _ rfl]
      exact account_answered hsends ha hp hv hnode (hmem _ rfl) hperm
    · rw [verifierTrace_ignored _ hx]
      refine account_ignored ha hp hnode (slots_ignored htarget hx) ?_
      rwa [List.flatMap_nil, List.append_nil] at hperm
  | some n =>
    obtain ⟨u, hu, hreached, -⟩ := ha.kept n
    rw [Network.traceOf_snoc_ne (by rw [htarget]; exact Option.some_ne_none n)]
    rw [htarget] at hstep hnode hperm
    have hstep : D.partyStep L (some n) (s.node (some n)) l.input = .ok (party, acts) := hstep
    rw [hu] at hstep
    obtain ⟨u', o, hnodeStep, rfl, rfl⟩ := node_step hstep
    obtain ⟨hreached', hrouter, -⟩ := nodeStep_cases hreached hnodeStep
    exact account_node ha hu hreached' hrouter hnode (slots_node ha hu htarget hmem hnodeStep) hperm

/-- Every node of the map is in the network, and is not the border router; the relays are in states
they can have come to. -/
structure Listens (D : Deployment ι) (L : Libc) (m : NodeMap) (nodes : ι → NodeState) : Prop where
  mapped : ∀ e ∈ m.entries, ∃ n, D.addr n = Verifier.destination L e.addr ∧ nodes n ≠ .router
  reached : ∀ n, D.Reached n (nodes n)

open Verifier (RequestFile expected nodeLines)

omit [DecidableEq ι] in
/-- What a file asks for goes to the nodes of the map. -/
theorem toNodes_expected {m : NodeMap} {nodes : ι → NodeState} (hm : m.Good)
    (hl : Listens D L m nodes) {f : RequestFile} (hf : f.Lists m) :
    ToNodes D nodes (expected L m (nodeLines f.all 0)) := by
  intro q hq hk
  rcases List.mem_append.1 hq with hq | hq
  · rcases List.mem_append.1 hq with hq | hq
    · obtain ⟨x, -, rfl⟩ := List.mem_map.1 hq
      exact absurd (show Verifier.secondTimeStart = secondRound from hk) (by decide)
    · obtain ⟨x, hx, hq⟩ := List.mem_flatMap.1 hq
      rcases List.mem_append.1 hq with hq | hq
      · obtain ⟨id, hid, rfl⟩ := List.mem_map.1 hq
        obtain ⟨e, he, rfl⟩ := hf.mapped x hx id hid
        obtain ⟨n, hn, hrouter⟩ := hl.mapped e he
        refine ⟨n, ?_, hrouter⟩
        rw [hn, Verifier.addressOf_eq hm he, Verifier.getAddrFromId_eq L hm he]
      · cases List.mem_singleton.1 hq
        exact absurd (show Verifier.secondTimeStop = secondRound from hk) (by decide)
  · obtain ⟨x, -, rfl⟩ := List.mem_map.1 hq
    exact absurd (show Verifier.secondTimeDone = secondRound from hk) (by decide)

variable {m : NodeMap} {nodes : ι → NodeState} {f : RequestFile} {p₀ : Process}
  {out₀ : List Request} {t : History (Option ι) SecondPayload NodeEvent PartyOutput}
  {s : Network.State (Option ι) Party SecondPayload}

theorem account_run (hlong : CString.intMax ≤ L.longMax) (hm : m.Good) (hcan : m.Canonical L)
    (hf : f.Lists m) (hl : Listens D L m nodes)
    (h₀ : Verifier.begin L m (some f.text) = .ok (p₀, out₀))
    {C : History (Option ι) SecondPayload NodeEvent PartyOutput →
      Network.State (Option ι) Party SecondPayload →
      Label (Option ι) SecondPayload NodeEvent → Prop}
    (hr : (D.secondTestbed L).machine.RunIf C (D.secondStart L nodes p₀ out₀) t s) :
    Account D L nodes p₀ out₀ (D.verifierTrace (traceOf none t)) s := by
  have hto := toNodes_expected hm hl hf
  have hsent : ∀ τ p, (Verifier.machine L).RunIf (Answers out₀) p₀ τ p →
      ToNodes D nodes (out₀ ++ τ.outputs) := fun τ p hτ q hq =>
    hto q ((Verifier.run_expected hlong hm hcan hf h₀ hτ).2.1.subset hq)
  induction hr with
  | start =>
    refine account_start hl.reached fun q hq => ?_
    exact hsent [] p₀ .start q (List.mem_append_left _ hq)
  | next _ _ hs ih =>
    exact account_step (fun τ p hτ q hq => hsent τ p hτ q (List.mem_append_right _ hq)) ih hs

/-- The second round over a network that neither loses nor duplicates, whatever else its nodes do
and however it is interleaved: no request and no answer faults; at most one is in flight; the
verifier sends what its file asks for, in this order, and stops a round when all nodes of it were
asked and have answered; when nothing of it is in flight, the verifier is through. -/
theorem second_round_closed (hlong : CString.intMax ≤ L.longMax) (hm : m.Good)
    (hcan : m.Canonical L) (hf : f.Lists m) (hl : Listens D L m nodes) :
    ∃ p₀ out₀, Verifier.begin L m (some f.text) = .ok (p₀, out₀) ∧
      ∀ t s, (D.secondTestbed L).machine.Run (D.secondStart L nodes p₀ out₀) t s →
        (∀ p ∈ s.flight, D.slot? p ≠ none →
          ∃ r, (D.secondTestbed L).machine.step s (.deliver p) = .ok r) ∧
        (D.slots s.flight).length ≤ 1 ∧
        out₀ ++ (D.verifierTrace (traceOf none t)).outputs <+:
          expected L m (nodeLines f.all 0) ∧
        Verifier.StopsSound L m (Verifier.rounds L (CString.fgetsAll Verifier.lineSize f.text) 0)
          (Verifier.log out₀ (D.verifierTrace (traceOf none t))) ∧
        (D.slots s.flight = [] → s.node none = .verifier (.exited 0) ∧
          out₀ ++ (D.verifierTrace (traceOf none t)).outputs =
            expected L m (nodeLines f.all 0)) := by
  obtain ⟨p₀, out₀, h₀⟩ := Verifier.begin_lists hlong hm hf
  refine ⟨p₀, out₀, h₀, fun t s hr => ?_⟩
  obtain ⟨⟨p, hp, hrun⟩, hkept, hasked, haccount⟩ := account_run hlong hm hcan hf hl h₀ hr
  obtain ⟨hstep, hprefix, hdone⟩ := Verifier.run_expected hlong hm hcan hf h₀ hrun
  have hv := Verifier.rounds_text hlong f hf.numbers ▸ hf.valid
  have hprogress := Verifier.run_progress hm hv h₀ (Verifier.run_awaited hm hcan hv h₀ hrun)
  refine ⟨fun pkt hpkt hslot => ?_, ?_, hprefix, hprogress.stopsSound hm, fun hnone => ?_⟩
  · obtain ⟨src, dst, body⟩ := pkt
    have hmem : ∀ q ∈ (Label.deliver ⟨src, dst, body⟩ : Label (Option ι) SecondPayload
        NodeEvent).packet?, q ∈ s.flight := by
      rintro q ⟨⟩
      exact hpkt
    cases dst with
    | some n =>
      obtain ⟨u, hu, -⟩ := hkept n
      cases body with
      | request k r =>
        have hn : D.partyStep L (some n) (s.node (some n)) (.recv src (.request k r)) =
            .ok (.node u, (secondCallback u k).map .act) := by rw [hu]; rfl
        exact Network.step_of_node hmem hn
      | datagram | answer => exact absurd (by cases src <;> rfl) hslot
    | none =>
      cases src with
      | none => exact absurd (by cases body <;> rfl) hslot
      | some n =>
        cases body with
        | answer resp =>
          obtain ⟨r, hr⟩ := hstep _ (answers_of_account haccount hpkt)
          have hv : D.partyStep L none (s.node none) (.recv (some n) (.answer resp)) =
              .ok (.verifier r.1, r.2.map .sent) := by
            rw [hp]
            simp only [partyStep, verifierEvent, hr]
          exact Network.step_of_node hmem hv
        | datagram | request => exact absurd rfl hslot
  · have hlen := haccount.length_eq
    cases hprogress with
    | asking _ _ hl | failed _ _ hl =>
      rw [hl, Verifier.requestedIn_asking, List.length_append, List.length_append] at hlen
      exact Nat.le_of_eq (Nat.add_left_cancel hlen).symm
    | finished hl =>
      rw [hl, Verifier.requestedIn_finished, List.length_append] at hlen
      omega
  · rw [hnone, List.append_nil] at haccount
    obtain ⟨rfl, hout⟩ := hdone haccount.symm
    exact ⟨hp, hout⟩

/-! ## Two nodes and the border router -/

open TopologyTree (line lineRouter lineRelay lineClient)

/-- Client 0xa578 below relay 0x1062 below border router 0xa469. -/
def lab : Deployment (Fin 3) :=
  { line with
    node := fun n =>
      if n = lineRouter then ⟨0xa469, 256, [⟨0x1062, 512⟩]⟩
      else if n = lineRelay then ⟨0x1062, 512, [⟨0xa469, 256⟩, ⟨0xa578, 768⟩]⟩
      else ⟨0xa578, 768, [⟨0x1062, 512⟩]⟩
    addr := fun n =>
      if n = lineRouter then 0xfd00000000000000000000000000a469
      else if n = lineRelay then 0xfd000000000000000000000000001062
      else 0xfd00000000000000000000000000a578
    resolve := fun x =>
      if x = 0xfd00000000000000000000000000a469 then some lineRouter
      else if x = 0xfd000000000000000000000000001062 then some lineRelay
      else if x = 0xfd00000000000000000000000000a578 then some lineClient else none
    resolve_addr := by decide }

def labNodes (n : Fin 3) : NodeState :=
  if n = lineRouter then .router
  else if n = lineRelay then .relay (Relay.init (.single 0xa578))
  else .client Client.init

open Verifier (hostLibc hostMap pairFile)

theorem lab_mapped : ∀ e ∈ hostMap.entries, ∃ n,
    lab.addr n = Verifier.destination (hostLibc CString.intMax) e.addr ∧
      labNodes n ≠ .router := by
  intro e he
  rcases List.mem_cons.1 he with rfl | he
  · exact ⟨lineRelay, rfl, fun h => by cases h⟩
  · rw [List.mem_singleton.1 he]
    exact ⟨lineClient, rfl, fun h => by cases h⟩

theorem lab_reached (n : Fin 3) : lab.Reached n (labNodes n) :=
  match n with
  | 0 => trivial
  | 1 => ⟨_, _, .start⟩
  | 2 => trivial

theorem pair_begin : Verifier.begin (hostLibc CString.intMax) hostMap (some pairFile.text) =
    .ok (.running { Verifier.pairState with runNo := 1 },
      [Verifier.start (hostLibc CString.intMax) ⟨1, [2, 3]⟩,
        Verifier.request (hostLibc CString.intMax) hostMap ⟨1, [2, 3]⟩ 2]) := rfl

/-- Both nodes are asked and answer, and the verifier is through. -/
theorem second_round_closed_lab : ∃ p₀ out₀ t s,
    Verifier.begin (hostLibc CString.intMax) hostMap (some pairFile.text) = .ok (p₀, out₀) ∧
      (lab.secondTestbed (hostLibc CString.intMax)).machine.Run
        (lab.secondStart (hostLibc CString.intMax) labNodes p₀ out₀) t s ∧
      s.node none = .verifier (.exited 0) ∧
      out₀ ++ (lab.verifierTrace (traceOf none t)).outputs =
        expected (hostLibc CString.intMax) hostMap [(1, [2, 3])] := by
  obtain ⟨p₀, out₀, h₀, hrun⟩ := second_round_closed (Nat.le_refl _) Verifier.hostMap_good
    (Verifier.hostMap_canonical CString.intMax) Verifier.pairFile_for.lists
    ⟨lab_mapped, lab_reached⟩
  cases pair_begin.symm.trans h₀
  have hr : (lab.secondTestbed (hostLibc CString.intMax)).machine.Run
      (lab.secondStart (hostLibc CString.intMax) labNodes
        (.running { Verifier.pairState with runNo := 1 })
        [Verifier.start (hostLibc CString.intMax) ⟨1, [2, 3]⟩,
          Verifier.request (hostLibc CString.intMax) hostMap ⟨1, [2, 3]⟩ 2])
      [(.deliver ⟨none, some 1, .request secondRound 1⟩, _),
        (.deliver ⟨some 1, none, .answer ⟨0, 0⟩⟩, _),
        (.deliver ⟨none, some 2, .request secondRound 1⟩, _),
        (.deliver ⟨some 2, none, .answer ⟨0, 0⟩⟩, _)] _ :=
    .next (t := [_, _, _]) (.next (t := [_, _]) (.next (t := [_]) (.next (t := [])
      .start trivial rfl) trivial rfl) trivial rfl) trivial rfl
  obtain ⟨hexit, hout⟩ := (hrun _ _ hr).2.2.2.2 rfl
  exact ⟨_, _, _, _, pair_begin, hr, hexit, hout⟩

end Deployment

end Swarna
