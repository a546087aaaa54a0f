import Swarna.Campaign
import Swarna.SecondTestbed

/-!
# Swarna.Audit

An attestation round, and the second round after it.

* `Settled`: a node that answers with the checksum that went into the aggregates.
* `settled_of_complete`: a complete attestation round leaves every node settled.
* `audited_run`: so every answer is what the node has added to the aggregates.
-/

namespace Swarna

open Network (Label History traceOf)
open Deployment (answerOf)

variable {ι : Type} {D : Deployment ι} {T : Tree ι} {nodes : ι → NodeState} {a : ι → Checksum}

/-! ## The nodes after an attestation round -/

/-- The node answers with what it has added, and none of its timers is left. -/
structure Settled (D : Deployment ι) (nodes : ι → NodeState) (a : ι → Checksum) (n : ι)
    (u : NodeState) : Prop where
  reached : D.Reached n u
  answer : ∀ resp, answerOf u = some resp → resp.checksum = term D nodes a n
  idle : ∀ s, u = .relay s → s.periodicTimer.armed = false ∧ s.pTimer.armed = false

namespace Client

/-- An attestation that succeeds sets the checksum; a request leads to one. -/
theorem step_checksum (nd : Node) (x : Checksum) (s : State) (e : Event) :
    (step nd (fun _ => some x) s e).1.checksum = x ∨
      (step nd (fun _ => some x) s e).1 = s ∧ ∀ mpkt, e ≠ .mcast mpkt := by
  have hhandler : ∀ mpkt, (tcpipHandler nd (fun _ => some x) s mpkt).1.checksum = x := by
    intro mpkt
    simp only [tcpipHandler, createResponse]
    split <;> rfl
  cases e with
  | mcast mpkt => exact .inl (hhandler mpkt)
  | tcpip pkt =>
    rw [step]
    split
    · exact .inl (hhandler _)
    · exact .inr ⟨rfl, by simp⟩
  | broadcast | secReq => exact .inr ⟨rfl, by simp⟩

end Client

namespace AttestationTree

/-- The relay has run on from a start, and a client that was asked has its checksum. -/
structure Tracked (D : Deployment ι) (a : ι → Checksum) (n : ι) (τ : NodeHistory ι)
    (v : NodeState) : Prop where
  relay : ∀ s, v = .relay s → ∃ c t, (Relay.machine (D.node n) D.buffers).Run (Relay.init c)
    (t ++ τ.map fun x => (D.relayEvent x.1, x.2)) s
  client : ∀ s, v = .client s → Asked τ → s.checksum = a n

theorem tracked_start {n : ι} {v : NodeState} (h : D.Reached n v) : Tracked D a n [] v := by
  refine ⟨?_, fun s _ h => ?_⟩
  · rintro s rfl
    obtain ⟨c, t, hr⟩ := h
    exact ⟨c, t, by rwa [List.map_nil, List.append_nil]⟩
  · obtain ⟨x, hx, -⟩ := h
    cases hx

theorem asked_snoc {τ : NodeHistory ι} {x : Input ι Datagram NodeEvent} {acts : List Action}
    (h : Asked (τ ++ [(x, acts)])) : Asked τ ∨ ∃ mpkt, x = .ext (.request mpkt) := by
  obtain ⟨y, hy, mpkt, hm⟩ := h
  rcases List.mem_append.1 hy with hy | hy
  · exact .inl ⟨y, hy, mpkt, hm⟩
  · rw [List.mem_singleton.1 hy] at hm
    exact .inr ⟨mpkt, hm⟩

theorem tracked_step {n : ι} {τ : NodeHistory ι} {v v' : NodeState}
    {x : Input ι Datagram NodeEvent} {acts : List Action} (h : Tracked D a n τ v)
    (hs : (D.assign a).step n v x = .ok (v', acts)) : Tracked D a n (τ ++ [(x, acts)]) v' := by
  cases v with
  | router =>
    cases hs
    exact ⟨by simp, by simp⟩
  | relay s =>
    obtain ⟨c, t, hr⟩ := h.relay s rfl
    obtain ⟨s', hs', rfl⟩ := Deployment.step_relay_inv hs
    refine ⟨fun s₁ h₁ => ?_, by simp⟩
    cases h₁
    refine ⟨c, t, ?_⟩
    rw [List.map_append, ← List.append_assoc]
    exact hr.next trivial hs'
  | client s =>
    simp only [Deployment.step] at hs
    split at hs
    · rename_i hnone
      cases hs
      refine ⟨by simp, fun s₁ h₁ hask => ?_⟩
      cases h₁
      rcases asked_snoc hask with hask | ⟨mpkt, rfl⟩
      · exact h.client s rfl hask
      · cases hnone
    · rename_i e he
      cases hs
      refine ⟨by simp, fun s₁ h₁ hask => ?_⟩
      cases h₁
      rcases Client.step_checksum (D.node n) (a n) s e with hset | ⟨hsame, hno⟩
      · exact hset
      · have hkept : ((D.assign a).attest n) = fun _ => some (a n) := rfl
        rw [hkept, show (D.assign a).node n = D.node n from rfl, hsame]
        rcases asked_snoc hask with hask | ⟨mpkt, rfl⟩
        · exact h.client s rfl hask
        · cases he
          exact absurd rfl (hno mpkt)

variable [Fintype ι] [DecidableEq ι]

/-- After a complete round every node is settled. -/
theorem settled_of_complete (hT : AttestationTree D T nodes)
    (hne : ∀ n rs, nodes n = .relay rs → value D T nodes a n ≠ 0)
    (hreached : ∀ n, D.Reached n (nodes n)) {t : History ι Datagram NodeEvent Action}
    {s : Network.State ι NodeState Datagram}
    (hr : (D.assign a).network.machine.RunIf (AttestationRound T nodes) (Deployment.start nodes)
      t s) (hcomp : Complete nodes t s) (n : ι) : Settled D nodes a n (s.node n) := by
  have htracked := (Network.nodewise (Tracked D a) (fun _ => True) hr
    (fun n => tracked_start (hreached n)) (by simp)
    (fun _ _ l _ _ _ _ hI _ _ hv => ⟨tracked_step (hI l.target) hv, by simp⟩)).1 n
  have hstatus := (run_status hT hne hr).1 n
  have hkept := kept_run hT hne hr n
  cases hstatus with
  | router hn ho hv =>
    rw [hv]
    exact ⟨trivial, by simp [answerOf], by simp⟩
  | waiting hn hnot _ _ => exact absurd (hcomp.asked n ⟨_, hn⟩) hnot
  | @answered cs cs' hn hask ho hv =>
    rw [hv]
    refine ⟨trivial, ?_, by simp⟩
    rintro resp ⟨⟩
    simp only [term, hn]
    exact htracked.client cs' hv hask
  | holding hn _ _ _ hpexp _ _ _ | stored hn _ hpexp _ _ _ _ _ =>
    exact absurd (hcomp.expired n _ hn) hpexp
  | @broadcast rs s' hn hall ho hv harmed hparmed =>
    obtain ⟨c, t₀, hrun⟩ := htracked.relay s' hv
    rw [hv]
    refine ⟨⟨c, _, hrun⟩, ?_, ?_⟩
    · rintro resp ⟨⟩
      obtain ⟨s₁, hs₁, hids, -⟩ := hkept rs hn
      rw [hv] at hs₁
      cases hs₁
      -- a relay with children has its own checksum once it has broadcast
      have hc : c.ids ≠ [] := by
        obtain ⟨d, hd⟩ := hT.relay_child n rs hn
        rw [← (Relay.run_good hrun).children_eq, hids]
        exact List.ne_nil_of_mem (hT.relay_listed n rs hn d hd)
      have hsent : Trace.outputs (t₀ ++ (traceOf n t).map fun x => (D.relayEvent x.1, x.2)) =
          t₀.outputs ++ (traceOf n t).outputs := by
        rw [Trace.outputs_append]
        simp [Trace.outputs, List.flatMap_map]
      simp only [term, hn]
      rcases Relay.run_ownSet hc hrun with hset | ⟨hnone, -⟩
      · exact hset
      · rw [hsent, ho] at hnone
        simp [Relay.Action.isEmission] at hnone
    · rintro s₁ ⟨⟩
      exact ⟨harmed, hparmed⟩

end AttestationTree

/-! ## The second round after it -/

open Verifier (Libc NodeMap Request Process RequestFile expected nodeLines addressOf)

/-- What a settled node does in the second round: it answers, and nothing else. -/
theorem settled_step {n : ι} {u u' : NodeState} {x : Input (Option ι) SecondPayload NodeEvent}
    {out : List Action} (hu : Settled D nodes a n u) (hx : ∀ c d, x ≠ .recv c (.datagram d))
    (hreq : ∀ mpkt, x ≠ .ext (.request mpkt)) (h : D.nodeStep n u x = .ok (u', out)) :
    Settled D nodes a n u' ∧
      ∀ act ∈ out, ∃ resp, act = .sendSecResp resp ∧ resp.checksum = term D nodes a n := by
  cases x with
  | recv c body =>
    cases body with
    | datagram d => exact absurd rfl (hx c d)
    | answer resp =>
      have hnone : D.nodeStep n u (.recv c (.answer resp)) = .ok (u, []) := by cases c <;> rfl
      cases hnone.symm.trans h
      exact ⟨hu, by simp⟩
    | request pktType k =>
      have hsame : D.nodeStep n u (.recv c (.request pktType k)) =
          .ok (u, Deployment.secondCallback u pktType) := by cases c <;> rfl
      cases hsame.symm.trans h
      refine ⟨hu, fun act hact => ?_⟩
      by_cases hk : pktType = secondRound
      · rw [hk, Deployment.secondCallback_eq hu.reached] at hact
        obtain ⟨resp, hresp, rfl⟩ := List.mem_map.1 hact
        exact ⟨resp, rfl, hu.answer resp (Option.mem_toList.1 hresp)⟩
      · rw [Deployment.secondCallback_other hk] at hact
        cases hact
  | ext e =>
    have hstep : D.step n u (.ext e) = .ok (u', out) := h
    obtain ⟨hreached, -, -⟩ := Deployment.step_reached hu.reached hstep
    cases u with
    | router =>
      cases hstep
      exact ⟨hu, by simp⟩
    | client s =>
      cases e with
      | request mpkt => exact absurd rfl (hreq mpkt)
      | periodicExpiry | pExpiry =>
        cases hstep
        exact ⟨hu, by simp⟩
    | relay s =>
      obtain ⟨harmed, hparmed⟩ := hu.idle s rfl
      cases e with
      | request mpkt => exact absurd rfl (hreq mpkt)
      | periodicExpiry =>
        have hidle := Relay.step_periodicIdle (D.node n) D.buffers (CTimer.expire_unarmed harmed)
        cases (Deployment.step_relay hidle).symm.trans hstep
        refine ⟨⟨hreached, hu.answer, ?_⟩, by simp⟩
        rintro s₁ ⟨⟩
        exact ⟨rfl, hparmed⟩
      | pExpiry =>
        have hidle := Relay.step_pIdle (D.node n) D.buffers (CTimer.expire_unarmed hparmed)
        cases (Deployment.step_relay hidle).symm.trans hstep
        refine ⟨⟨hreached, hu.answer, ?_⟩, by simp⟩
        rintro s₁ ⟨⟩
        exact ⟨harmed, rfl⟩

/-- The answers a party has received, each with the node it came from. -/
def answersIn (τ : Trace (Input (Option ι) SecondPayload NodeEvent) PartyOutput) :
    List (ι × SecRndResp) :=
  τ.filterMap fun x =>
    match x.1 with
    | .recv (some n) (.answer resp) => some (n, resp)
    | _ => none

/-- No datagram of the first round, and no answer but with what the node has added. -/
def Truthful (D : Deployment ι) (nodes : ι → NodeState) (a : ι → Checksum)
    (p : Packet (Option ι) SecondPayload) : Prop :=
  match p.body with
  | .datagram _ => False
  | .request _ _ => True
  | .answer resp => ∀ n, p.src = some n → resp.checksum = term D nodes a n

/-- The verifier has had such answers only, the nodes are settled. -/
def Audited (D : Deployment ι) (nodes : ι → NodeState) (a : ι → Checksum) :
    Option ι → Trace (Input (Option ι) SecondPayload NodeEvent) PartyOutput → Party → Prop
  | none, τ, p => (∃ p', p = .verifier p') ∧ ∀ x ∈ answersIn τ, x.2.checksum = term D nodes a x.1
  | some n, _, p => ∃ u, p = .node u ∧ Settled D nodes a n u

/-- The nodes are sent no requests of a first round meanwhile. -/
def NoRequest (_ : History (Option ι) SecondPayload NodeEvent PartyOutput)
    (_ : Network.State (Option ι) Party SecondPayload) :
    Label (Option ι) SecondPayload NodeEvent → Prop
  | .ext _ (.request _) => False
  | _ => True

section

variable {L : Libc}

/-- The verifier takes in true answers only, and what it sends is requests. -/
theorem audited_verifier {τ : Trace (Input (Option ι) SecondPayload NodeEvent) PartyOutput}
    {l : Label (Option ι) SecondPayload NodeEvent} {v party : Party} {acts : List PartyOutput}
    (hI : Audited D nodes a none τ v) (hp : ∀ p ∈ l.packet?, Truthful D nodes a p)
    (hs : D.partyStep L none v l.input = .ok (party, acts)) :
    Audited D nodes a none (τ ++ [(l.input, acts)]) party ∧
      ∀ o ∈ acts, ∀ p ∈ (D.secondTestbed L).packets none o, Truthful D nodes a p := by
  obtain ⟨⟨p', rfl⟩, hall⟩ := hI
  have hnew : ∀ x ∈ answersIn [(l.input, acts)], x.2.checksum = term D nodes a x.1 := by
    intro x hx
    obtain ⟨y, hy, hx⟩ := List.mem_filterMap.1 hx
    rw [List.mem_singleton.1 hy] at hx
    cases l with
    | ext h e => cases hx
    | deliver q =>
      obtain ⟨src, dst, body⟩ := q
      cases src with
      | none => cases hx
      | some n =>
        cases body with
        | answer resp =>
          cases hx
          exact hp _ rfl n rfl
        | datagram | request => cases hx
  obtain ⟨p₁, o, rfl, rfl⟩ : ∃ (p₁ : Process) (o : List Request), party = .verifier p₁ ∧
      acts = o.map PartyOutput.sent := by
    rcases Deployment.verifier_step hs with ⟨n, resp, p₁, o, -, -, rfl, rfl⟩ | ⟨-, rfl, rfl⟩
    · exact ⟨p₁, o, rfl, rfl⟩
    · exact ⟨p', [], rfl, rfl⟩
  refine ⟨⟨⟨p₁, rfl⟩, fun x hx => ?_⟩, fun act hact p hpost => ?_⟩
  · rw [answersIn, List.filterMap_append] at hx
    exact (List.mem_append.1 hx).elim (hall x) (hnew x)
  · obtain ⟨q, -, rfl⟩ := List.mem_map.1 hact
    obtain ⟨y, hy, rfl⟩ := List.mem_map.1 hpost
    obtain ⟨n, -, rfl⟩ := List.mem_map.1 hy
    trivial

/-- A node that is asked for nothing else answers with what it has put into the aggregates. -/
theorem audited_node {s : Network.State (Option ι) Party SecondPayload}
    {t : History (Option ι) SecondPayload NodeEvent PartyOutput}
    {τ : Trace (Input (Option ι) SecondPayload NodeEvent) PartyOutput} {n : ι}
    {l : Label (Option ι) SecondPayload NodeEvent} {v party : Party} {acts : List PartyOutput}
    (hc : NoRequest t s l) (hI : Audited D nodes a (some n) τ v)
    (hp : ∀ p ∈ l.packet?, Truthful D nodes a p)
    (hs : D.partyStep L (some n) v l.input = .ok (party, acts)) :
    Audited D nodes a (some n) (τ ++ [(l.input, acts)]) party ∧
      ∀ o ∈ acts, ∀ p ∈ (D.secondTestbed L).packets (some n) o, Truthful D nodes a p := by
  obtain ⟨u, rfl, hsettled⟩ := hI
  obtain ⟨u', o, hnode, rfl, rfl⟩ := Deployment.node_step hs
  have hdatagram : ∀ c d, l.input ≠ .recv c (.datagram d) := by
    intro c d hl
    cases l with
    | ext h e => cases hl
    | deliver q =>
      obtain ⟨src, dst, body⟩ := q
      cases hl
      exact hp _ rfl
  have hrequest : ∀ mpkt, l.input ≠ .ext (.request mpkt) := by
    intro mpkt hl
    cases l with
    | deliver q => cases hl
    | ext h e =>
      cases hl
      exact hc
  obtain ⟨hsettled', hout⟩ := settled_step hsettled hdatagram hrequest hnode
  refine ⟨⟨u', rfl, hsettled'⟩, fun act hact p hpost => ?_⟩
  obtain ⟨act', hact', rfl⟩ := List.mem_map.1 hact
  obtain ⟨resp, rfl, hresp⟩ := hout act' hact'
  obtain ⟨y, hy, rfl⟩ := List.mem_map.1 hpost
  cases List.mem_singleton.1 hy
  rintro n' ⟨⟩
  exact hresp

variable [DecidableEq ι]

theorem audited_step {s : Network.State (Option ι) Party SecondPayload}
    {t : History (Option ι) SecondPayload NodeEvent PartyOutput}
    {l : Label (Option ι) SecondPayload NodeEvent} {party : Party} {acts : List PartyOutput}
    (hc : NoRequest t s l) (hI : Audited D nodes a l.target (traceOf l.target t) (s.node l.target))
    (hp : ∀ p ∈ l.packet?, Truthful D nodes a p)
    (hs : D.partyStep L l.target (s.node l.target) l.input = .ok (party, acts)) :
    Audited D nodes a l.target (traceOf l.target t ++ [(l.input, acts)]) party ∧
      ∀ o ∈ acts, ∀ p ∈ (D.secondTestbed L).packets l.target o, Truthful D nodes a p := by
  cases htarget : l.target with
  | none =>
    rw [htarget] at hI hs
    exact audited_verifier hI hp hs
  | some n =>
    rw [htarget] at hI hs
    exact audited_node hc hI hp hs

/-- Every answer is what its node has added to the aggregates. -/
theorem audited_run {settled : ι → NodeState} {p₀ : Process} {out₀ : List Request}
    {t : History (Option ι) SecondPayload NodeEvent PartyOutput}
    {s : Network.State (Option ι) Party SecondPayload}
    (hnodes : ∀ n, Settled D nodes a n (settled n))
    (hr : (D.secondTestbed L).machine.RunIf NoRequest (D.secondStart L settled p₀ out₀) t s) :
    ∀ x ∈ answersIn (traceOf none t), x.2.checksum = term D nodes a x.1 := by
  have hinv := Network.nodewise (Audited D nodes a) (Truthful D nodes a) hr ?_ ?_ ?_
  · exact (hinv.1 none).2
  · intro h
    cases h with
    | none => exact ⟨⟨p₀, rfl⟩, by simp [answersIn]⟩
    | some n => exact ⟨settled n, rfl, hnodes n⟩
  · intro p hp
    obtain ⟨q, -, hp⟩ := List.mem_flatMap.1 hp
    obtain ⟨y, hy, rfl⟩ := List.mem_map.1 hp
    obtain ⟨n, -, rfl⟩ := List.mem_map.1 hy
    trivial
  · intro t s l v acts _ hc hI hQ hmem hv
    exact audited_step hc (hI l.target) (fun p hp => hQ p (hmem p hp)) hv

end

/-! ## Answers and aggregates -/

section

variable {L : Libc} {m : NodeMap}

/-- The addresses of the nodes a file asks for, in order. -/
def asksFor (L : Libc) (m : NodeMap) (f : RequestFile) : List Addr :=
  ((nodeLines f.all 0).flatMap Prod.snd).map (addressOf L m)

theorem requestedIn_eq (l : List Verifier.Log) : Verifier.requestedIn l =
    (Verifier.sentIn l).filterMap fun q =>
      if q.pktType = secondRound then some q.dst else none := by
  rw [Verifier.requestedIn, Verifier.sentIn, List.filterMap_filterMap]
  refine List.filterMap_congr fun x _ => ?_
  cases x <;> rfl

/-- Starts and stops aside, the verifier asks the nodes of its file. -/
theorem requested_expected (lines : List (Nat × List Nat)) :
    ((expected L m lines).filterMap fun q =>
      if q.pktType = secondRound then some q.dst else none) =
      (lines.flatMap Prod.snd).map (addressOf L m) := by
  have hstart : ¬ Verifier.secondTimeStart = secondRound := by decide
  have hstop : ¬ Verifier.secondTimeStop = secondRound := by decide
  have hdone : ¬ Verifier.secondTimeDone = secondRound := by decide
  have hhead : ((lines.head?.toList.map fun x => (⟨Verifier.secondTimeStart, BitVec.ofNat 8 x.1,
      Verifier.destination L Verifier.servAddr⟩ : Request)).filterMap fun q =>
        if q.pktType = secondRound then some q.dst else none) = [] := by
    cases lines.head? <;> simp [hstart]
  have hlast : ((lines.getLast?.toList.map fun x => (⟨Verifier.secondTimeDone, BitVec.ofNat 8 x.1,
      Verifier.destination L Verifier.servAddr⟩ : Request)).filterMap fun q =>
        if q.pktType = secondRound then some q.dst else none) = [] := by
    cases lines.getLast? <;> simp [hdone]
  rw [expected, List.filterMap_append, List.filterMap_append, hhead, hlast, List.nil_append,
    List.append_nil]
  clear hhead hlast
  induction lines with
  | nil => rfl
  | cons x lines ih =>
    rw [List.flatMap_cons, List.filterMap_append, ih, List.flatMap_cons, List.map_append]
    simp [List.filterMap_append, List.filterMap_map, hstop]

/-- What the verifier has received are the answers. -/
theorem receivedIn_answers (out₀ : List Request)
    (τ : Trace (Input (Option ι) SecondPayload NodeEvent) PartyOutput) :
    Verifier.receivedIn (Verifier.log out₀ (D.verifierTrace τ)) =
      (answersIn τ).map fun x => D.addr x.1 := by
  rw [Verifier.log, Verifier.receivedIn_append, Deployment.receivedIn_sent, List.nil_append]
  induction τ with
  | nil => rfl
  | cons x τ ih =>
    obtain ⟨inp, out⟩ := x
    have hcons : ∀ e : Verifier.Event, D.verifierEvent inp = some e →
        D.verifierTrace ((inp, out) :: τ) =
          (e, out.filterMap PartyOutput.sent?) :: D.verifierTrace τ := fun e he => by
      simp [Deployment.verifierTrace, he]
    have hskip : D.verifierEvent inp = none →
        D.verifierTrace ((inp, out) :: τ) = D.verifierTrace τ := fun he => by
      simp [Deployment.verifierTrace, he]
    cases inp with
    | ext e => rw [hskip rfl, ih]; rfl
    | recv c body =>
      cases c with
      | none => rw [hskip rfl, ih]; rfl
      | some n =>
        cases body with
        | datagram | request => rw [hskip rfl, ih]; rfl
        | answer resp =>
          rw [hcons _ rfl, List.flatMap_cons, Verifier.receivedIn_append,
            Verifier.receivedIn_append, Deployment.receivedIn_sent, ih]
          rfl

variable [DecidableEq ι]

/-- Answers from each node of a set once combine to the aggregate of the set. -/
theorem xorAll_answers {l : List (ι × SecRndResp)} {S : Finset ι} {g : ι → Checksum}
    (hg : ∀ x ∈ l, x.2.checksum = g x.1) (hone : ∀ n ∈ S, (l.map Prod.fst).count n = 1) :
    xorAll ((l.filter fun x => x.1 ∈ S).map fun x => x.2.checksum) = xorOver S g := by
  have hmap : ((l.filter fun x => x.1 ∈ S).map fun x => x.2.checksum) =
      ((l.map Prod.fst).filter (· ∈ S)).map g := by
    rw [List.filter_map, List.map_map]
    exact List.map_congr_left fun x hx => hg x (List.mem_of_mem_filter hx)
  rw [hmap, xorOver_eq]
  · refine List.nodup_iff_count_le_one.2 fun n => ?_
    by_cases hn : n ∈ S
    · rw [List.count_filter (by simpa using hn), hone n hn]
    · rw [List.count_eq_zero_of_not_mem (by simp [hn])]
      exact Nat.zero_le 1
  · intro n
    rw [List.mem_filter, decide_eq_true_eq, and_iff_right_iff_imp]
    intro hn
    exact List.count_pos_iff.1 (by rw [hone n hn]; exact Nat.one_pos)

/-- Once nothing of the second round is in flight, what its file asks for has been answered. -/
theorem answers_perm (hlong : CString.intMax ≤ L.longMax) (hm : m.Good) (hcan : m.Canonical L)
    {f : RequestFile} (hf : f.Lists m) {settled : ι → NodeState}
    (hl : Deployment.Listens D L m settled) {p₀ : Process} {out₀ : List Request}
    (h₀ : Verifier.begin L m (some f.text) = .ok (p₀, out₀))
    {C : History (Option ι) SecondPayload NodeEvent PartyOutput →
      Network.State (Option ι) Party SecondPayload →
      Label (Option ι) SecondPayload NodeEvent → Prop}
    {t : History (Option ι) SecondPayload NodeEvent PartyOutput}
    {s : Network.State (Option ι) Party SecondPayload}
    (hr : (D.secondTestbed L).machine.RunIf C (D.secondStart L settled p₀ out₀) t s)
    (hquiet : D.slots s.flight = []) :
    ((answersIn (traceOf none t)).map fun x => D.addr x.1).Perm (asksFor L m f) := by
  obtain ⟨⟨p, -, hrun⟩, -, -, haccount⟩ := Deployment.account_run hlong hm hcan hf hl h₀ hr
  rw [hquiet, List.append_nil] at haccount
  have hout := ((Verifier.run_expected hlong hm hcan hf h₀ hrun).2.2 haccount.symm).2
  rw [requestedIn_eq, Verifier.sentIn_log, hout, requested_expected, receivedIn_answers] at haccount
  exact haccount.symm

end

namespace AttestationTree

open Deployment (testbedStart OneMulticast log erasure)

variable [Fintype ι] [DecidableEq ι] {L : Libc} {m : NodeMap} {v w : Nat} {group : List ι}
  {root : ι} {s₀ : BorderRouter.State w}

/-- An attestation round and the second round after it, both over every interleaving. Every node
answers with what it has added to the aggregates; every node asked has answered when nothing is in
flight; and where a file asks each node below a child of the border router once, their answers
combine to what the border router has logged of this child. -/
theorem audit (hT : AttestationTree D T nodes)
    (hne : ∀ n rs, nodes n = .relay rs → value D T nodes a n ≠ 0) (hg : group.Nodup)
    (hgroup : ∀ n, n ∈ group ↔ IsClient nodes n) (hroot : nodes root = .router)
    {t : History ι Payload (StationEvent w) (StationOutput v)}
    {s : Network.State ι (Station w) Payload}
    (hr : ((D.assign a).testbed v group w).machine.RunIf
      (OneMulticast attestation (AttestationRound T nodes)) (testbedStart nodes s₀) t s)
    (hdone : Done nodes t s) (hreached : ∀ n, D.Reached n (nodes n))
    (hlong : CString.intMax ≤ L.longMax) (hm : m.Good) (hcan : m.Canonical L) {f : RequestFile}
    (hf : f.Lists m) (hmap : ∀ e ∈ m.entries, ∃ n,
      D.addr n = Verifier.destination L e.addr ∧ nodes n ≠ .router) :
    ∃ p₀ out₀, Verifier.begin L m (some f.text) = .ok (p₀, out₀) ∧
      ∀ t' s', (D.secondTestbed L).machine.RunIf NoRequest
          (D.secondStart L ((erasure v w).state s).node p₀ out₀) t' s' →
        (∀ x ∈ answersIn (traceOf none t'), x.2.checksum = term D nodes a x.1) ∧
        (D.slots s'.flight = [] →
          ((answersIn (traceOf none t')).map fun x => D.addr x.1).Perm (asksFor L m f) ∧
          ∀ c, T.parent c = some root →
            (∀ n ∈ T.subtree c, (asksFor L m f).count (D.addr n) = 1) →
            .receivedChecksum ((xorAll (((answersIn (traceOf none t')).filter fun x =>
                x.1 ∈ T.subtree c).map fun x => x.2.checksum)).setWidth v)
              (getIdFromAddr (D.addr c)) ∈ log root t) := by
  obtain ⟨s', hr', hnode, hflight⟩ := Deployment.erased_run hg (fun n hn => (hgroup n).1 hn)
    (roundCondition T nodes) hr
  have hcomp := complete_of_done hg hgroup hr hdone hflight
  have hsettled := settled_of_complete hT hne hreached hr' hcomp
  have hkinds := sameKinds_of_status (run_status hT hne hr').1
  rw [hnode] at hsettled hkinds
  have hl : Deployment.Listens D L m ((erasure v w).state s).node :=
    ⟨fun e he => (hmap e he).imp fun n h => ⟨h.1, fun hn => h.2 ((hkinds.router n).1 hn)⟩,
      fun n => (hsettled n).reached⟩
  obtain ⟨p₀, out₀, h₀⟩ := Verifier.begin_lists hlong hm hf
  refine ⟨p₀, out₀, h₀, fun t' s₂ hr₂ => ?_⟩
  have hanswers := audited_run hsettled hr₂
  refine ⟨hanswers, fun hquiet => ?_⟩
  have hperm := answers_perm hlong hm hcan hf hl h₀ hr₂ hquiet
  refine ⟨hperm, fun c hc hone => ?_⟩
  have hcount : ∀ n ∈ T.subtree c, ((answersIn (traceOf none t')).map Prod.fst).count n = 1 := by
    intro n hn
    have hinj : Function.Injective D.addr := fun n n' h =>
      Option.some.inj (by rw [← D.resolve_addr n, h, D.resolve_addr n'])
    rw [← hone n hn, ← hperm.count_eq, ← List.count_map_of_injective _ _ hinj, List.map_map]
    rfl
  rw [xorAll_answers hanswers hcount]
  obtain ⟨heard, -, -, hinbox, hall⟩ := heard_children hT hne hg hgroup hr hroot
  have hlog := log_of_heard hr hroot hinbox
  refine List.mem_of_mem_filter (p := BorderRouter.isAnswer) ?_
  rw [hlog]
  exact List.mem_map.2 ⟨c, hall hdone c hc, rfl⟩

/-! ## Two nodes and the border router -/

open TopologyTree (lineTree lineRouter lineRelay lineClient)
open Deployment (lab labNodes lab_mapped lab_reached pair_begin)
open Verifier (hostLibc hostMap pairFile)

theorem lab_attestationTree : AttestationTree lab lineTree labNodes where
  router n := match n with
    | 0 => iff_of_true rfl rfl
    | 1 | 2 => iff_of_false (fun h => by cases h) (fun h => by cases h)
  client_leaf n s h := match n with
    | 0 | 1 => by cases h
    | 2 => by decide
  relay_child n s h := match n with
    | 0 | 2 => by cases h
    | 1 => ⟨2, rfl⟩
  relay_small n s _ := (Finset.card_le_univ _).trans (by decide)
  relay_listed n s h := match n with
    | 0 | 2 => by cases h
    | 1 => by cases h; decide
  relay_start n s h := match n with
    | 0 | 2 => by cases h
    | 1 => by cases h; exact ⟨rfl, rfl⟩
  hears n r hr := match r with
    | 0 | 1 => match n with
      | 0 | 1 | 2 => by decide
    | 2 => absurd ⟨_, rfl⟩ hr

theorem lab_relay {n : Fin 3} {rs : Relay.State} (h : labNodes n = .relay rs) :
    n = lineRelay := by
  rcases line_node n with rfl | rfl | rfl
  · cases h
  · rfl
  · cases h

theorem lab_subtree : lineTree.subtree lineRelay = {lineRelay, lineClient} := by
  have hchildren : lineTree.children lineRelay = {lineClient} := by decide
  have hleaf : lineTree.subtree lineClient = {lineClient} := Tree.subtree_leaf (by decide)
  rw [Tree.subtree_eq, hchildren, Finset.singleton_biUnion, hleaf]

theorem lab_value {x : Checksum} (hx : ownChecksum 0x1062 ^^^ x ≠ 0) {n : Fin 3} {rs : Relay.State}
    (hn : labNodes n = .relay rs) : value lab lineTree labNodes (lineChecksums x) n ≠ 0 := by
  rw [lab_relay hn, value, lab_subtree, xorOver_insert (by decide), xorOver_singleton]
  exact hx

theorem lab_group (n : Fin 3) : n ∈ [lineClient] ↔ IsClient labNodes n := by
  rw [List.mem_singleton]
  rcases line_node n with rfl | rfl | rfl
  · exact iff_of_false (by decide) fun ⟨_, h⟩ => by cases h
  · exact iff_of_false (by decide) fun ⟨_, h⟩ => by cases h
  · exact iff_of_true rfl ⟨_, rfl⟩

/-- The relay and the client answer with what adds up to the value logged. -/
theorem audit_lab :
    ∃ (t : History (Fin 3) Payload (StationEvent 32) (StationOutput 32))
      (t' : History (Option (Fin 3)) SecondPayload NodeEvent PartyOutput),
      answersIn (traceOf none t') =
        [(lineRelay, ⟨1, ownChecksum 0x1062⟩), (lineClient, ⟨0, 5⟩)] ∧
      .receivedChecksum ((ownChecksum 0x1062 ^^^ 5).setWidth 32) 0x1062 ∈ log lineRouter t := by
  obtain ⟨t, s, h, hquiet, hout, t', s', hr', hanswers, hquiet'⟩ : ∃ t s,
      ((lab.assign (lineChecksums 5)).testbed 32 [lineClient] 32).machine.exec
        (testbedStart labNodes ⟨0, 0, 0, 0, 7⟩) (chainRound 5 (ownChecksum 0x1062 ^^^ 5)) =
          .ok (t, s) ∧ s.flight = [] ∧ Deployment.multicasts t.outputs ≠ [] ∧ ∃ t' s',
      (lab.secondTestbed (hostLibc CString.intMax)).machine.RunIf NoRequest
        (lab.secondStart (hostLibc CString.intMax) ((erasure 32 32).state s).node
          (.running { Verifier.pairState with runNo := 1 })
          [Verifier.start (hostLibc CString.intMax) ⟨1, [2, 3]⟩,
            Verifier.request (hostLibc CString.intMax) hostMap ⟨1, [2, 3]⟩ 2]) t' s' ∧
      answersIn (traceOf none t') =
        [(lineRelay, ⟨1, ownChecksum 0x1062⟩), (lineClient, ⟨0, 5⟩)] ∧
      lab.slots s'.flight = [] :=
    ⟨_, _, rfl, rfl, List.cons_ne_nil _ _,
      [(.deliver ⟨none, some lineRelay, .request secondRound 1⟩, _),
        (.deliver ⟨some lineRelay, none, .answer ⟨1, ownChecksum 0x1062⟩⟩, _),
        (.deliver ⟨none, some lineClient, .request secondRound 1⟩, _),
        (.deliver ⟨some lineClient, none, .answer ⟨0, 5⟩⟩, _)], _,
      .next (t := [_, _, _]) (.next (t := [_, _]) (.next (t := [_]) (.next (t := [])
        .start trivial rfl) trivial rfl) trivial rfl) trivial rfl, rfl, rfl⟩
  obtain ⟨hr, hdone⟩ := chainRound_run (fun _ _ => lab_relay) _ h hquiet hout
  obtain ⟨p₀, out₀, h₀, hrun⟩ := audit lab_attestationTree (fun _ _ => lab_value (by decide))
    (by simp) lab_group (rfl : labNodes lineRouter = .router)
    (Deployment.oneMulticast_of_sole hr) hdone lab_reached (Nat.le_refl _) Verifier.hostMap_good
    (Verifier.hostMap_canonical CString.intMax) Verifier.pairFile_for.lists lab_mapped
  cases pair_begin.symm.trans h₀
  have hasks : asksFor (hostLibc CString.intMax) hostMap pairFile =
      [lab.addr lineRelay, lab.addr lineClient] := rfl
  have hlogged := ((hrun t' s' hr').2 hquiet').2 lineRelay rfl (by
    rw [lab_subtree, hasks]
    decide)
  rw [hanswers, lab_subtree] at hlogged
  exact ⟨t, t', hanswers, hlogged⟩

end AttestationTree

end Swarna
