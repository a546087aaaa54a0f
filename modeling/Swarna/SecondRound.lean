import Swarna.Broadcasts

/-!
# Swarna.SecondRound

When the answer to a second-round request is backed by a response of the first round. The gate
`first_round_completed` starts as 1 and is never cleared, so every request is answered.

* `emits_iff`: the events that put a response on the network, read off the state before.
* `OwnSet`: `my_checksum` of a relay with children is the own checksum once it has sent a response.
  A leaf never sets it (`run_leaf`): `create_response` keeps the checksum in a local variable.
* `second_round_backed_iff`: every answer is backed exactly when second-round requests reach
  only relays with children, after a response was due.
* `answer_before_round`: a leaf asked at start-up answers with checksum 0.
-/

namespace Swarna
namespace Relay

/-- The actions that put a first-round response on the network. -/
def Action.isEmission : Action → Bool
  | .sendToParents _ _ dst => !dst.isEmpty
  | .storeBroadcast _ => false
  | .broadcastToParents _ => true
  | .sendSecResp _ => false

def Action.isAnswer : Action → Prop
  | .sendToParents _ _ _ => False
  | .storeBroadcast _ => False
  | .broadcastToParents _ => False
  | .sendSecResp _ => True

/-- Every answer comes after a first-round response, and carries the own checksum. -/
def Backed (nd : Node) (l : List Action) : Prop :=
  Whenever Action.isAnswer (fun pre => pre.any Action.isEmission = true) l ∧
    ∀ r, .sendSecResp r ∈ l → r.checksum = ownChecksum nd.id

/-- An event on which a relay with children in state `s` has to put a response on the network. -/
def Sends (nd : Node) (s : State) (e : Event) : Prop :=
  match e with
  | .periodicExpiry => s.periodicTimer.expire.1 = some .sendTopologyResp ∧ parents nd false ≠ []
  | .pExpiry => s.pTimer.expire.1 = some .broadcastToParents
  | _ => ∃ cid t, heard s.childList.ids e = some (cid, .topology t) ∧ cid ∈ s.childList.ids ∧
      parents nd false ≠ [] ∧ (s.curLoc + 1 = s.childList.getChildCount ∨
        maxPathNodes - 3 < s.pathsLoc + (fresh s t.ids).length)

/-- Such an event was part of the run. -/
def HasSent (nd : Node) (b : Buffers) (c : ChildList) (t : History) : Prop :=
  ∃ t₁ x t₂ s₁, t = t₁ ++ x :: t₂ ∧ (machine nd b).Run (init c) t₁ s₁ ∧ Sends nd s₁ x.1

/-- A second-round request comes to a relay with children, after a response was due. -/
def Due (nd : Node) (b : Buffers) (c : ChildList) (t : History) (_ : State) (e : Event) : Prop :=
  ∀ q, e = .secReq q → q.pktType = secondRound → c.ids ≠ [] ∧ HasSent nd b c t

/-! ## What is sent -/

theorem any_isEmission_topology (nd : Node) (out : List TopologyInfo) :
    (out.map fun o => sendToParents nd (.topology o) false).any Action.isEmission = true ↔
      out ≠ [] ∧ parents nd false ≠ [] := by
  cases out <;> simp [sendToParents, Action.isEmission]

theorem udpSecreqCallback_noEmission (s : State) (q : RequestPacket) :
    (udpSecreqCallback s q).any Action.isEmission = false := by
  refine List.any_eq_false.2 fun a ha => ?_
  obtain ⟨-, resp, rfl⟩ := mem_udpSecreqCallback ha
  exact Bool.false_ne_true

/-- A child's topology packet. -/
theorem emits_topology {nd : Node} {b : Buffers} {s s' : State} {e : Event} {cid : NodeId}
    {t : TopologyInfo} {out : List Action} (hb : Bounded s)
    (hh : heard s.childList.ids e = some (cid, .topology t)) (hmem : cid ∈ s.childList.ids)
    (hcur : s.curLoc < maxChild) (h : step nd b s e = .ok (s', out)) :
    out.any Action.isEmission = true ↔
      (s.curLoc + 1 = s.childList.getChildCount ∨
        maxPathNodes - 3 < s.pathsLoc + (fresh s t.ids).length) ∧ parents nd false ≠ [] := by
  obtain ⟨sent, hp, hout⟩ := step_topology_ok hh h
  rw [hout, any_isEmission_topology,
    processTopologyReq_responds hb (ChildList.isChild_iff.2 hmem) hcur hp]

theorem emits_iff {nd : Node} {b : Buffers} {s s' : State} {e : Event} {out : List Action}
    (hb : Bounded s) (hids : s.childList.ids ≠ []) (h : step nd b s e = .ok (s', out)) :
    out.any Action.isEmission = true ↔ Sends nd s e := by
  have ho := outcome_of_step hb h
  -- an event that stores no topology packet of a child and is no expiry sends nothing
  have hquiet : ∀ {e : Event}, e.isTimer = false →
      (∀ cid t, heard s.childList.ids e = some (cid, .topology t) → cid ∉ s.childList.ids) →
      ¬ Sends nd s e := by
    intro e he hn hs
    cases e with
    | periodicExpiry | pExpiry => cases he
    | tcpip | broadcast | mcast | secReq =>
      obtain ⟨cid, t, hh, hmem, -⟩ := hs
      exact hn cid t hh hmem
  cases ho with
  | ignored he ht =>
    refine iff_of_false Bool.false_ne_true (hquiet he fun cid t hh hmem => ?_)
    simp [taken, hh, hmem] at ht
  | request mpkt _ hl _ => exact absurd (isLeaf_iff.1 hl) hids
  | @topology e cid t new s' out hh hmem hcur _ =>
    rw [emits_topology hb hh hmem hcur h]
    constructor
    · rintro ⟨hdue, hpar⟩
      cases e with
      | periodicExpiry | pExpiry | mcast | secReq => cases hh
      | tcpip | broadcast => exact ⟨cid, t, hh, hmem, hpar, hdue⟩
    · intro hs
      cases e with
      | periodicExpiry | pExpiry | mcast | secReq => cases hh
      | tcpip | broadcast =>
        obtain ⟨cid', t', hh', -, hpar, hdue⟩ := hs
        rw [hh] at hh'
        cases hh'
        exact ⟨hdue, hpar⟩
  | attestation hh _ _ =>
    refine iff_of_false Bool.false_ne_true (hquiet (heard_isTimer hh) fun cid t hh' => ?_)
    rw [hh] at hh'
    cases hh'
  | secReq q =>
    rw [udpSecreqCallback_noEmission]
    exact iff_of_false Bool.false_ne_true (hquiet rfl fun _ _ hh => by cases hh)
  | periodicIdle hx =>
    refine iff_of_false Bool.false_ne_true fun hs => ?_
    rw [hs.1] at hx
    cases hx
  | periodicTopology hx => simp [Sends, hx, sendToParents, Action.isEmission]
  | periodicAttestation hx _ | periodicZero hx _ =>
    refine iff_of_false Bool.false_ne_true fun hs => ?_
    rw [hs.1] at hx
    cases hx
  | pIdle hx =>
    refine iff_of_false Bool.false_ne_true fun hs => ?_
    rw [show s.pTimer.expire.1 = _ from hs] at hx
    cases hx
  | pBroadcast hx => exact iff_of_true rfl hx

theorem hasSent_iff {nd : Node} {b : Buffers} {c : ChildList} (hc : c.ids ≠ []) {t : History}
    {s : State} (h : (machine nd b).Run (init c) t s) :
    HasSent nd b c t ↔ t.outputs.any Action.isEmission = true := by
  constructor
  · rintro ⟨t₁, x, t₂, s₁, rfl, h₁, hs⟩
    obtain ⟨s₁', s₂, h₁', -, hstep⟩ := h.split
    cases h₁.unique h₁'
    have hg := run_good h₁
    have hx := (emits_iff hg.bounded (hg.children_eq ▸ hc) hstep).2 hs
    simp [hx]
  · intro hany
    obtain ⟨a, ha, hem⟩ := List.any_eq_true.1 hany
    obtain ⟨x, hx, hax⟩ := List.mem_flatMap.1 ha
    obtain ⟨t₁, t₂, rfl⟩ := List.append_of_mem hx
    obtain ⟨s₁, s₂, h₁, -, hstep⟩ := h.split
    have hg := run_good h₁
    refine ⟨t₁, x, t₂, s₁, rfl, h₁, (emits_iff hg.bounded (hg.children_eq ▸ hc) hstep).1 ?_⟩
    exact List.any_eq_true.2 ⟨a, hax, hem⟩

/-! ## What is answered -/

/-- `my_checksum` is set, or nothing was sent and nothing waits to be. -/
def OwnSet (nd : Node) (t : History) (s : State) : Prop :=
  s.myChecksum = ownChecksum nd.id ∨
    (t.outputs.any Action.isEmission = false ∧ s.pTimer.callback = none)

theorem ownSet_step {nd : Node} {b : Buffers} {t : History} {s s' : State} {e : Event}
    {out : List Action} (hb : Bounded s) (hids : s.childList.ids ≠ []) (hown : OwnSet nd t s)
    (h : step nd b s e = .ok (s', out)) : OwnSet nd (t ++ [(e, out)]) s' := by
  -- a step that sends nothing and touches neither variable
  have hquiet : ∀ {s' : State} {out : List Action}, s'.myChecksum = s.myChecksum →
      s'.pTimer.callback = s.pTimer.callback → out.any Action.isEmission = false →
      OwnSet nd (t ++ [(e, out)]) s' := by
    intro s' out hm hp ho
    rcases hown with hset | ⟨hnone, hcb⟩
    · exact .inl (hm.trans hset)
    · refine .inr ⟨?_, hp.trans hcb⟩
      rw [Trace.outputs_snoc, List.any_append, hnone, ho]
      rfl
  cases outcome_of_step hb h with
  | ignored _ _ => exact hquiet rfl rfl rfl
  | request mpkt _ hl _ => exact absurd (isLeaf_iff.1 hl) hids
  | @topology e cid tp new s' out hh _ _ ho =>
    obtain ⟨sent, hp, hout⟩ := step_topology_ok hh h
    rw [hout]
    rcases processTopologyReq_myChecksum hp with ⟨rfl, hm⟩ | hm
    · exact hquiet hm (by rw [ho.mail.1]) rfl
    · exact .inl hm
  | attestation _ _ _ => exact hquiet rfl rfl rfl
  | secReq q => exact hquiet rfl rfl (udpSecreqCallback_noEmission s q)
  | periodicIdle _ | pIdle _ => exact hquiet rfl rfl rfl
  | periodicTopology _ | periodicAttestation _ _ | periodicZero _ _ => exact .inl rfl
  | pBroadcast hx =>
    -- a response waited, so the checksum was set
    rcases hown with hset | ⟨-, hcb⟩
    · exact .inl hset
    · have hcb' := (CTimer.expire_eq_some.1 hx).2
      rw [hcb] at hcb'
      cases hcb'

theorem run_ownSet {nd : Node} {b : Buffers} {C : History → State → Event → Prop} {c : ChildList}
    (hc : c.ids ≠ []) {t : History} {s : State} (h : (machine nd b).RunIf C (init c) t s) :
    OwnSet nd t s := by
  induction h with
  | start => exact .inr ⟨rfl, rfl⟩
  | next hr _ hs ih =>
    have hg := run_good hr
    exact ownSet_step hg.bounded (hg.children_eq ▸ hc) ih hs

/-- A leaf never sets `my_checksum`, nor `periodic_timer`. -/
theorem run_leaf {nd : Node} {b : Buffers} {C : History → State → Event → Prop} {c : ChildList}
    (hc : c.ids = []) {t : History} {s : State} (h : (machine nd b).RunIf C (init c) t s) :
    s.myChecksum = 0 ∧ s.periodicTimer.callback = none := by
  induction h with
  | start => exact ⟨rfl, rfl⟩
  | @next t s s' e out hr _ hs ih =>
    have hg := run_good hr
    have hids : s.childList.ids = [] := hg.children_eq.trans hc
    have hnone : ∀ f, s.periodicTimer.expire.1 ≠ some f := by
      intro f hx
      have hcb := (CTimer.expire_eq_some.1 hx).2
      rw [ih.2] at hcb
      cases hcb
    cases outcome_of_step hg.bounded hs with
    | ignored | secReq | periodicIdle | pIdle | pBroadcast => exact ih
    | request mpkt _ _ _ =>
      obtain ⟨r, hr⟩ := mcastTcpipHandler_state nd s mpkt
      rw [hr]
      exact ih
    | topology _ hmem _ _ =>
      rw [hids] at hmem
      cases hmem
    | @attestation e cid x a _ _ _ =>
      have hstranger : s.childList.isChild cid = false := by
        by_contra hchild
        have hmem := ChildList.isChild_iff.1 (by simpa using hchild)
        rw [hids] at hmem
        cases hmem
      exact ⟨ih.1, by simpa [attested, hstranger] using ih.2⟩
    | periodicTopology hx | periodicAttestation hx _ | periodicZero hx _ =>
      exact absurd hx (hnone _)

/-- The gate of `udp_secreq_callback` is open from the start. -/
theorem run_completed {nd : Node} {b : Buffers} {C : History → State → Event → Prop}
    {c : ChildList} {t : History} {s : State} (h : (machine nd b).RunIf C (init c) t s) :
    s.firstRoundCompleted = true := by
  induction h with
  | start => rfl
  | @next t s s' e out hr _ hs ih =>
    cases outcome_of_step (run_good hr).bounded hs with
    | ignored | secReq | periodicIdle | pIdle | pBroadcast | attestation | periodicZero => exact ih
    | request mpkt _ _ _ =>
      obtain ⟨r, hr⟩ := mcastTcpipHandler_state nd s mpkt
      rw [hr]
      exact ih
    | periodicTopology | periodicAttestation => rfl
    | topology _ _ _ ho =>
      cases ho with
      | waits hacc _ =>
        obtain ⟨a, p, n, rfl⟩ := hacc.frame
        exact ih
      | completes | splits => rfl

/-- The answer to a request: always the checksum of `my_checksum`. -/
theorem step_secReq {nd : Node} {b : Buffers} {c : ChildList} {t : History} {s s' : State}
    {q : RequestPacket} {out : List Action} (hr : (machine nd b).Run (init c) t s)
    (hq : q.pktType = secondRound) (h : step nd b s (.secReq q) = .ok (s', out)) :
    out = [.sendSecResp ⟨s.maxIndex, s.myChecksum⟩] := by
  obtain ⟨-, hout⟩ := Prod.mk.inj (Except.ok.inj h)
  rw [← hout, udpSecreqCallback, if_pos ⟨hq, run_completed hr⟩]

/-- Only a second-round request is answered. -/
theorem secReq_of_answer {nd : Node} {s s' : State} {e : Event} {out : List Action}
    (h : StepOutcome nd s e s' out) {a : Action} (ha : a ∈ out) (hans : Action.isAnswer a) :
    ∃ q, e = .secReq q ∧ q.pktType = secondRound := by
  cases h with
  | ignored | attestation | periodicIdle | periodicZero | pIdle => cases ha
  | request mpkt _ _ _ =>
    exfalso
    simp only [mcastTcpipHandler] at ha
    split at ha
    · cases ha
    · split at ha
      · cases List.mem_singleton.1 ha
        exact hans
      · split at ha
        · cases List.mem_singleton.1 ha
          exact hans
        · cases ha
  | topology _ _ _ _ =>
    obtain ⟨o, -, rfl⟩ := List.mem_map.1 ha
    exact hans.elim
  | secReq q =>
    exact ⟨q, rfl, (mem_udpSecreqCallback ha).1⟩
  | periodicTopology | periodicAttestation | pBroadcast =>
    cases List.mem_singleton.1 ha
    exact hans.elim

theorem backed_of_due {nd : Node} {b : Buffers} {c : ChildList} {t : History} {s : State}
    (h : (machine nd b).RunIf (Due nd b c) (init c) t s) : Backed nd t.outputs := by
  induction h with
  | start => exact ⟨whenever_nil, fun r hr => by cases hr⟩
  | @next t s s' e out hr hdue hs ih =>
    have ho := outcome_of_step (run_good hr).bounded hs
    rw [Trace.outputs_snoc]
    by_cases hsec : ∃ q, e = .secReq q ∧ q.pktType = secondRound
    · obtain ⟨q, rfl, hq⟩ := hsec
      obtain ⟨hc, hsent⟩ := hdue q rfl hq
      have hem := (hasSent_iff hc hr.run).1 hsent
      have hown : s.myChecksum = ownChecksum nd.id := by
        rcases run_ownSet hc hr with hset | ⟨hnone, -⟩
        · exact hset
        · rw [hem] at hnone
          cases hnone
      rw [step_secReq hr.run hq hs]
      refine ⟨ih.1.snoc fun _ => hem, fun r hr' => ?_⟩
      rcases List.mem_append.1 hr' with hr' | hr'
      · exact ih.2 r hr'
      · cases List.mem_singleton.1 hr'
        exact hown
    · have hno : ∀ a ∈ out, ¬ Action.isAnswer a :=
        fun a ha hans => hsec (secReq_of_answer ho ha hans)
      refine ⟨ih.1.append hno, fun r hr' => ?_⟩
      rcases List.mem_append.1 hr' with hr' | hr'
      · exact ih.2 r hr'
      · exact absurd trivial (hno _ hr')

theorem second_round_backed_iff {nd : Node} {b : Buffers} {c : ChildList} {t : History} {s : State}
    (h : (machine nd b).Run (init c) t s) :
    Backed nd t.outputs ↔ (machine nd b).RunIf (Due nd b c) (init c) t s := by
  refine ⟨fun hback => Machine.runIf_of_run h ?_, backed_of_due⟩
  rintro t₁ ⟨e, out⟩ t₂ s₁ rfl h₁ q rfl hq
  obtain ⟨s₁', s₂, h₁', -, hstep⟩ := h.split
  cases h₁.unique h₁'
  have hout : out = [.sendSecResp ⟨s₁.maxIndex, s₁.myChecksum⟩] := step_secReq h₁ hq hstep
  have hlog : Trace.outputs (t₁ ++ (.secReq q, out) :: t₂) =
      t₁.outputs ++ .sendSecResp ⟨s₁.maxIndex, s₁.myChecksum⟩ :: Trace.outputs t₂ := by
    rw [hout]
    simp
  have hem : t₁.outputs.any Action.isEmission = true := hback.1 _ _ _ hlog trivial
  have hown : s₁.myChecksum = ownChecksum nd.id := by
    refine hback.2 ⟨s₁.maxIndex, s₁.myChecksum⟩ ?_
    rw [hlog]
    simp
  have hc : c.ids ≠ [] := by
    intro hleaf
    rw [(run_leaf hleaf h₁).1] at hown
    exact ownChecksum_ne_zero nd.id hown.symm
  exact ⟨hc, (hasSent_iff hc h₁).2 hem⟩

/-- A topology round of one child, then a second-round request. -/
def askedAfterRound : List Event :=
  [.broadcast 2 (.topology ⟨1, [2], 768, 9⟩), .secReq ⟨secondRound, 0⟩]

theorem second_round_backed_after_round :
    ∃ t s, sampleMachine.exec (init oneChild) askedAfterRound = .ok (t, s) ∧
      sampleMachine.RunIf (Due sampleNode .contiki oneChild) (init oneChild) t s := by
  obtain ⟨t, s, h, o, hlog⟩ : ∃ t s, sampleMachine.exec (init oneChild) askedAfterRound =
      .ok (t, s) ∧ ∃ o, t.outputs =
        [sendToParents sampleNode (.topology o) false] ++ [.sendSecResp ⟨1, ownChecksum 1⟩] :=
    ⟨_, _, rfl, _, rfl⟩
  refine ⟨t, s, h, (second_round_backed_iff (Machine.run_of_exec h)).1 ?_⟩
  rw [hlog]
  have hsent : ∀ a ∈ [sendToParents sampleNode (.topology o) false], ¬ Action.isAnswer a := by
    intro a ha hans
    cases List.mem_singleton.1 ha
    exact hans
  refine ⟨(whenever_nil.append hsent).snoc ?_, ?_⟩
  · exact fun _ => rfl
  · intro r hr
    have hr' : r = ⟨1, ownChecksum 1⟩ := by simpa [sendToParents] using hr
    rw [hr']
    rfl

/-- A leaf relay asked before any round: it answers, with checksum 0. -/
theorem answer_before_round :
    ∃ t s, sampleMachine.exec (init .empty) [.secReq ⟨secondRound, 0⟩] = .ok (t, s) ∧
      ¬ Backed sampleNode t.outputs := by
  obtain ⟨t, s, h, hlog⟩ : ∃ t s, sampleMachine.exec (init .empty) [.secReq ⟨secondRound, 0⟩] =
      .ok (t, s) ∧ t.outputs = [.sendSecResp ⟨0, 0⟩] := ⟨_, _, rfl, rfl⟩
  refine ⟨t, s, h, fun hback => ?_⟩
  have hnone : ([] : List Action).any Action.isEmission = true := hback.1 [] _ [] hlog trivial
  cases hnone

end Relay
end Swarna
