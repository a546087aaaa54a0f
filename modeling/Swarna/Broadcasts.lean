import Swarna.RelayHistory

/-!
# Swarna.Broadcasts

The attestation response a relay keeps in `ctimer_resp` until `p_timer` expires.

* `MailStep`: what one event does to the response kept and to `p_timer`.
* `broadcast_in_turn_iff`: an inner relay broadcasts each stored response, once and unchanged,
  before it stores the next, exactly in the runs where `p_timer` is not running when the periodic
  timer stores one. A run ends where `checksum_children` would overflow.
* `stored_over`: two rounds in a row, the first response is never sent.
-/

namespace Swarna
namespace Relay

/-- The actions on `ctimer_resp`. -/
def Action.isMail : Action → Bool
  | .sendToParents _ _ _ => false
  | .storeBroadcast _ => true
  | .broadcastToParents _ => true
  | .sendSecResp _ => false

/-- A response is stored, and then broadcast. -/
def storedAndSent (p : ResponsePkt) : List Action := [.storeBroadcast p, .broadcastToParents p]

/-- Each response stored is broadcast, once and as it was stored, before the next is stored; `w`,
stored last, is not broadcast yet. -/
def InTurn (l : List Action) (w : Option ResponsePkt) : Prop :=
  ∃ ps : List ResponsePkt,
    l.filter Action.isMail = ps.flatMap storedAndSent ++ (w.map Action.storeBroadcast).toList

/-- Everything stored on the way is broadcast in turn, what is not broadcast yet by the next expiry
of `p_timer`. -/
def BroadcastInTurn (t : History) (s : State) : Prop :=
  ∃ w, InTurn t.outputs w ∧ ∀ p ∈ w, (pExpiry s).2 = [.broadcastToParents p]

/-- The periodic timer expires and computes a response. -/
def Computes (nd : Node) (s : State) (e : Event) : Prop :=
  e = .periodicExpiry ∧ s.periodicTimer.expire.1 = some .sendAttestationResp ∧
    xorAll s.checksums ^^^ ownChecksum nd.id ≠ 0

/-- No response is computed while `p_timer` runs. -/
def Spaced (nd : Node) (_ : History) (s : State) (e : Event) : Prop :=
  Computes nd s e → s.pTimer.armed = false

/-! ## Lists of stores and broadcasts -/

theorem InTurn.quiet {l out : List Action} {w : Option ResponsePkt} (h : InTurn l w)
    (ho : out.filter Action.isMail = []) : InTurn (l ++ out) w := by
  obtain ⟨ps, hps⟩ := h
  exact ⟨ps, by rw [List.filter_append, ho, List.append_nil, hps]⟩

theorem InTurn.store {l : List Action} (h : InTurn l none) (p : ResponsePkt) :
    InTurn (l ++ [.storeBroadcast p]) (some p) := by
  obtain ⟨ps, hps⟩ := h
  exact ⟨ps, by simp [List.filter_append, hps, Action.isMail]⟩

theorem InTurn.broadcast {l : List Action} {p : ResponsePkt} (h : InTurn l (some p)) :
    InTurn (l ++ [.broadcastToParents p]) none := by
  obtain ⟨ps, hps⟩ := h
  exact ⟨ps ++ [p], by simp [List.filter_append, hps, Action.isMail, storedAndSent]⟩

/-- Between two stores there is a broadcast. -/
theorem no_two_stores {p q : ResponsePkt} {post : List Action} {w : Option ResponsePkt} :
    ∀ {ps : List ResponsePkt} {pre : List Action},
      ps.flatMap storedAndSent ++ (w.map Action.storeBroadcast).toList ≠
        pre ++ .storeBroadcast p :: .storeBroadcast q :: post := by
  intro ps
  induction ps with
  | nil =>
    intro pre h
    have hlen := congrArg List.length h
    cases w <;> simp at hlen
    omega
  | cons x ps ih =>
    intro pre h
    match pre with
    | [] => simp [storedAndSent] at h
    | [a] => simp [storedAndSent] at h
    | a :: a' :: pre =>
      simp only [List.flatMap_cons, storedAndSent, List.cons_append, List.nil_append,
        List.cons.injEq] at h
      exact ih h.2.2

/-! ## One event -/

/-- What an event does to `ctimer_resp` and `p_timer` of a relay with children. -/
inductive MailStep (nd : Node) (s : State) (e : Event) (s' : State) (out : List Action) : Prop where
  | other : ¬ Computes nd s e → out.filter Action.isMail = [] → s'.pTimer = s.pTimer →
      s'.ctimerResp = s.ctimerResp → MailStep nd s e s' out
  | stored (p : ResponsePkt) : Computes nd s e → out = [.storeBroadcast p] →
      s'.pTimer = ⟨true, some .broadcastToParents⟩ → s'.ctimerResp = p → MailStep nd s e s' out
  | sent : ¬ Computes nd s e → s.pTimer.armed = true → out = [.broadcastToParents s.ctimerResp] →
      s'.pTimer.armed = false → MailStep nd s e s' out
  | idle : ¬ Computes nd s e → s.pTimer.expire.1 = none → out = [] →
      s'.pTimer.armed = false → MailStep nd s e s' out

theorem not_computes {nd : Node} {s : State} {e : Event} (he : e.isTimer = false) :
    ¬ Computes nd s e := by
  rintro ⟨rfl, -⟩
  cases he

theorem not_computes_callback {nd : Node} {s : State} {e : Event} {cb : Option PeriodicCallback}
    (hx : s.periodicTimer.expire.1 = cb) (hne : cb ≠ some .sendAttestationResp) :
    ¬ Computes nd s e := fun hc => hne (hx.symm.trans hc.2.1)

theorem TopologyOutcome.mail {nd : Node} {s s' : State} {t : TopologyInfo} {cid : NodeId}
    {new : List NodeId} {out : List TopologyInfo} (h : TopologyOutcome nd s t cid new s' out) :
    s'.pTimer = s.pTimer ∧ s'.ctimerResp = s.ctimerResp := by
  cases h with
  | waits hacc _ =>
    obtain ⟨a, p, n, rfl⟩ := hacc.frame
    exact ⟨rfl, rfl⟩
  | completes hacc _ =>
    obtain ⟨a, p, n, rfl⟩ := hacc.frame
    exact ⟨rfl, rfl⟩
  | splits => exact ⟨rfl, rfl⟩

theorem heard_isTimer {children : List NodeId} {e : Event} {x : NodeId × ResponsePkt}
    (h : heard children e = some x) : e.isTimer = false := by
  cases e with
  | periodicExpiry | pExpiry => cases h
  | tcpip | broadcast | mcast | secReq => rfl

theorem mailStep_of_outcome {nd : Node} {s s' : State} {e : Event} {out : List Action}
    (hids : s.childList.ids ≠ []) (h : StepOutcome nd s e s' out) : MailStep nd s e s' out := by
  cases h with
  | ignored he _ => exact .other (not_computes he) rfl rfl rfl
  | request mpkt _ hl _ => exact absurd (isLeaf_iff.1 hl) hids
  | topology hh _ _ ho =>
    refine .other (not_computes (heard_isTimer hh)) ?_ ho.mail.1 ho.mail.2
    rw [List.filter_eq_nil_iff]
    intro a ha
    obtain ⟨o, -, rfl⟩ := List.mem_map.1 ha
    exact Bool.false_ne_true
  | attestation hh _ _ => exact .other (not_computes (heard_isTimer hh)) rfl rfl rfl
  | secReq secreq =>
    refine .other (not_computes rfl) ?_ rfl rfl
    rw [List.filter_eq_nil_iff]
    intro a ha
    obtain ⟨-, resp, rfl⟩ := mem_udpSecreqCallback ha
    exact Bool.false_ne_true
  | periodicIdle hx => exact .other (not_computes_callback hx (by simp)) rfl rfl rfl
  | periodicTopology hx => exact .other (not_computes_callback hx (by simp)) rfl rfl rfl
  | periodicAttestation hx hne => exact .stored _ ⟨rfl, hx, hne⟩ rfl rfl rfl
  | periodicZero hx hz => exact .other (fun hc => hc.2.2 hz) rfl rfl rfl
  | pIdle hx => exact .idle (fun hc => by cases hc.1) hx rfl rfl
  | pBroadcast hx =>
    exact .sent (fun hc => by cases hc.1) (CTimer.expire_eq_some.1 hx).1 rfl rfl

/-! ## Runs -/

/-- The response that waits for `p_timer`. -/
def waiting (s : State) : Option ResponsePkt :=
  if s.pTimer.armed then some s.ctimerResp else none

/-- While `p_timer` runs, its callback is set and `ctimer_resp` holds what was stored last. -/
structure Kept (t : History) (s : State) : Prop where
  callback : s.pTimer.armed = true → s.pTimer.callback = some .broadcastToParents
  stored : s.pTimer.armed = true →
    ∃ l, t.outputs.filter Action.isMail = l ++ [.storeBroadcast s.ctimerResp]

theorem Kept.sends {t : History} {s : State} (h : Kept t s) {p : ResponsePkt}
    (hp : p ∈ waiting s) : (pExpiry s).2 = [.broadcastToParents p] := by
  unfold waiting at hp
  split at hp
  · rename_i harmed
    cases hp
    have hx : s.pTimer.expire.1 = some .broadcastToParents :=
      CTimer.expire_eq_some.2 ⟨harmed, h.callback harmed⟩
    simp only [pExpiry, hx]
  · cases hp

theorem kept_step {nd : Node} {t : History} {s s' : State} {e : Event} {out : List Action}
    (hk : Kept t s) (h : MailStep nd s e s' out) : Kept (t ++ [(e, out)]) s' := by
  cases h with
  | other _ ho hp hr =>
    constructor
    · rw [hp]
      exact hk.callback
    · rw [hp, hr]
      intro harmed
      obtain ⟨l, hl⟩ := hk.stored harmed
      exact ⟨l, by rw [Trace.outputs_snoc, List.filter_append, ho, List.append_nil, hl]⟩
  | stored p _ ho hp hr =>
    refine ⟨fun _ => by rw [hp], fun _ => ⟨t.outputs.filter Action.isMail, ?_⟩⟩
    rw [Trace.outputs_snoc, List.filter_append, ho, hr]
    rfl
  | sent _ _ _ hoff | idle _ _ _ hoff =>
    exact ⟨fun harmed => by simp [hoff] at harmed, fun harmed => by simp [hoff] at harmed⟩

/-- If nothing waits when a response is computed, the order is kept. -/
theorem inTurn_step {nd : Node} {t : History} {s s' : State} {e : Event} {out : List Action}
    (hk : Kept t s) (hsp : Spaced nd t s e) (ht : InTurn t.outputs (waiting s))
    (h : MailStep nd s e s' out) : InTurn (Trace.outputs (t ++ [(e, out)])) (waiting s') := by
  rw [Trace.outputs_snoc]
  cases h with
  | other _ ho hp hr =>
    have hw : waiting s' = waiting s := by rw [waiting, hp, hr, waiting]
    rw [hw]
    exact ht.quiet ho
  | stored p hc ho hp hr =>
    have hw : waiting s = none := by rw [waiting, hsp hc]; rfl
    have hw' : waiting s' = some p := by rw [waiting, hp, hr]; rfl
    rw [hw] at ht
    rw [hw', show (e, out).2 = [.storeBroadcast p] from ho]
    exact ht.store p
  | sent _ harmed ho hoff =>
    have hw : waiting s = some s.ctimerResp := by rw [waiting, harmed]; rfl
    have hw' : waiting s' = none := by rw [waiting, hoff]; rfl
    rw [hw] at ht
    rw [hw', show (e, out).2 = [.broadcastToParents s.ctimerResp] from ho]
    exact ht.broadcast
  | idle _ hx ho hoff =>
    -- a running timer has a callback, so this one was not running
    have harmed : s.pTimer.armed = false := by
      by_contra h
      have harmed : s.pTimer.armed = true := by simpa using h
      rw [CTimer.expire_eq_some.2 ⟨harmed, hk.callback harmed⟩] at hx
      cases hx
    have hw : waiting s' = waiting s := by rw [waiting, waiting, harmed, hoff]; rfl
    rw [hw]
    exact ht.quiet (by rw [show (e, out).2 = [] from ho]; rfl)

theorem run_kept {nd : Node} {b : Buffers} {C : History → State → Event → Prop} {c : ChildList}
    (hc : c.ids ≠ []) {t : History} {s : State} (h : (machine nd b).RunIf C (init c) t s) :
    Good c.ids t s ∧ Kept t s := by
  refine h.invariant (P := fun t s => Good c.ids t s ∧ Kept t s)
    ⟨good_init c, ⟨fun h => (by cases h), fun h => (by cases h)⟩⟩ ?_
  intro t s e s' out hg _ hs
  have ho := outcome_of_step hg.1.bounded hs
  have hids : s.childList.ids ≠ [] := by rw [hg.1.children_eq]; exact hc
  exact ⟨good_step hg.1 ho, kept_step hg.2 (mailStep_of_outcome hids ho)⟩

theorem run_inTurn {nd : Node} {b : Buffers} {c : ChildList} (hc : c.ids ≠ []) {t : History}
    {s : State} (h : (machine nd b).RunIf (Spaced nd) (init c) t s) :
    InTurn t.outputs (waiting s) := by
  induction h with
  | start => exact ⟨[], rfl⟩
  | next hr hsp hs ih =>
    obtain ⟨hg, hk⟩ := run_kept hc hr
    have hids := hg.children_eq ▸ hc
    exact inTurn_step hk hsp ih (mailStep_of_outcome hids (outcome_of_step hg.bounded hs))

/-- A response computed while another waits is stored right after it. -/
theorem stored_while_waiting {nd : Node} {b : Buffers} {c : ChildList} (hc : c.ids ≠ [])
    {t₁ t₂ : History} {x : Event × List Action} {s s₁ : State}
    (h : (machine nd b).Run (init c) (t₁ ++ x :: t₂) s) (h₁ : (machine nd b).Run (init c) t₁ s₁)
    (hx : Computes nd s₁ x.1) (harmed : s₁.pTimer.armed = true) :
    ∃ pre p q post, (Trace.outputs (t₁ ++ x :: t₂)).filter Action.isMail =
      pre ++ .storeBroadcast p :: .storeBroadcast q :: post := by
  obtain ⟨hg, hk⟩ := run_kept hc h₁
  obtain ⟨s₁', s₂, h₁', -, hs⟩ := h.split
  cases h₁.unique h₁'
  have hids := hg.children_eq ▸ hc
  cases mailStep_of_outcome hids (outcome_of_step hg.bounded hs) with
  | other hn _ _ _ | sent hn _ _ _ | idle hn _ _ _ => exact absurd hx hn
  | stored q _ ho _ _ =>
    obtain ⟨pre, hpre⟩ := hk.stored harmed
    refine ⟨pre, s₁.ctimerResp, q, (Trace.outputs t₂).filter Action.isMail, ?_⟩
    rw [Trace.outputs_append, Trace.outputs_cons, ho, List.filter_append, hpre, List.append_assoc]
    rfl

theorem broadcast_in_turn_iff {nd : Node} {b : Buffers} {c : ChildList} (hc : c.ids ≠ [])
    {t : History} {s : State} (h : (machine nd b).Run (init c) t s) :
    BroadcastInTurn t s ↔ (machine nd b).RunIf (Spaced nd) (init c) t s := by
  constructor
  · rintro ⟨w, ⟨ps, hps⟩, -⟩
    refine Machine.runIf_of_run h fun t₁ x t₂ s₁ ht h₁ hx => ?_
    by_contra harmed
    subst ht
    obtain ⟨pre, p, q, post, hl⟩ := stored_while_waiting hc h h₁ hx (by simpa using harmed)
    rw [hl] at hps
    exact no_two_stores hps.symm
  · intro hr
    exact ⟨waiting s, run_inTurn hc hr, fun p hp => (run_kept hc h).2.sends hp⟩

/-- A child attests, and the timer set for it expires. -/
def attestationRound (checksum : Checksum) : List Event :=
  [.broadcast 2 (.attestation checksum), .periodicExpiry]

theorem broadcast_in_turn_two_rounds :
    ∃ t s, sampleMachine.exec (init oneChild)
        (attestationRound 9 ++ .pExpiry :: attestationRound 5) = .ok (t, s) ∧
      sampleMachine.RunIf (Spaced sampleNode) (init oneChild) t s := by
  let p : ResponsePkt := .attestation (9 ^^^ ownChecksum 1)
  let q : ResponsePkt := .attestation (5 ^^^ ownChecksum 1)
  obtain ⟨t, s, h, hmail, hsend⟩ : ∃ t s, sampleMachine.exec (init oneChild)
      (attestationRound 9 ++ .pExpiry :: attestationRound 5) = .ok (t, s) ∧
        t.outputs.filter Action.isMail = storedAndSent p ++ [.storeBroadcast q] ∧
        (pExpiry s).2 = [.broadcastToParents q] := ⟨_, _, rfl, rfl, rfl⟩
  refine ⟨t, s, h, (broadcast_in_turn_iff (by decide) (Machine.run_of_exec h)).1 ?_⟩
  exact ⟨some q, ⟨[p], by simp [hmail]⟩, fun r hr => by cases hr; exact hsend⟩

/-- The child attests again, and its timer expires before `p_timer`: the second response is stored
over the first. -/
theorem stored_over :
    ∃ t s, sampleMachine.exec (init oneChild) (attestationRound 9 ++ attestationRound 5) =
        .ok (t, s) ∧ ¬ BroadcastInTurn t s := by
  let p : ResponsePkt := .attestation (9 ^^^ ownChecksum 1)
  let q : ResponsePkt := .attestation (5 ^^^ ownChecksum 1)
  obtain ⟨t, s, h, hmail⟩ : ∃ t s, sampleMachine.exec (init oneChild)
      (attestationRound 9 ++ attestationRound 5) = .ok (t, s) ∧
        t.outputs.filter Action.isMail = [.storeBroadcast p, .storeBroadcast q] :=
    ⟨_, _, rfl, rfl⟩
  refine ⟨t, s, h, ?_⟩
  rintro ⟨w, ⟨ps, hps⟩, -⟩
  rw [hmail] at hps
  exact @no_two_stores p q [] w ps [] hps.symm

end Relay
end Swarna
