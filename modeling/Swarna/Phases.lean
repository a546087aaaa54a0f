import Swarna.Rounds

/-!
# Swarna.Phases

The topology phase and the attestation phase share one checksum array, one timer and one reset.
Nothing in the handlers keeps their packets apart.

* `phases_undisturbed`: as long as no packet of one phase arrives while the other phase has
  something waiting, there is room for its checksum, and a parent where ids are brought
  (`Separate`), no event faults, the responses of each phase aggregate packets of that phase only,
  and every id accepted into `paths` stays there until a topology response carries it to a parent.
* `phases_mixed`: an attestation packet and a topology packet complete a topology round of two
  children together.
-/

namespace Swarna
namespace Relay

/-- Packets of children and timers. No packet arrives while the other phase has something waiting, a
checksum or for the topology phase an id, or while `checksum_children` is full; topology packets
come only where there is a parent to send the response to. -/
def Separate (nd : Node) (children : List NodeId) (t : History) (s : State) (e : Event) : Prop :=
  match heard children e with
  | some (cid, .topology _) =>
    cid ∈ children ∧ s.curLoc < maxChild ∧ parents nd false ≠ [] ∧
      ∀ p ∈ pending children t, p.phase = .topology
  | some (cid, .attestation _) =>
    cid ∈ children ∧ s.curLoc < maxChild ∧ (∀ p ∈ pending children t, p.phase = .attestation) ∧
      s.pathsLoc = 0
  | some (_, .other _) => False
  | none => e.isTimer = true

theorem Separate.taken_ne_none {nd : Node} {children : List NodeId} {t : History} {s : State}
    {e : Event} (h : Separate nd children t s e) (he : e.isTimer = false) :
    taken children e ≠ none := by
  intro hn
  simp only [Separate] at h
  split at h
  · rename_i cid tp hh
    simp [taken, hh, h.1] at hn
  · rename_i cid x hh
    simp [taken, hh] at hn
  · exact h
  · rw [he] at h
    cases h

/-- Where something is stored there is room for it. -/
theorem Separate.room {nd : Node} {children : List NodeId} {t : History} {s : State} {e : Event}
    (h : Separate nd children t s e) (he : taken children e ≠ none) : s.curLoc < maxChild := by
  simp only [Separate] at h
  split at h
  · exact h.2.1
  · exact h.2.1
  · exact h.elim
  · rename_i hh
    exact absurd (by simp [taken, hh]) he

/-- The topology responses among the actions. -/
def topologyResponses (out : List Action) : List TopologyInfo :=
  out.filterMap fun
    | .sendToParents (.topology o) false _ => some o
    | _ => none

theorem topologyResponses_map (nd : Node) (out : List TopologyInfo) :
    topologyResponses (out.map fun o => sendToParents nd (.topology o) false) = out := by
  induction out with
  | nil => rfl
  | cons o out ih => simp [topologyResponses, sendToParents]

/-- The ids an event puts into `paths`. -/
def accepted (nd : Node) (b : Buffers) (s : State) (e : Event) : List NodeId :=
  match heard s.childList.ids e with
  | some (cid, .topology t) =>
    if cid ∈ s.childList.ids then acceptedIds nd (e.after b) s t cid else []
  | _ => []

/-- `x` is the own checksum and the checksums of `l`, all of them from packets of phase `ph`. -/
def AggregatesOnly (nd : Node) (ph : Phase) (l : List Taken) (x : Checksum) : Prop :=
  x = xorAll (l.map Taken.checksum) ^^^ ownChecksum nd.id ∧ ∀ p ∈ l, p.phase = ph

/-- What an event that is kept apart from the other phase does: `ids` are the ids waiting before it
and those it accepts. -/
structure Undisturbed (nd : Node) (children : List NodeId) (t : History) (e : Event)
    (ids : List NodeId) (s' : State) (out : List Action) : Prop where
  attestation : ∀ x, .storeBroadcast (.attestation x) ∈ out →
    AggregatesOnly nd .attestation (pending children t) x
  /-- The first response takes what is waiting and the packet just heard; a second one, sent while
  the same packet is copied, has nothing left to aggregate. -/
  topology : ∀ o os, topologyResponses out = o :: os →
    AggregatesOnly nd .topology (pending children t ++ (taken children e).toList) o.checksum ∧
      ∀ o' ∈ os, AggregatesOnly nd .topology [] o'.checksum
  kept : ∀ x ∈ ids, x ∈ s'.ids ∨
    ∃ o dst, .sendToParents (.topology o) false dst ∈ out ∧ dst ≠ [] ∧ x ∈ o.ids

/-- The timer is set for the phase that has something waiting, and there is a parent for what the
topology phase has. -/
structure InPhase (nd : Node) (children : List NodeId) (t : History) (s : State) : Prop where
  topology : ((∃ p ∈ pending children t, p.phase = .topology) ∨ s.pathsLoc ≠ 0) →
    s.periodicTimer.callback = some .sendTopologyResp ∧
      (∀ p ∈ pending children t, p.phase = .topology) ∧ parents nd false ≠ []
  attestation : (∃ p ∈ pending children t, p.phase = .attestation) →
    s.periodicTimer.callback = some .sendAttestationResp
  firstChild : s.firstChild = false → ∃ p ∈ pending children t, p.phase = .attestation

theorem inPhase_init (nd : Node) (c : ChildList) : InPhase nd c.ids [] (init c) :=
  ⟨by simp [init], by simp, by simp [init]⟩

/-- After a response nothing is waiting, unless ids of the last packet remain. -/
theorem inPhase_responded {nd : Node} {children : List NodeId} {t : History} {e : Event}
    {out : List Action} {s : State} (ho : responded out = true) (hf : s.firstChild = true)
    (hp : s.pathsLoc ≠ 0 →
      s.periodicTimer.callback = some .sendTopologyResp ∧ parents nd false ≠ []) :
    InPhase nd children (t ++ [(e, out)]) s := by
  have hpend : pending children (t ++ [(e, out)]) = [] := by simp [pending_snoc, ho]
  refine ⟨?_, ?_, by simp [hf]⟩ <;> rw [hpend]
  · rintro (⟨_, hmem, _⟩ | hne)
    · cases hmem
    · exact ⟨(hp hne).1, by simp, (hp hne).2⟩
  · rintro ⟨_, hmem, _⟩
    cases hmem

theorem inPhase_quiet {nd : Node} {children : List NodeId} {t : History} {e : Event}
    {out : List Action} {s s' : State} (h : InPhase nd children t s) (ho : responded out = false)
    (he : taken children e = none) (hp : s'.pathsLoc = s.pathsLoc)
    (ht : s'.periodicTimer.callback = s.periodicTimer.callback)
    (hf : s'.firstChild = s.firstChild) : InPhase nd children (t ++ [(e, out)]) s' := by
  have hpend : pending children (t ++ [(e, out)]) = pending children t := by
    simp [pending_snoc, ho, he]
  exact ⟨by rw [hpend, hp, ht]; exact h.topology, by rw [hpend, ht]; exact h.attestation,
    by rw [hpend, hf]; exact h.firstChild⟩

/-- A topology packet waits with others of its phase, or is answered. -/
theorem inPhase_topology {nd : Node} {t : History} {s s' : State} {e : Event} {cid : NodeId}
    {tp : TopologyInfo} {new : List NodeId} {sent : List TopologyInfo}
    (h : InPhase nd s.childList.ids t s)
    (hh : heard s.childList.ids e = some (cid, .topology tp)) (hmem : cid ∈ s.childList.ids)
    (hparent : parents nd false ≠ [])
    (hphase : ∀ p ∈ pending s.childList.ids t, p.phase = .topology)
    (ho : TopologyOutcome nd s tp cid new s' sent) :
    InPhase nd s.childList.ids
      (t ++ [(e, sent.map fun o => sendToParents nd (.topology o) false)]) s' := by
  -- no attestation packet is waiting, so the relay is at its first attestation packet still
  have hfirst : s.firstChild = true := by
    by_contra hf
    obtain ⟨p, hp, hatt⟩ := h.firstChild (by simpa using hf)
    rw [hphase p hp] at hatt
    cases hatt
  cases ho with
  | waits hacc _ =>
    have hpend : ∀ p ∈ pending s.childList.ids (t ++ [(e, [])]), p.phase = .topology := by
      intro p hp
      rw [pending_snoc] at hp
      simp only [responded, List.any_nil, Bool.false_eq_true, if_false, taken, hh, hmem, if_true,
        Option.toList_some, List.mem_append, List.mem_singleton] at hp
      rcases hp with hp | rfl
      · exact hphase p hp
      · rfl
    obtain ⟨a, p, n, rfl⟩ := hacc.frame
    refine ⟨fun _ => ⟨rfl, hpend, hparent⟩, ?_, fun hf => by rw [hfirst] at hf; cases hf⟩
    rintro ⟨p, hp, hatt⟩
    rw [hpend p hp] at hatt
    cases hatt
  | completes _ _ =>
    exact inPhase_responded (by rw [responded_topology]; rfl) rfl (by simp)
  | splits =>
    exact inPhase_responded (by rw [responded_topology]; rfl) rfl fun _ => ⟨rfl, hparent⟩

/-- An attestation packet waits with others of its phase. -/
theorem inPhase_attestation {nd : Node} {t : History} {s : State} {e : Event} {cid : NodeId}
    {x : Checksum} {a : Vector Checksum maxChild} (h : InPhase nd s.childList.ids t s)
    (hh : heard s.childList.ids e = some (cid, .attestation x)) (hmem : cid ∈ s.childList.ids)
    (hphase : ∀ p ∈ pending s.childList.ids t, p.phase = .attestation) (hloc : s.pathsLoc = 0) :
    InPhase nd s.childList.ids (t ++ [(e, [])]) (attested s cid a) := by
  have hpend : pending s.childList.ids (t ++ [(e, [])]) =
      pending s.childList.ids t ++ [⟨.attestation, cid, x⟩] := by
    simp [pending_snoc, responded, taken, hh]
  have hc : s.childList.isChild cid = true := ChildList.isChild_iff.2 hmem
  refine ⟨?_, fun _ => ?_, fun _ => ⟨⟨.attestation, cid, x⟩, by simp [hpend], rfl⟩⟩
  · rw [hpend]
    rintro (⟨p, hp, htop⟩ | hne)
    · rcases List.mem_append.1 hp with hp | hp
      · rw [hphase p hp] at htop
        cases htop
      · rw [List.mem_singleton.1 hp] at htop
        cases htop
    · exact absurd hloc hne
  · cases hf : s.firstChild with
    | true => simp [attested, hc, hf, CTimer.set]
    | false => simpa [attested, hc, hf] using h.attestation (h.firstChild hf)

theorem inPhase_step {nd : Node} {t : History} {s s' : State} {e : Event} {out : List Action}
    (h : InPhase nd s.childList.ids t s) (hsep : Separate nd s.childList.ids t s e)
    (ho : StepOutcome nd s e s' out) : InPhase nd s.childList.ids (t ++ [(e, out)]) s' := by
  cases ho with
  | ignored _ he => exact inPhase_quiet h rfl he rfl rfl rfl
  | request mpkt _ _ he =>
    obtain ⟨r, hr⟩ := mcastTcpipHandler_state nd s mpkt
    rw [hr]
    exact inPhase_quiet h (mcastTcpipHandler_responded nd s mpkt) he rfl rfl rfl
  | topology hh hmem _ ho =>
    simp only [Separate, hh] at hsep
    exact inPhase_topology h hh hmem hsep.2.2.1 hsep.2.2.2 ho
  | attestation hh _ _ =>
    simp only [Separate, hh] at hsep
    exact inPhase_attestation h hh hsep.1 hsep.2.2.1 hsep.2.2.2
  | secReq secreq => cases hsep
  | periodicIdle | periodicZero => exact inPhase_quiet h rfl rfl rfl rfl rfl
  | periodicTopology | periodicAttestation => exact inPhase_responded rfl rfl (by simp)
  | pIdle | pBroadcast => exact inPhase_quiet h rfl rfl rfl rfl rfl

theorem run_inPhase {nd : Node} {b : Buffers} {c : ChildList} {t : History} {s : State}
    (hr : (machine nd b).RunIf (Separate nd c.ids) (init c) t s) :
    Good c.ids t s ∧ InPhase nd c.ids t s := by
  refine hr.invariant (P := fun t s => Good c.ids t s ∧ InPhase nd c.ids t s)
    ⟨good_init c, inPhase_init nd c⟩ ?_
  intro t s e s' out ⟨hg, hp⟩ hsep hs
  have ho := outcome_of_step hg.bounded hs
  have hids := hg.children_eq
  refine ⟨good_step hg ho, ?_⟩
  rw [← hids] at hp hsep ⊢
  exact inPhase_step hp hsep ho

/-! ## Undisturbed responses -/

theorem undisturbed_silent {nd : Node} {children : List NodeId} {t : History} {e : Event}
    {ids : List NodeId} {s' : State} (h : ∀ x ∈ ids, x ∈ s'.ids) :
    Undisturbed nd children t e ids s' [] :=
  ⟨by simp, by simp [topologyResponses], fun x hx => .inl (h x hx)⟩

theorem undisturbed_topology {nd : Node} {s s' : State} {t : History} {e : Event} {cid : NodeId}
    {tp : TopologyInfo} {new : List NodeId} {sent : List TopologyInfo}
    (hcs : s.checksums = (pending s.childList.ids t).map Taken.checksum)
    (hh : heard s.childList.ids e = some (cid, .topology tp)) (hmem : cid ∈ s.childList.ids)
    (hp : ∀ p ∈ pending s.childList.ids t, p.phase = .topology) (hparent : parents nd false ≠ [])
    (ho : TopologyOutcome nd s tp cid new s' sent) :
    Undisturbed nd s.childList.ids t e (s.ids ++ new) s'
      (sent.map fun o => sendToParents nd (.topology o) false) := by
  have ht : taken s.childList.ids e = some ⟨.topology, cid, tp.checksum⟩ := by
    simp [taken, hh, hmem]
  have hall : ∀ p ∈ pending s.childList.ids t ++ (taken s.childList.ids e).toList,
      p.phase = .topology := by
    intro p hp'
    rcases List.mem_append.1 hp' with hp' | hp'
    · exact hp p hp'
    · rw [ht] at hp'
      rw [List.mem_singleton.1 hp']
  have hsum : (pending s.childList.ids t ++ (taken s.childList.ids e).toList).map Taken.checksum =
      s.checksums ++ [tp.checksum] := by
    rw [ht, hcs]
    simp
  have hbuilt : ∀ {s₀ : State}, s₀.pathsLoc ≤ maxPathNodes - 2 →
      (topologyResp nd s₀).ids = (topologyResp nd s₀).path := fun h => topologyResp_ids h
  have hsent : ∀ {o x}, o ∈ sent → x ∈ o.ids → ∃ o dst, .sendToParents (.topology o) false dst ∈
      sent.map (fun o => sendToParents nd (.topology o) false) ∧ dst ≠ [] ∧ x ∈ o.ids :=
    fun ho hx => ⟨_, parents nd false, List.mem_map_of_mem ho, hparent, hx⟩
  refine ⟨by simp [sendToParents], ?_, ?_⟩
  · rw [topologyResponses_map]
    intro o os hos
    cases ho with
    | waits => cases hos
    | completes hacc _ =>
      cases hos
      refine ⟨⟨?_, hall⟩, by simp⟩
      rw [hsum, ← hacc.checksums]
      rfl
    | splits ho₁ hos₁ _ _ _ =>
      cases hos
      exact ⟨⟨by rw [hsum]; exact ho₁, hall⟩, fun o' ho' => ⟨by simpa using hos₁ o' ho', by simp⟩⟩
  · intro x hx
    cases ho with
    | waits hacc _ => exact .inl (hacc.kept x hx)
    | @completes s₂ hacc _ =>
      have hloc : s₂.pathsLoc ≤ maxPathNodes - 2 := by have := hacc.bounded.pathsLoc_le; omega
      refine .inr (hsent (List.mem_singleton_self _) ?_)
      rw [topologyResp_ids hloc]
      exact List.mem_append_left _ (hacc.kept x hx)
    | splits _ _ hb _ hkept =>
      rcases hkept x hx with h | ⟨o, ho, hxo⟩
      · exact .inl h
      · obtain ⟨s₀, hloc, rfl⟩ := hb o ho
        exact .inr (hsent ho (by rw [hbuilt hloc]; exact hxo))

/-- The expiry of a timer set to send the topology response. -/
theorem undisturbed_periodicTopology {nd : Node} {s s' : State} {t : History} (hb : Bounded s)
    (hcs : s.checksums = (pending s.childList.ids t).map Taken.checksum)
    (hin : InPhase nd s.childList.ids t s)
    (hcb : s.periodicTimer.callback = some .sendTopologyResp) :
    Undisturbed nd s.childList.ids t .periodicExpiry s.ids s'
      [sendToParents nd (.topology (topologyResp nd s)) false] := by
  have hall : ∀ p ∈ pending s.childList.ids t, p.phase = .topology := by
    intro p hp
    cases hph : p.phase with
    | topology => rfl
    | attestation =>
      rw [hin.attestation ⟨p, hp, hph⟩] at hcb
      cases hcb
  refine ⟨by simp [sendToParents], ?_, ?_⟩
  · intro o os hos
    cases hos
    refine ⟨⟨?_, ?_⟩, by simp⟩
    · simp only [taken, heard, Option.toList_none, List.append_nil, ← hcs]
      rfl
    · simpa [taken, heard] using hall
  · intro x hx
    have hloc : s.pathsLoc ≤ maxPathNodes - 2 := by have := hb.pathsLoc_le; omega
    have hwaits : s.pathsLoc ≠ 0 := by
      intro hzero
      rw [State.ids, hzero] at hx
      cases hx
    exact .inr ⟨topologyResp nd s, _, List.mem_singleton_self _, (hin.topology (.inr hwaits)).2.2,
      by rw [topologyResp_ids hloc]; exact List.mem_append_left _ hx⟩

/-- The expiry of a timer set to send the attestation response: neither a topology packet nor an id
is waiting then. -/
theorem undisturbed_periodicAttestation {nd : Node} {s s' : State} {t : History}
    (hcs : s.checksums = (pending s.childList.ids t).map Taken.checksum)
    (hin : InPhase nd s.childList.ids t s)
    (hcb : s.periodicTimer.callback = some .sendAttestationResp) :
    Undisturbed nd s.childList.ids t .periodicExpiry s.ids s'
      [.storeBroadcast (.attestation (xorAll s.checksums ^^^ ownChecksum nd.id))] := by
  have hno : ¬ ((∃ p ∈ pending s.childList.ids t, p.phase = .topology) ∨ s.pathsLoc ≠ 0) := by
    intro h
    rw [(hin.topology h).1] at hcb
    cases hcb
  have hloc : s.pathsLoc = 0 := by
    by_contra h
    exact hno (.inr h)
  refine ⟨?_, by simp [topologyResponses], ?_⟩
  · intro x hx
    simp only [List.mem_singleton, Action.storeBroadcast.injEq,
      ResponsePkt.attestation.injEq] at hx
    refine ⟨by rw [hx, hcs], fun p hp => ?_⟩
    cases hph : p.phase with
    | topology => exact absurd (.inl ⟨p, hp, hph⟩) hno
    | attestation => rfl
  · intro x hx
    simp [State.ids, hloc] at hx

/-- While a packet of one phase never arrives with something of the other phase waiting, and there
is room and a parent for what comes, every event is handled to its end, every response aggregates
its own phase only, and no id is lost. -/
theorem phases_undisturbed {nd : Node} {b : Buffers} {c : ChildList} {t : History} {s : State}
    (hr : (machine nd b).RunIf (Separate nd c.ids) (init c) t s) {e : Event}
    (hsep : Separate nd c.ids t s e) : ∃ s' out, step nd b s e = .ok (s', out) ∧
      Undisturbed nd c.ids t e (s.ids ++ accepted nd b s e) s' out := by
  obtain ⟨hg, hin⟩ := run_inPhase hr
  have hcs := hg.checksums
  rw [← hg.children_eq] at hsep hin hcs ⊢
  obtain ⟨s', out, hs, ho⟩ :
      ∃ s' out, step nd b s e = .ok (s', out) ∧ StepOutcome nd s e s' out := by
    rcases step_outcome nd b e hg.bounded with ⟨-, htaken, hfull⟩ | hok
    · have hroom := hsep.room (Option.isSome_iff_ne_none.1 htaken)
      omega
    · exact hok
  refine ⟨s', out, hs, ?_⟩
  -- only a topology packet accepts ids
  have hnone : (∀ cid tp, heard s.childList.ids e ≠ some (cid, .topology tp)) →
      s.ids ++ accepted nd b s e = s.ids := by
    intro h
    simp [accepted]
  cases ho with
  | ignored htimer he | request _ htimer _ he => exact absurd he (hsep.taken_ne_none htimer)
  | @topology e cid tp new s' sent hh hmem hcur ho =>
    have hc : s.childList.isChild cid = true := ChildList.isChild_iff.2 hmem
    obtain ⟨s₁, sent₁, hreq₁, ho₁⟩ := processTopologyReq_cases nd (e.after b) tp hg.bounded hc hcur
    obtain ⟨sent₂, hreq, hsent⟩ := step_topology_ok hh hs
    rw [hreq₁] at hreq
    cases hreq
    rw [hsent]
    simp only [accepted, hh, hmem, if_true]
    simp only [Separate, hh] at hsep
    obtain ⟨-, -, hparent, hphase⟩ := hsep
    exact undisturbed_topology hcs hh hmem hphase hparent ho₁
  | attestation hh _ _ =>
    rw [hnone (by simp [hh])]
    exact undisturbed_silent fun x hx => hx
  | secReq => cases hsep
  | periodicIdle | periodicZero | pIdle =>
    rw [hnone (by simp [heard])]
    exact undisturbed_silent fun x hx => hx
  | periodicTopology hx =>
    rw [hnone (by simp [heard])]
    exact undisturbed_periodicTopology hg.bounded hcs hin (CTimer.expire_eq_some.1 hx).2
  | periodicAttestation hx _ =>
    rw [hnone (by simp [heard])]
    exact undisturbed_periodicAttestation hcs hin (CTimer.expire_eq_some.1 hx).2
  | pBroadcast =>
    rw [hnone (by simp [heard])]
    exact ⟨by simp, by simp [topologyResponses], fun x hx => .inl hx⟩

theorem phases_undisturbed_completion :
    ∃ s' out, step sampleNode .contiki oneHeard (.broadcast 3 (.topology ⟨1, [3], 768, 5⟩)) =
        .ok (s', out) ∧
      Undisturbed sampleNode twoChildren.ids
        [(.broadcast 2 (.topology ⟨1, [2], 768, 9⟩), [])]
        (.broadcast 3 (.topology ⟨1, [3], 768, 5⟩))
        (oneHeard.ids ++ accepted sampleNode .contiki oneHeard
          (.broadcast 3 (.topology ⟨1, [3], 768, 5⟩))) s' out := by
  have hr : sampleMachine.RunIf (Separate sampleNode twoChildren.ids) (init twoChildren)
      [(.broadcast 2 (.topology ⟨1, [2], 768, 9⟩), [])] oneHeard :=
    .next (t := []) .start ⟨by decide, by decide, by decide, by decide⟩ rfl
  have hsep : Separate sampleNode twoChildren.ids
      [(.broadcast 2 (.topology ⟨1, [2], 768, 9⟩), [])] oneHeard
      (.broadcast 3 (.topology ⟨1, [3], 768, 5⟩)) := ⟨by decide, by decide, by decide, by decide⟩
  exact phases_undisturbed hr hsep

/-- A relay of two children that has heard an attestation packet of child 2. -/
def oneAttested : State :=
  match processAttestationReq (init twoChildren) 9 2 with
  | .ok s => s
  | .error _ => init twoChildren

/-- A topology packet of child 3 now completes the round, and the response carries the checksum of
the attestation packet. -/
theorem phases_mixed :
    sampleMachine.exec (init twoChildren) [.broadcast 2 (.attestation 9)] =
        .ok ([(.broadcast 2 (.attestation 9), [])], oneAttested) ∧
      ∃ s' out, step sampleNode .contiki oneAttested (.tcpip 3 (.topology ⟨1, [3], 768, 5⟩)) =
          .ok (s', out) ∧
        ¬ Undisturbed sampleNode twoChildren.ids [(.broadcast 2 (.attestation 9), [])]
          (.tcpip 3 (.topology ⟨1, [3], 768, 5⟩))
          (oneAttested.ids ++ accepted sampleNode .contiki oneAttested
            (.tcpip 3 (.topology ⟨1, [3], 768, 5⟩))) s' out := by
  refine ⟨rfl, _, _, rfl, fun h => ?_⟩
  have hagg := (h.topology _ _ rfl).1.2 ⟨.attestation, 2, 9⟩ (by decide)
  cases hagg

end Relay
end Swarna
