import Swarna.RelayHistory

/-!
# Swarna.Independence

Whether the answers to a topology round depend on what came before it.

* `Alike`: two states that agree on what the next topology packets can bring out of a relay.
* `Twins`, `twins_step`: agreeing states give the same answers and agree afterwards.
* `topology_rounds_independent_iff`: no sequence of topology packets tells two histories of one
  relay apart exactly when they end in states that agree.
* `alike_after_response`: after a response, with no timer running, `max_leaf_rank` alone decides,
  which `reset_variable` leaves as it is.
* `stale_leaf_rank`: the rank of a leaf that has left is reported in the next round.
-/

namespace Swarna
namespace Relay

def Event.isTopology : Event → Prop
  | .tcpip _ (.topology _) => True
  | .broadcast _ (.topology _) => True
  | _ => False

/-- Whatever topology packets follow, the relay makes the same of them in both states. -/
def SameAnswers (nd : Node) (b : Buffers) (s₁ s₂ : State) : Prop :=
  (machine nd b).SameBehaviour Event.isTopology s₁ s₂

/-- What waits for the next topology response is the same. -/
structure SamePending (s₁ s₂ : State) : Prop where
  checksums : xorAll s₁.checksums = xorAll s₂.checksums
  ids : s₁.ids = s₂.ids
  maxLeafRank : s₁.maxLeafRank = s₂.maxLeafRank

/-- The same waits, and the same number of packets has been counted. If `checksum_children` is full
the next packet runs past it, whatever waits. -/
structure Alike (s₁ s₂ : State) : Prop where
  curLoc : s₁.curLoc = s₂.curLoc
  pending : s₁.curLoc = maxChild ∨ SamePending s₁ s₂

/-! ## Agreeing states answer alike -/

theorem topologyResp_congr (nd : Node) {s₁ s₂ : State} (h : SamePending s₁ s₂)
    (hloc : s₁.pathsLoc = s₂.pathsLoc) : topologyResp nd s₁ = topologyResp nd s₂ := by
  unfold topologyResp
  rw [h.checksums, h.ids, h.maxLeafRank, hloc]

/-- Two copying loops at the same point, with the same in `paths` so far. -/
structure CopyTwins (l₁ l₂ : Copy) : Prop where
  children : l₁.s.childList.ids = l₂.s.childList.ids
  curLoc : l₁.s.curLoc = l₂.s.curLoc
  curLoc_le : l₁.s.curLoc ≤ maxChild
  checksums : xorAll l₁.s.checksums = xorAll l₂.s.checksums
  maxLeafRank : l₁.s.maxLeafRank = l₂.s.maxLeafRank
  pathsLoc : l₁.s.pathsLoc = l₂.s.pathsLoc
  pathsLoc_le : l₁.s.pathsLoc ≤ l₁.i
  i : l₁.i = l₂.i
  i_le : l₁.i ≤ maxPathNodes - 3
  paths : l₁.s.paths.toList.take l₁.i = l₂.s.paths.toList.take l₂.i
  resp : l₁.resp = l₂.resp
  sent : l₁.sent = l₂.sent

theorem CopyTwins.isPresentPaths {l₁ l₂ : Copy} (h : CopyTwins l₁ l₂) (x : NodeId) :
    isPresentPaths l₁.s x = isPresentPaths l₂.s x := by
  have htake : l₁.s.paths.toList.take l₁.s.pathsLoc = l₂.s.paths.toList.take l₂.s.pathsLoc := by
    have hle := h.pathsLoc_le
    have hcut := congrArg (List.take l₁.s.pathsLoc) h.paths
    rw [List.take_take, List.take_take, ← h.i, Nat.min_eq_left hle] at hcut
    rw [← h.pathsLoc]
    exact hcut
  unfold Relay.isPresentPaths
  rw [htake]

theorem copyId_twins (nd : Node) (after : TopologyInfo → TopologyInfo → TopologyInfo)
    {l₁ l₂ : Copy} (h : CopyTwins l₁ l₂) (x : NodeId) :
    ∃ l₁' l₂', copyId nd after l₁ x = .ok l₁' ∧ copyId nd after l₂ x = .ok l₂' ∧
      CopyTwins l₁' l₂' := by
  by_cases hlt : l₁.i < maxPathNodes - 3
  · obtain ⟨p₁, h₁, htake₁, -⟩ := copyId_fits nd after (x := x) hlt
    obtain ⟨p₂, h₂, htake₂, -⟩ := copyId_fits nd after (l := l₂) (x := x) (h.i ▸ hlt)
    refine ⟨_, _, h₁, h₂, { h with
      pathsLoc_le := Nat.le_succ_of_le h.pathsLoc_le
      i := congrArg (· + 1) h.i
      i_le := hlt
      paths := ?_ }⟩
    show p₁.toList.take (l₁.i + 1) = p₂.toList.take (l₂.i + 1)
    rw [htake₁, htake₂, h.paths]
  · have hfull : l₁.i = maxPathNodes - 3 := by have := h.i_le; omega
    obtain ⟨p₁, v₁, hv₁, hids₁, h₁⟩ := copyId_full nd after x h.curLoc_le hfull
    obtain ⟨p₂, v₂, hv₂, hids₂, h₂⟩ :=
      copyId_full nd after (l := l₂) x (h.curLoc ▸ h.curLoc_le) (h.i ▸ hfull)
    have hout : topologyResp nd v₁ = topologyResp nd v₂ := by
      refine topologyResp_congr nd ⟨?_, by rw [hids₁, hids₂, h.paths], ?_⟩ ?_
      · rw [hv₁, hv₂]
        exact h.checksums
      · rw [hv₁, hv₂]
        exact h.maxLeafRank
      · rw [hv₁, hv₂]
        exact congrArg (· + 1) h.i
    refine ⟨_, _, h₁, h₂, ?_⟩
    constructor
    · simpa [hv₁, hv₂] using h.children
    · rfl
    · exact Nat.zero_le _
    · simp
    · simpa [hv₁, hv₂] using h.maxLeafRank
    · rfl
    · exact Nat.le_refl _
    · rfl
    · exact Nat.zero_le _
    · simp
    · show (if parents nd false = [] then l₁.resp else after l₁.resp (topologyResp nd v₁)) =
        if parents nd false = [] then l₂.resp else after l₂.resp (topologyResp nd v₂)
      rw [hout, h.resp]
    · show l₁.sent ++ [topologyResp nd v₁] = l₂.sent ++ [topologyResp nd v₂]
      rw [hout, h.sent]

theorem copyPaths_twins (nd : Node) (after : TopologyInfo → TopologyInfo → TopologyInfo) :
    ∀ (fuel j : Nat) {l₁ l₂ : Copy}, CopyTwins l₁ l₂ →
      ∃ l₁' l₂', copyPaths nd after fuel j l₁ = .ok l₁' ∧ copyPaths nd after fuel j l₂ = .ok l₂' ∧
        CopyTwins l₁' l₂' := by
  intro fuel
  induction fuel with
  | zero => intro j l₁ l₂ h; exact ⟨l₁, l₂, rfl, rfl, h⟩
  | succ fuel ih =>
    intro j l₁ l₂ h
    rw [copyPaths, copyPaths, ← h.resp, ← h.isPresentPaths]
    by_cases hlt : j < l₁.resp.pathindex.toNat
    · rw [if_pos hlt, if_pos hlt]
      by_cases hpres : Relay.isPresentPaths l₁.s (l₁.resp.path.getD j 0) = true
      · rw [if_pos hpres, if_pos hpres]
        exact ih (j + 1) h
      · obtain ⟨v₁, v₂, h₁, h₂, hv⟩ := copyId_twins nd after h (l₁.resp.path.getD j 0)
        rw [if_neg hpres, if_neg hpres, h₁, h₂]
        exact ih (j + 1) hv
    · rw [if_neg hlt, if_neg hlt]
      exact ⟨l₁, l₂, rfl, rfl, h⟩

/-- Agreeing states of one relay. -/
structure Twins (s₁ s₂ : State) : Prop where
  children : s₁.childList.ids = s₂.childList.ids
  bounded₁ : Bounded s₁
  bounded₂ : Bounded s₂
  alike : Alike s₁ s₂

theorem childCount_congr {c₁ c₂ : ChildList} (h : c₁.ids = c₂.ids) :
    c₁.getChildCount = c₂.getChildCount := by
  rw [← ChildList.ids_length, h, ChildList.ids_length]

theorem pathsLoc_congr {s₁ s₂ : State} (hb₁ : Bounded s₁) (hb₂ : Bounded s₂)
    (h : s₁.ids = s₂.ids) : s₁.pathsLoc = s₂.pathsLoc := by
  rw [← hb₁.ids_length, h, hb₂.ids_length]

theorem acceptTopologyReq_twins (nd : Node)
    (after : TopologyInfo → TopologyInfo → TopologyInfo) {s₁ s₂ : State} (t : TopologyInfo)
    (cid : NodeId) (h : Twins s₁ s₂) (hp : SamePending s₁ s₂) (hcur : s₁.curLoc < maxChild) :
    ∃ v₁ v₂ sent, acceptTopologyReq nd after s₁ t cid = .ok (v₁, sent) ∧
      acceptTopologyReq nd after s₂ t cid = .ok (v₂, sent) ∧ v₁.curLoc = v₂.curLoc ∧
      SamePending v₁ v₂ ∧ v₁.childList.ids = v₂.childList.ids ∧ Bounded v₁ ∧ Bounded v₂ := by
  have hloc := pathsLoc_congr h.bounded₁ h.bounded₂ hp.ids
  obtain ⟨a₁, h₁, htake₁⟩ := storeChecksum_eq (c := t.checksum)
    (s := { s₁ with
      periodicTimer := s₁.periodicTimer.reset
      childList := (s₁.childList.childSetPktReceived cid).2 }) hcur
  obtain ⟨a₂, h₂, htake₂⟩ := storeChecksum_eq (c := t.checksum)
    (s := { s₂ with
      periodicTimer := s₂.periodicTimer.reset
      childList := (s₂.childList.childSetPktReceived cid).2 }) (h.alike.curLoc ▸ hcur)
  let v₁ : State := { s₁ with
    periodicTimer := s₁.periodicTimer.reset
    childList := (s₁.childList.childSetPktReceived cid).2
    checksumChildren := a₁
    curLoc := s₁.curLoc + 1 }
  let v₂ : State := { s₂ with
    periodicTimer := s₂.periodicTimer.reset
    childList := (s₂.childList.childSetPktReceived cid).2
    checksumChildren := a₂
    curLoc := s₂.curLoc + 1 }
  have hv : CopyTwins ⟨v₁, t, s₁.pathsLoc, []⟩ ⟨v₂, t, s₂.pathsLoc, []⟩ :=
    { children := by simpa [v₁, v₂] using h.children
      curLoc := congrArg (· + 1) h.alike.curLoc
      curLoc_le := hcur
      checksums := by
        show xorAll (a₁.toList.take (s₁.curLoc + 1)) = xorAll (a₂.toList.take (s₂.curLoc + 1))
        rw [htake₁, htake₂]
        simpa [State.checksums] using hp.checksums
      maxLeafRank := hp.maxLeafRank
      pathsLoc := hloc
      pathsLoc_le := Nat.le_refl _
      i := hloc
      i_le := h.bounded₁.pathsLoc_le
      paths := hp.ids
      resp := rfl
      sent := rfl }
  obtain ⟨l₁, l₂, hl₁, hl₂, hl⟩ := copyPaths_twins nd after 256 0 hv
  have hacc₁ : acceptTopologyReq nd after s₁ t cid = .ok (l₁.taken, l₁.sent) := by
    simp only [acceptTopologyReq, h₁]
    rw [hl₁]
  have hacc₂ : acceptTopologyReq nd after s₂ t cid = .ok (l₂.taken, l₁.sent) := by
    simp only [acceptTopologyReq, h₂]
    rw [hl₂, hl.sent]
  refine ⟨l₁.taken, l₂.taken, l₁.sent, hacc₁, hacc₂, hl.curLoc, ⟨hl.checksums, hl.paths, ?_⟩,
    hl.children, ⟨hl.curLoc_le, hl.i_le⟩,
    ⟨hl.curLoc ▸ hl.curLoc_le, le_of_eq_of_le hl.i.symm hl.i_le⟩⟩
  show (if l₁.s.maxLeafRank < l₁.resp.maxLeafRank then l₁.resp.maxLeafRank else l₁.s.maxLeafRank) =
    if l₂.s.maxLeafRank < l₂.resp.maxLeafRank then l₂.resp.maxLeafRank else l₂.s.maxLeafRank
  rw [hl.maxLeafRank, hl.resp]

theorem processTopologyReq_twins (nd : Node)
    (after : TopologyInfo → TopologyInfo → TopologyInfo) {s₁ s₂ : State} (t : TopologyInfo)
    {cid : NodeId} (h : Twins s₁ s₂) (hp : SamePending s₁ s₂) (hcur : s₁.curLoc < maxChild)
    (hc : cid ∈ s₁.childList.ids) :
    ∃ s₁' s₂' out, processTopologyReq nd after s₁ t cid = .ok (s₁', out) ∧
      processTopologyReq nd after s₂ t cid = .ok (s₂', out) ∧ Twins s₁' s₂' := by
  have hc₁ := ChildList.isChild_iff.2 hc
  have hc₂ := ChildList.isChild_iff.2 (h.children ▸ hc)
  obtain ⟨v₁, v₂, sent, h₁, h₂, hcur', hpend, hids, hb₁, hb₂⟩ :=
    acceptTopologyReq_twins nd after t cid h hp hcur
  have hcnt := childCount_congr hids
  have hloc := pathsLoc_congr hb₁ hb₂ hpend.ids
  simp only [processTopologyReq, hc₁, hc₂, h₁, h₂, Bool.not_true, Bool.false_eq_true, if_false,
    finishTopologyReq]
  by_cases hcount : v₁.curLoc = v₁.childList.getChildCount
  · have hle₁ : v₁.pathsLoc ≤ maxPathNodes - 2 := by have := hb₁.pathsLoc_le; omega
    have hle₂ : v₂.pathsLoc ≤ maxPathNodes - 2 := by have := hb₂.pathsLoc_le; omega
    rw [if_pos hcount, if_pos (by rw [← hcur', ← hcnt]; exact hcount),
      sendTopologyResp_eq nd hb₁.curLoc_le hle₁, sendTopologyResp_eq nd hb₂.curLoc_le hle₂,
      topologyResp_congr nd hpend hloc]
    refine ⟨_, _, _, rfl, rfl, by simpa using hids, resetVariable_bounded _,
      resetVariable_bounded _, rfl, .inr ⟨by simp, by simp, hpend.maxLeafRank⟩⟩
  · rw [if_neg hcount, if_neg (by rw [← hcur', ← hcnt]; exact hcount)]
    exact ⟨_, _, _, rfl, rfl, hids, ⟨hb₁.curLoc_le, hb₁.pathsLoc_le⟩,
      ⟨hb₂.curLoc_le, hb₂.pathsLoc_le⟩, hcur', .inr ⟨hpend.checksums, hpend.ids, hpend.maxLeafRank⟩⟩

/-- A leaf takes a topology packet for a request, and answers it without a look at its state. -/
theorem step_leaf_topology {nd : Node} {b : Buffers} {s : State} {src : Addr} {t : TopologyInfo}
    (hl : s.childList.ids = []) :
    step nd b s (.tcpip src (.topology t)) = .ok (s, [sendToParents nd (.topology
      { pathindex := 1, path := [nd.id], maxLeafRank := nd.rank, checksum := ownChecksum nd.id })
      true]) := by
  have hleaf : isLeaf s = true := isLeaf_iff.2 hl
  simp [step, hleaf, mcastTcpipHandler, createResponse, asRequest]

theorem receive_twins {nd : Node} {b : Buffers} {s₁ s₂ : State} {e : Event} {cid : NodeId}
    {t : TopologyInfo} (h : Twins s₁ s₂)
    (hh : heard s₁.childList.ids e = some (cid, .topology t)) :
    (∃ s₁' s₂' out, step nd b s₁ e = .ok (s₁', out) ∧ step nd b s₂ e = .ok (s₂', out) ∧
        Twins s₁' s₂') ∨
      ∃ f₁ f₂, step nd b s₁ e = .error f₁ ∧ step nd b s₂ e = .error f₂ := by
  have hh₂ : heard s₂.childList.ids e = some (cid, .topology t) := h.children ▸ hh
  rw [step_topology nd b hh, step_topology nd b hh₂]
  by_cases hmem : cid ∈ s₁.childList.ids
  · by_cases hcur : s₁.curLoc < maxChild
    · left
      have hpend : SamePending s₁ s₂ := h.alike.pending.resolve_left (by omega)
      obtain ⟨s₁', s₂', out, h₁, h₂, h'⟩ :=
        processTopologyReq_twins nd (e.after b) t h hpend hcur hmem
      exact ⟨s₁', s₂', _, by rw [h₁]; rfl, by rw [h₂]; rfl, h'⟩
    · right
      have hc₁ := ChildList.isChild_iff.2 hmem
      have hc₂ := ChildList.isChild_iff.2 (h.children ▸ hmem)
      refine ⟨.checksumOverflow, .checksumOverflow, ?_, ?_⟩
      · rw [processTopologyReq_overflow hc₁ hcur]
        rfl
      · have hcur₂ : ¬ s₂.curLoc < maxChild := h.alike.curLoc ▸ hcur
        rw [processTopologyReq_overflow hc₂ hcur₂]
        rfl
  · left
    have hc₁ : s₁.childList.isChild cid = false := by
      simpa using mt ChildList.isChild_iff.1 hmem
    have hc₂ : s₂.childList.isChild cid = false := by
      simpa using mt ChildList.isChild_iff.1 (h.children ▸ hmem)
    rw [processTopologyReq_stranger hc₁, processTopologyReq_stranger hc₂]
    exact ⟨s₁, s₂, [], rfl, rfl, h⟩

theorem twins_step {nd : Node} {b : Buffers} {s₁ s₂ : State} {e : Event} (h : Twins s₁ s₂)
    (he : e.isTopology) :
    (∃ s₁' s₂' out, step nd b s₁ e = .ok (s₁', out) ∧ step nd b s₂ e = .ok (s₂', out) ∧
        Twins s₁' s₂') ∨
      ∃ f₁ f₂, step nd b s₁ e = .error f₁ ∧ step nd b s₂ e = .error f₂ := by
  cases e with
  | mcast | secReq | periodicExpiry | pExpiry => exact he.elim
  | tcpip src pkt =>
    cases pkt with
    | attestation | other => exact he.elim
    | topology t =>
      by_cases hl : s₁.childList.ids = []
      · left
        exact ⟨s₁, s₂, _, step_leaf_topology hl, step_leaf_topology (h.children ▸ hl), h⟩
      · have hh : heard s₁.childList.ids (.tcpip src (.topology t)) =
            some (getIdFromAddr src, .topology t) := by simp [heard, hl]
        exact receive_twins h hh
  | broadcast src pkt =>
    cases pkt with
    | attestation | other => exact he.elim
    | topology t => exact receive_twins h rfl

/-- A leaf makes the same of a topology packet whatever its state is. -/
theorem leaf_step {nd : Node} {b : Buffers} {s₁ s₂ : State} {e : Event}
    (h₁ : s₁.childList.ids = []) (h₂ : s₂.childList.ids = []) (he : e.isTopology) :
    ∃ out, step nd b s₁ e = .ok (s₁, out) ∧ step nd b s₂ e = .ok (s₂, out) := by
  cases e with
  | mcast | secReq | periodicExpiry | pExpiry => exact he.elim
  | tcpip src pkt =>
    cases pkt with
    | attestation | other => exact he.elim
    | topology t => exact ⟨_, step_leaf_topology h₁, step_leaf_topology h₂⟩
  | broadcast src pkt =>
    cases pkt with
    | attestation | other => exact he.elim
    | topology t =>
      have hstranger : ∀ {s : State}, s.childList.ids = [] →
          step nd b s (.broadcast src (.topology t)) = .ok (s, []) := by
        intro s hs
        have hc : s.childList.isChild (getIdFromAddr src) = false := by
          simpa using mt ChildList.isChild_iff.1 (by simp [hs])
        simp [step, receive, processTopologyReq_stranger hc]
      exact ⟨[], hstranger h₁, hstranger h₂⟩

theorem sameAnswers_of_alike {nd : Node} {b : Buffers} {s₁ s₂ : State} (h : Twins s₁ s₂) :
    SameAnswers nd b s₁ s₂ :=
  .of_simulation (fun _ _ _ h he => twins_step h he) h

theorem sameAnswers_of_leaf {nd : Node} {b : Buffers} {s₁ s₂ : State}
    (h₁ : s₁.childList.ids = []) (h₂ : s₂.childList.ids = []) : SameAnswers nd b s₁ s₂ := by
  refine .of_simulation (R := fun s₁ s₂ => s₁.childList.ids = [] ∧ s₂.childList.ids = [])
    (fun s₁ s₂ e h he => ?_) ⟨h₁, h₂⟩
  obtain ⟨out, hs₁, hs₂⟩ := leaf_step h.1 h.2 he
  exact .inl ⟨s₁, s₂, out, hs₁, hs₂, h⟩

/-! ## Telling states apart -/

/-- A topology packet of node `cid`, on the broadcast port. -/
def packetOf (cid : NodeId) (t : TopologyInfo) : Event :=
  .broadcast (cid.setWidth 128) (.topology t)

theorem isTopology_packetOf (cid : NodeId) (t : TopologyInfo) :
    (packetOf cid t).isTopology := trivial

@[simp] theorem heard_packetOf (children : List NodeId) (cid : NodeId) (t : TopologyInfo) :
    heard children (packetOf cid t) = some (cid, .topology t) := by
  simp [packetOf, heard, getIdFromAddr_eq]

theorem step_packetOf {nd : Node} {b : Buffers} {s s' : State} {cid : NodeId} {t : TopologyInfo}
    {out : List TopologyInfo}
    (h : processTopologyReq nd b.databuffer s t cid = .ok (s', out)) :
    step nd b s (packetOf cid t) =
      .ok (s', out.map fun o => sendToParents nd (.topology o) false) := by
  rw [step_topology nd b (heard_packetOf _ cid t)]
  show (processTopologyReq nd b.databuffer s t cid).map _ = _
  rw [h]
  rfl

/-- A packet without ids. -/
def emptyPacket : TopologyInfo := ⟨0, [], 0, 0⟩

/-- An empty packet is counted, and answered only if it completes the count. -/
theorem step_empty (nd : Node) (b : Buffers) {s : State} {cid : NodeId} (hb : Bounded s)
    (hc : cid ∈ s.childList.ids) (hcur : s.curLoc < maxChild) :
    (s.curLoc + 1 = s.childList.getChildCount ∧
        ∃ s' a, step nd b s (packetOf cid emptyPacket) = .ok (s', [a])) ∨
      (s.curLoc + 1 ≠ s.childList.getChildCount ∧
        ∃ s', step nd b s (packetOf cid emptyPacket) = .ok (s', []) ∧
          s'.curLoc = s.curLoc + 1 ∧ Bounded s' ∧ s'.childList.ids = s.childList.ids) := by
  obtain ⟨s₂, hacc, -, ⟨hcount, h⟩ | ⟨hcount, h⟩⟩ := processTopologyReq_fits nd b.databuffer
    (t := emptyPacket) (ChildList.isChild_iff.2 hc) hcur
    (by simpa [emptyPacket, TopologyInfo.ids, fresh] using hb.pathsLoc_le)
  · exact .inl ⟨hcount, _, _, step_packetOf h⟩
  · obtain ⟨a, p, n, hf⟩ := hacc.frame
    refine .inr ⟨hcount, _, step_packetOf h, by rw [hf], ?_, by simp [hf]⟩
    exact ⟨hacc.bounded.curLoc_le, hacc.bounded.pathsLoc_le⟩

theorem step_full {nd : Node} {b : Buffers} {s : State} {cid : NodeId} (t : TopologyInfo)
    (hc : cid ∈ s.childList.ids) (hcur : s.curLoc = maxChild) :
    step nd b s (packetOf cid t) = .error .checksumOverflow := by
  rw [step_topology nd b (heard_packetOf _ cid t),
    processTopologyReq_overflow (ChildList.isChild_iff.2 hc) (by omega)]
  rfl

theorem step_empty_faults (nd : Node) (b : Buffers) {s : State} {cid : NodeId} (hb : Bounded s)
    (hc : cid ∈ s.childList.ids) :
    (∃ f, step nd b s (packetOf cid emptyPacket) = .error f) ↔ s.curLoc = maxChild := by
  refine ⟨fun ⟨f, hf⟩ => ?_, fun hcur => ⟨_, step_full _ hc hcur⟩⟩
  by_contra hne
  have hlt : s.curLoc < maxChild := by have := hb.curLoc_le; omega
  rcases step_empty nd b hb hc hlt with ⟨-, s', a, hs⟩ | ⟨-, s', hs, -⟩
  · rw [hs] at hf
    cases hf
  · rw [hs] at hf
    cases hf

/-- Empty packets, until the relay answers or runs past `checksum_children`, count `cur_loc`. The
induction is on the room left. -/
theorem curLoc_of_sameAnswers {nd : Node} {b : Buffers} {cid : NodeId} :
    ∀ (k : Nat) {s₁ s₂ : State}, s₁.curLoc + k = maxChild → Bounded s₁ → Bounded s₂ →
      cid ∈ s₁.childList.ids → s₂.childList.ids = s₁.childList.ids → SameAnswers nd b s₁ s₂ →
      s₁.curLoc = s₂.curLoc := by
  intro k
  induction k with
  | zero =>
    intro s₁ s₂ hk hb₁ hb₂ hc hids h
    obtain ⟨f, hf⟩ := (step_empty_faults nd b hb₁ hc).2 hk
    have hfull := (step_empty_faults nd b hb₂ (hids ▸ hc)).1 (h.fault (isTopology_packetOf _ _) hf)
    omega
  | succ k ih =>
    intro s₁ s₂ hk hb₁ hb₂ hc hids h
    have hcnt := childCount_congr hids
    have hlt₂ : s₂.curLoc < maxChild := by
      by_contra hfull
      have hle := hb₂.curLoc_le
      obtain ⟨f, hf⟩ := (step_empty_faults nd b hb₂ (hids ▸ hc)).2 (by omega)
      have hfull₁ := (step_empty_faults nd b hb₁ hc).1 (h.symm.fault (isTopology_packetOf _ _) hf)
      omega
    have hs₂ := step_empty nd b hb₂ (hids ▸ hc) hlt₂
    rcases step_empty nd b hb₁ hc (by omega) with
      ⟨hcount, s₁', a, hs₁⟩ | ⟨-, s₁', hs₁, hcur₁, hb₁', hids₁⟩
    · obtain ⟨v, hv, -⟩ := h.step (isTopology_packetOf _ _) hs₁
      rcases hs₂ with ⟨hcount₂, -⟩ | ⟨-, s₂', hs₂, -⟩
      · omega
      · rw [show step nd b s₂ (packetOf cid emptyPacket) = _ from hv] at hs₂
        cases hs₂
    · obtain ⟨v, hv, h'⟩ := h.step (isTopology_packetOf _ _) hs₁
      rcases hs₂ with ⟨-, s₂', a, hs₂⟩ | ⟨-, s₂', hs₂, hcur₂, hb₂', hids₂⟩
      · rw [show step nd b s₂ (packetOf cid emptyPacket) = _ from hv] at hs₂
        cases hs₂
      · rw [show step nd b s₂ (packetOf cid emptyPacket) = _ from hv] at hs₂
        cases hs₂
        have heq := ih (by omega) hb₁' hb₂' (hids₁ ▸ hc) (by rw [hids₂, hids, hids₁]) h'
        omega

/-- A packet that reports one id eight times: it overfills the path, whatever waits there. -/
def floodPacket (x : NodeId) : TopologyInfo := ⟨8, List.replicate 8 x, 0, 0⟩

theorem floodPacket_getD (x : NodeId) {j : Nat} (h : j < 8) :
    (floodPacket x).path.getD j 0 = x := by
  show (List.replicate 8 x).getD j 0 = x
  rw [List.getD_eq_getElem?_getD, List.getElem?_replicate, if_pos h, Option.getD_some]

/-- The first response of an overfilling packet of one new id: what waited, and the id as often as
there is room. -/
theorem copyPaths_flood (nd : Node) (after : TopologyInfo → TopologyInfo → TopologyInfo)
    (x : NodeId) :
    ∀ (m fuel j : Nat) {l : Copy}, l.resp = floodPacket x → l.i + m = maxPathNodes - 3 →
      j + m < 8 → m < fuel → isPresentPaths l.s x = false → l.s.curLoc ≤ maxChild →
      l.s.pathsLoc ≤ l.i →
      ∃ l' o rest, copyPaths nd after fuel j l = .ok l' ∧ l'.sent = l.sent ++ o :: rest ∧
        o.path = l.s.paths.toList.take l.i ++ List.replicate (m + 1) x ++ [nd.id] ∧
        o.checksum = xorAll l.s.checksums ^^^ ownChecksum nd.id ∧
        o.maxLeafRank = l.s.maxLeafRank := by
  intro m
  induction m with
  | zero =>
    intro fuel j l hr hi hj hfuel hpres hcur hloc
    obtain ⟨fuel, rfl⟩ : ∃ n, fuel = n + 1 := ⟨fuel - 1, by omega⟩
    have hx : l.resp.path.getD j 0 = x := by
      rw [hr]
      exact floodPacket_getD x (by omega)
    have hlt : j < l.resp.pathindex.toNat := by
      rw [hr]
      exact hj
    obtain ⟨p, s₁, hs₁, hids, h⟩ := copyId_full nd after (l := l) x hcur (by omega)
    obtain ⟨l', out, hl', hprog, -⟩ := copyPaths_progress nd after fuel (j + 1)
      { s := resetVariable (resetVariable { s₁ with myChecksum := ownChecksum nd.id })
        resp := if parents nd false = [] then l.resp else after l.resp (topologyResp nd s₁)
        i := 0
        sent := l.sent ++ [topologyResp nd s₁] } (by simp) (by simp) (by simp)
    refine ⟨l', topologyResp nd s₁, out, ?_, by simp [hprog.sent], ?_, ?_, ?_⟩
    · rw [copyPaths, if_pos hlt, hx, if_neg (by simp [hpres]), h]
      exact hl'
    · simp [topologyResp, hids]
    · simp [topologyResp, hs₁, State.checksums]
    · simp [topologyResp, hs₁]
  | succ m ih =>
    intro fuel j l hr hi hj hfuel hpres hcur hloc
    obtain ⟨fuel, rfl⟩ : ∃ n, fuel = n + 1 := ⟨fuel - 1, by omega⟩
    have hx : l.resp.path.getD j 0 = x := by
      rw [hr]
      exact floodPacket_getD x (by omega)
    have hlt : j < l.resp.pathindex.toNat := by
      rw [hr]
      show j < 8
      omega
    obtain ⟨p, h, htake, hsame⟩ := copyId_fits nd after (l := l) (x := x) (by omega)
    have hpres' : isPresentPaths { l.s with paths := p } x = false := by
      simpa [isPresentPaths, hsame _ hloc] using hpres
    obtain ⟨l', o, rest, hl', hsent, hpath, hsum, hrank⟩ := ih fuel (j + 1)
      (l := { l with s := { l.s with paths := p }, i := l.i + 1 }) hr (by simp; omega) (by omega)
      (by omega) hpres' hcur (by simp; omega)
    refine ⟨l', o, rest, ?_, hsent, ?_, hsum, hrank⟩
    · rw [copyPaths, if_pos hlt, hx, if_neg (by simp [hpres]), h]
      exact hl'
    · rw [hpath]
      simp only [htake]
      simp [List.replicate_succ]

/-- The answer to an overfilling packet starts with everything that waited. -/
theorem step_flood (nd : Node) (b : Buffers) {s : State} {cid x : NodeId} (hb : Bounded s)
    (hc : cid ∈ s.childList.ids) (hcur : s.curLoc < maxChild) (hx : x ∉ s.ids) :
    ∃ s' o rest, step nd b s (packetOf cid (floodPacket x)) =
        .ok (s', sendToParents nd (.topology o) false :: rest) ∧
      o.path = s.ids ++ List.replicate (maxPathNodes - 2 - s.pathsLoc) x ++ [nd.id] ∧
      o.checksum = xorAll s.checksums ^^^ ownChecksum nd.id ∧ o.maxLeafRank = s.maxLeafRank := by
  have hchild := ChildList.isChild_iff.2 hc
  have hle := hb.pathsLoc_le
  obtain ⟨a, ha, htake⟩ := storeChecksum_eq (c := (floodPacket x).checksum)
    (s := { s with
      periodicTimer := s.periodicTimer.reset
      childList := (s.childList.childSetPktReceived cid).2 }) hcur
  obtain ⟨l, o, rest, hl, hsent, hpath, hsum, hrank⟩ := copyPaths_flood nd b.databuffer x
    (maxPathNodes - 3 - s.pathsLoc) 256 0
    (l := ⟨{ s with
      periodicTimer := s.periodicTimer.reset
      childList := (s.childList.childSetPktReceived cid).2
      checksumChildren := a
      curLoc := s.curLoc + 1 }, floodPacket x, s.pathsLoc, []⟩) rfl (by simp; omega)
    (by unfold maxPathNodes; omega) (by unfold maxPathNodes; omega)
    (by simpa [isPresentPaths, State.ids] using hx) hcur (Nat.le_refl _)
  obtain ⟨s', out, hp, -⟩ := processTopologyReq_cases nd b.databuffer (floodPacket x) hb hchild hcur
  have hacc : acceptTopologyReq nd b.databuffer s (floodPacket x) cid = .ok (l.taken, l.sent) := by
    simp only [acceptTopologyReq, ha, hl]
  have hout : ∃ rest', out = o :: rest' := by
    simp only [processTopologyReq, hchild, Bool.not_true, Bool.false_eq_true, if_false, hacc,
      finishTopologyReq, hsent, List.nil_append] at hp
    split at hp
    · split at hp
      · cases hp
      · cases hp
        exact ⟨_, rfl⟩
    · cases hp
      exact ⟨_, rfl⟩
  obtain ⟨rest', rfl⟩ := hout
  refine ⟨s', o, _, step_packetOf hp, ?_, ?_, hrank⟩
  · rw [hpath, show maxPathNodes - 3 - s.pathsLoc + 1 = maxPathNodes - 2 - s.pathsLoc by
      unfold maxPathNodes at *; omega]
    rfl
  · rw [hsum]
    simp only [State.checksums] at htake ⊢
    rw [htake]
    simp [floodPacket]

theorem exists_fresh_id (L : List NodeId) (h : L.length < 2 ^ 16) : ∃ x, x ∉ L := by
  let I : Finset NodeId := (Finset.range (L.length + 1)).image (BitVec.ofNat 16)
  have hinj : Set.InjOn (BitVec.ofNat 16) (Finset.range (L.length + 1)) := by
    intro m hm n hn hmn
    have hm' : m < L.length + 1 := Finset.mem_range.1 hm
    have hn' : n < L.length + 1 := Finset.mem_range.1 hn
    have hmod := congrArg BitVec.toNat hmn
    rwa [BitVec.toNat_ofNat, BitVec.toNat_ofNat, Nat.mod_eq_of_lt (by omega),
      Nat.mod_eq_of_lt (by omega)] at hmod
  have hI : I.card = L.length + 1 := by
    rw [Finset.card_image_of_injOn hinj, Finset.card_range]
  have hL := L.toFinset_card_le
  have hlt : L.toFinset.card < I.card := by omega
  obtain ⟨x, -, hx⟩ := Finset.exists_mem_notMem_of_card_lt_card hlt
  exact ⟨x, by simpa using hx⟩

/-- What waits, read off the first response to an overfilling packet. -/
theorem samePending_of_sameAnswers {nd : Node} {b : Buffers} {s₁ s₂ : State} {cid : NodeId}
    (hb₁ : Bounded s₁) (hb₂ : Bounded s₂) (hc : cid ∈ s₁.childList.ids)
    (hids : s₂.childList.ids = s₁.childList.ids) (hcur₁ : s₁.curLoc < maxChild)
    (hcur₂ : s₂.curLoc < maxChild) (h : SameAnswers nd b s₁ s₂) : SamePending s₁ s₂ := by
  obtain ⟨x, hx⟩ := exists_fresh_id (nd.id :: (s₁.ids ++ s₂.ids)) (by
    have h₁ := hb₁.pathsLoc_le
    have h₂ := hb₂.pathsLoc_le
    simp only [List.length_cons, List.length_append, hb₁.ids_length, hb₂.ids_length]
    unfold maxPathNodes at *
    omega)
  simp only [List.mem_cons, List.mem_append, not_or] at hx
  obtain ⟨hown, hx₁, hx₂⟩ := hx
  obtain ⟨s₁', o₁, rest₁, hs₁, hpath₁, hsum₁, hrank₁⟩ :=
    step_flood nd b hb₁ hc hcur₁ hx₁
  obtain ⟨s₂', o₂, rest₂, hs₂, hpath₂, hsum₂, hrank₂⟩ :=
    step_flood nd b hb₂ (hids ▸ hc) hcur₂ hx₂
  obtain ⟨v, hv, -⟩ := h.step (isTopology_packetOf _ _) hs₁
  rw [show step nd b s₂ (packetOf cid (floodPacket x)) = _ from hv] at hs₂
  have ho : o₁ = o₂ := by
    simp only [sendToParents, Except.ok.injEq, Prod.mk.injEq, List.cons.injEq,
      Action.sendToParents.injEq, ResponsePkt.topology.injEq] at hs₂
    exact hs₂.2.1.1
  subst ho
  refine ⟨?_, ?_, hrank₁.symm.trans hrank₂⟩
  · exact (BitVec.xor_left_inj _).1 (hsum₁.symm.trans hsum₂)
  · -- without the entries of `x`, both paths are the ids that waited and the own id
    have hpath := hpath₁.symm.trans hpath₂
    have hkeep : ∀ {l : List NodeId} {n : Nat}, x ∉ l →
        (l ++ List.replicate n x ++ [nd.id]).filter (· ≠ x) = l ++ [nd.id] := by
      intro l n hl
      have hl' : l.filter (· ≠ x) = l := by
        rw [List.filter_eq_self]
        intro y hy
        simpa using fun hyx : y = x => hl (hyx ▸ hy)
      have hone : [nd.id].filter (· ≠ x) = [nd.id] := by simp [Ne.symm hown]
      rw [List.filter_append, List.filter_append, hl', hone]
      simp
    have hfilter := congrArg (List.filter (· ≠ x)) hpath
    rw [hkeep hx₁, hkeep hx₂] at hfilter
    exact List.append_cancel_right hfilter

/-! ## Rounds -/

theorem topology_rounds_independent_iff {nd : Node} {b : Buffers} {c : ChildList}
    {t₁ t₂ : History} {s₁ s₂ : State} (h₁ : (machine nd b).Run (init c) t₁ s₁)
    (h₂ : (machine nd b).Run (init c) t₂ s₂) :
    SameAnswers nd b s₁ s₂ ↔ c.ids = [] ∨ Alike s₁ s₂ := by
  have hg₁ := run_good h₁
  have hg₂ := run_good h₂
  have hids : s₁.childList.ids = s₂.childList.ids := hg₁.children_eq.trans hg₂.children_eq.symm
  constructor
  · intro h
    by_cases hc : c.ids = []
    · exact .inl hc
    · right
      obtain ⟨cid, hmem⟩ := List.exists_mem_of_ne_nil _ hc
      have hmem₁ : cid ∈ s₁.childList.ids := hg₁.children_eq ▸ hmem
      have hle := hg₁.bounded.curLoc_le
      have hcur := curLoc_of_sameAnswers (maxChild - s₁.curLoc) (by omega) hg₁.bounded hg₂.bounded
        hmem₁ hids.symm h
      by_cases hfull : s₁.curLoc = maxChild
      · exact ⟨hcur, .inl hfull⟩
      · exact ⟨hcur, .inr (samePending_of_sameAnswers hg₁.bounded hg₂.bounded hmem₁ hids.symm
          (by omega) (by omega) h)⟩
  · rintro (hleaf | halike)
    · exact sameAnswers_of_leaf (hg₁.children_eq.trans hleaf) (hg₂.children_eq.trans hleaf)
    · exact sameAnswers_of_alike ⟨hids, hg₁.bounded, hg₂.bounded, halike⟩

/-- The run ends with a response of the relay, and neither timer runs. -/
def EndsRound (t : History) (s : State) : Prop :=
  (∃ t' e out, t = t' ++ [(e, out)] ∧ responded out = true) ∧
    s.periodicTimer.armed = false ∧ s.pTimer.armed = false

/-- Nothing waits after such a run. -/
theorem nothing_waits {nd : Node} {b : Buffers} {c : ChildList} {t : History} {s : State}
    (h : (machine nd b).Run (init c) t s) (hend : EndsRound t s) :
    s.curLoc = 0 ∧ s.checksums = [] ∧ s.ids = [] := by
  obtain ⟨⟨t', e, out, rfl, hout⟩, hper, hpt⟩ := hend
  have hg := run_good h
  have hpend : pending c.ids (t' ++ [(e, out)]) = [] := by rw [pending_snoc, if_pos hout]
  have hcs : s.checksums = [] := by rw [hg.checksums, hpend]; rfl
  refine ⟨by rw [hg.curLoc, hpend]; rfl, hcs, ?_⟩
  obtain ⟨s', hr, -, hs⟩ := h.last
  cases outcome_of_step (run_good hr).bounded hs with
  | ignored | attestation | periodicIdle | periodicZero | pIdle | pBroadcast => cases hout
  | request mpkt _ _ _ =>
    rw [mcastTcpipHandler_responded] at hout
    cases hout
  | secReq q =>
    exact absurd ((udpSecreqCallback_responded s q).symm.trans hout) Bool.false_ne_true
  | topology _ _ _ ho =>
    cases ho with
    | waits | splits => cases hper
    | completes => exact resetVariable_ids _
  | periodicTopology => exact resetVariable_ids _
  | periodicAttestation => cases hpt

theorem alike_after_response {nd : Node} {b : Buffers} {c : ChildList} {t₁ t₂ : History}
    {s₁ s₂ : State} (h₁ : (machine nd b).Run (init c) t₁ s₁)
    (h₂ : (machine nd b).Run (init c) t₂ s₂) (hend₁ : EndsRound t₁ s₁) (hend₂ : EndsRound t₂ s₂) :
    Alike s₁ s₂ ↔ s₁.maxLeafRank = s₂.maxLeafRank := by
  obtain ⟨hcur₁, hcs₁, hids₁⟩ := nothing_waits h₁ hend₁
  obtain ⟨hcur₂, hcs₂, hids₂⟩ := nothing_waits h₂ hend₂
  constructor
  · rintro ⟨-, hfull | hpend⟩
    · rw [hcur₁] at hfull
      cases hfull
    · exact hpend.maxLeafRank
  · intro hrank
    exact ⟨hcur₁.trans hcur₂.symm, .inr ⟨by rw [hcs₁, hcs₂], hids₁.trans hids₂.symm, hrank⟩⟩

/-- Child 2 reports a leaf of rank `rank`, child 3 is silent until the timer expires. -/
def halfRound (rank : Rank) : List Event :=
  [packetOf 2 ⟨1, [2], rank, 9⟩, .periodicExpiry]

theorem topology_rounds_independent_same_rank :
    ∃ t₁ s₁ t₂ s₂, sampleMachine.exec (init twoChildren) (halfRound 768) = .ok (t₁, s₁) ∧
      sampleMachine.exec (init twoChildren) (halfRound 768 ++ halfRound 512) = .ok (t₂, s₂) ∧
      SameAnswers sampleNode .contiki s₁ s₂ := by
  obtain ⟨t₁, s₁, t₂, s₂, h₁, h₂, halike⟩ : ∃ t₁ s₁ t₂ s₂,
      sampleMachine.exec (init twoChildren) (halfRound 768) = .ok (t₁, s₁) ∧
      sampleMachine.exec (init twoChildren) (halfRound 768 ++ halfRound 512) = .ok (t₂, s₂) ∧
      Alike s₁ s₂ := ⟨_, _, _, _, rfl, rfl, rfl, .inr ⟨rfl, rfl, rfl⟩⟩
  exact ⟨t₁, s₁, t₂, s₂, h₁, h₂, (topology_rounds_independent_iff (Machine.run_of_exec h₁)
    (Machine.run_of_exec h₂)).2 (.inr halike)⟩

/-- A leaf of rank 5000 is gone after the first round, but the next response still reports it. -/
theorem stale_leaf_rank :
    ∃ t₁ s₁ t₂ s₂, sampleMachine.exec (init twoChildren) (halfRound 5000) = .ok (t₁, s₁) ∧
      sampleMachine.exec (init twoChildren) (halfRound 768) = .ok (t₂, s₂) ∧
      EndsRound t₁ s₁ ∧ EndsRound t₂ s₂ ∧ ¬ SameAnswers sampleNode .contiki s₁ s₂ := by
  let es : List Event := [packetOf 2 ⟨1, [2], 768, 9⟩, packetOf 3 ⟨1, [3], 768, 5⟩]
  obtain ⟨t₁, s₁, h₁, hend₁, o₁, hobs₁, hrank₁⟩ : ∃ t₁ s₁,
      sampleMachine.exec (init twoChildren) (halfRound 5000) = .ok (t₁, s₁) ∧ EndsRound t₁ s₁ ∧
        ∃ o, sampleMachine.observe s₁ es = some [sendToParents sampleNode (.topology o) false] ∧
          o.maxLeafRank = 5000 :=
    ⟨_, _, rfl, ⟨⟨[_], _, _, rfl, rfl⟩, rfl, rfl⟩, _, rfl, rfl⟩
  obtain ⟨t₂, s₂, h₂, hend₂, o₂, hobs₂, hrank₂⟩ : ∃ t₂ s₂,
      sampleMachine.exec (init twoChildren) (halfRound 768) = .ok (t₂, s₂) ∧ EndsRound t₂ s₂ ∧
        ∃ o, sampleMachine.observe s₂ es = some [sendToParents sampleNode (.topology o) false] ∧
          o.maxLeafRank = 768 :=
    ⟨_, _, rfl, ⟨⟨[_], _, _, rfl, rfl⟩, rfl, rfl⟩, _, rfl, rfl⟩
  refine ⟨t₁, s₁, t₂, s₂, h₁, h₂, hend₁, hend₂, fun h => ?_⟩
  have hobs : sampleMachine.observe s₁ es = sampleMachine.observe s₂ es := by
    refine h es fun e he => ?_
    rcases List.mem_cons.1 he with rfl | he
    · trivial
    · cases List.mem_singleton.1 he
      trivial
  rw [hobs₁, hobs₂] at hobs
  simp only [sendToParents, Option.some.injEq, List.cons.injEq, Action.sendToParents.injEq,
    ResponsePkt.topology.injEq] at hobs
  have hrank := congrArg TopologyInfo.maxLeafRank hobs.1.1
  rw [hrank₁, hrank₂] at hrank
  exact absurd hrank (by decide)

end Relay
end Swarna
