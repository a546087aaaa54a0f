import Swarna.RelayHistory

/-!
# Swarna.TopologyPackets

The arrays behind a topology response. `accesses` lists, for one event, every read `path[j]` of the
packet received, every write `paths[i]` and every call of `send_topology_resp`, in order.

* `copyAccesses_spec`: the copying loop writes below `maxPathNodes - 2`, calls with at most that
  many ids, and sends one packet for each call.
* `topology_packets_well_formed`: in every run, all writes and calls are within their limits, and
  every topology response names the relay at the end of its path.
-/

namespace Swarna
namespace Relay

/-! ## Accesses -/

inductive Access where
  /-- `resp->pkt.topology.path[j]` is read. -/
  | read (j : Nat)
  /-- `paths[i] = id`. -/
  | write (i : Nat) (id : NodeId)
  /-- `send_topology_resp` is called with this `paths_loc`. -/
  | send (pathsLoc : Nat)
  deriving DecidableEq, Repr

/-- The accesses of the copying loop from index `j` on. -/
def copyAccesses (nd : Node) (after : TopologyInfo → TopologyInfo → TopologyInfo) :
    (fuel : Nat) → (j : Nat) → Copy → List Access
  | 0, _, _ => []
  | fuel + 1, j, l =>
    if j < l.resp.pathindex.toNat then
      if isPresentPaths l.s (l.resp.path.getD j 0) then
        .read j :: copyAccesses nd after fuel (j + 1) l
      else
        .read j :: .write l.i (l.resp.path.getD j 0) ::
          ((if maxPathNodes - 2 ≤ l.i + 1 then [.send (l.i + 1)] else []) ++
            match copyId nd after l (l.resp.path.getD j 0) with
            | .error _ => []
            | .ok l' => copyAccesses nd after fuel (j + 1) l')
    else []

/-- The accesses of `process_topology_req` on a packet of a child. -/
def topologyAccesses (nd : Node) (after : TopologyInfo → TopologyInfo → TopologyInfo) (s : State)
    (resp : TopologyInfo) (childId : NodeId) : List Access :=
  match storeChecksum
    { s with
      periodicTimer := s.periodicTimer.reset
      childList := (s.childList.childSetPktReceived childId).2 } resp.checksum with
  | .error _ => []
  | .ok s =>
    copyAccesses nd after 256 0 ⟨s, resp, s.pathsLoc, []⟩ ++
      match copyPaths nd after 256 0 ⟨s, resp, s.pathsLoc, []⟩ with
      | .error _ => []
      | .ok l =>
        if l.taken.curLoc = l.taken.childList.getChildCount then [.send l.taken.pathsLoc] else []

/-- The accesses of one event. -/
def accesses (nd : Node) (b : Buffers) (s : State) (e : Event) : List Access :=
  match heard s.childList.ids e with
  | some (cid, .topology t) =>
    if s.childList.isChild cid then topologyAccesses nd (e.after b) s t cid else []
  | _ =>
    if e = .periodicExpiry ∧ s.periodicTimer.expire.1 = some .sendTopologyResp then
      [.send s.pathsLoc]
    else []

/-- Where the relay may write, and how many ids a response may hold besides its own. -/
def Access.InBounds : Access → Prop
  | .read _ => True
  | .write i _ => i ≤ maxPathNodes - 3
  | .send n => n ≤ maxPathNodes - 2

/-- The number of ids in the response a call sends. -/
def Access.sent? : Access → Option Nat
  | .send n => some (n + 1)
  | _ => none

def Access.written? : Access → Option NodeId
  | .write _ id => some id
  | _ => none

/-! ## The copying loop -/

section Loop

variable (nd : Node) (after : TopologyInfo → TopologyInfo → TopologyInfo)

theorem topologyResp_pathindex {s : State} (h : s.pathsLoc ≤ maxPathNodes - 2) :
    (topologyResp nd s).pathindex.toNat = s.pathsLoc + 1 := by
  have : s.pathsLoc + 1 < 2 ^ 8 := by unfold maxPathNodes at h; omega
  simp only [topologyResp, BitVec.toNat_ofNat]
  exact Nat.mod_eq_of_lt this

/-- An id that is copied sends a packet exactly if it fills the path. -/
theorem copyId_sent {l l' : Copy} {x : NodeId} (hcur : l.s.curLoc ≤ maxChild)
    (hi : l.i ≤ maxPathNodes - 3) (h : copyId nd after l x = .ok l') :
    ∃ out, l'.sent = l.sent ++ out ∧ out.map (fun o => o.pathindex.toNat) =
      if maxPathNodes - 2 ≤ l.i + 1 then [l.i + 2] else [] := by
  by_cases hlt : l.i < maxPathNodes - 3
  · obtain ⟨p, hp, -, -⟩ := copyId_fits nd after (x := x) hlt
    rw [hp] at h
    cases h
    exact ⟨[], by simp, by rw [if_neg (by omega)]; rfl⟩
  · obtain ⟨p, s₁, rfl, -, hp⟩ := copyId_full nd after x hcur (by omega)
    rw [hp] at h
    cases h
    refine ⟨[topologyResp nd _], rfl, ?_⟩
    have hfull : maxPathNodes - 2 ≤ l.i + 1 := by unfold maxPathNodes at *; omega
    rw [if_pos hfull, List.map_singleton, topologyResp_pathindex nd]
    show l.i + 1 ≤ maxPathNodes - 2
    unfold maxPathNodes at *
    omega

/-- The accesses of the loop: within bounds, the ids written are the ids copied, and each call
sends one packet. -/
theorem copyAccesses_spec : ∀ (fuel j : Nat) (l l' : Copy), l.s.curLoc ≤ maxChild →
    l.i ≤ maxPathNodes - 3 → l.s.pathsLoc ≤ l.i → copyPaths nd after fuel j l = .ok l' →
      (∀ x ∈ copyAccesses nd after fuel j l, x.InBounds) ∧
      (copyAccesses nd after fuel j l).filterMap Access.written? = copiedIds nd after fuel j l ∧
      l'.sent.map (fun o => o.pathindex.toNat) = l.sent.map (fun o => o.pathindex.toNat) ++
        (copyAccesses nd after fuel j l).filterMap Access.sent? := by
  intro fuel
  induction fuel with
  | zero =>
    intro j l l' _ _ _ h
    cases h
    exact ⟨by simp [copyAccesses], rfl, by simp [copyAccesses]⟩
  | succ fuel ih =>
    intro j l l' hcur hi hloc h
    by_cases hlt : j < l.resp.pathindex.toNat
    · rw [copyPaths, if_pos hlt] at h
      rw [copyAccesses, copiedIds, if_pos hlt, if_pos hlt]
      by_cases hpres : isPresentPaths l.s (l.resp.path.getD j 0) = true
      · rw [if_pos hpres] at h
        rw [if_pos hpres, if_pos hpres]
        obtain ⟨hin, hids, hsent⟩ := ih (j + 1) l l' hcur hi hloc h
        refine ⟨?_, hids, hsent⟩
        intro x hx
        rcases List.mem_cons.1 hx with rfl | hx
        · trivial
        · exact hin x hx
      · rw [if_neg hpres] at h
        rw [if_neg hpres, if_neg hpres]
        obtain ⟨l₁, out, h₁, hprog, hc₁, -⟩ :=
          copyId_progress nd after (l.resp.path.getD j 0) hcur hi hloc
        obtain ⟨out₁, hout₁, hlen⟩ := copyId_sent nd after hcur hi h₁
        simp only [h₁] at h ⊢
        obtain ⟨hin, hids, hsent⟩ := ih (j + 1) l₁ l' hc₁ hprog.i_le hprog.pathsLoc_le h
        refine ⟨?_, ?_, ?_⟩
        · intro x hx
          simp only [List.mem_cons, List.mem_append] at hx
          rcases hx with rfl | rfl | hx | hx
          · trivial
          · exact hi
          · split at hx
            · rw [List.mem_singleton.1 hx]
              simp only [Access.InBounds]
              unfold maxPathNodes at *
              omega
            · cases hx
          · exact hin x hx
        · have hnone : (if maxPathNodes - 2 ≤ l.i + 1 then [Access.send (l.i + 1)]
              else []).filterMap Access.written? = [] := by
            split <;> rfl
          rw [List.filterMap_cons_none rfl, List.filterMap_cons_some (f := Access.written?) rfl,
            List.filterMap_append, hnone, hids, List.nil_append]
        · have hsends : (if maxPathNodes - 2 ≤ l.i + 1 then [Access.send (l.i + 1)]
              else []).filterMap Access.sent? =
                if maxPathNodes - 2 ≤ l.i + 1 then [l.i + 2] else [] := by
            split <;> rfl
          rw [List.filterMap_cons_none rfl, List.filterMap_cons_none rfl, List.filterMap_append,
            hsends, ← hlen, hsent, hout₁, List.map_append, List.append_assoc]
    · rw [copyPaths, if_neg hlt] at h
      cases h
      rw [copyAccesses, copiedIds, if_neg hlt, if_neg hlt]
      exact ⟨by simp, rfl, by simp⟩

end Loop

/-! ## One event -/

/-- The accesses of `process_topology_req`, and the packets it sends. -/
theorem topologyAccesses_spec (nd : Node) (after : TopologyInfo → TopologyInfo → TopologyInfo)
    {s s' : State} {t : TopologyInfo} {cid : NodeId} {out : List TopologyInfo} (hb : Bounded s)
    (hc : s.childList.isChild cid = true)
    (h : processTopologyReq nd after s t cid = .ok (s', out)) :
    (∀ x ∈ topologyAccesses nd after s t cid, x.InBounds) ∧
      (topologyAccesses nd after s t cid).filterMap Access.written? =
        acceptedIds nd after s t cid ∧
      out.map (fun o => o.pathindex.toNat) =
        (topologyAccesses nd after s t cid).filterMap Access.sent? := by
  simp only [processTopologyReq, hc, Bool.not_true, Bool.false_eq_true, if_false] at h
  split at h
  · cases h
  rename_i s₂ sent hacc
  simp only [acceptTopologyReq] at hacc
  split at hacc
  · cases hacc
  rename_i s₁ hstore
  have hcur : s₁.curLoc ≤ maxChild ∧ s₁.pathsLoc = s.pathsLoc := by
    simp only [storeChecksum] at hstore
    split at hstore
    · rename_i hlt
      cases hstore
      exact ⟨hlt, rfl⟩
    · cases hstore
  split at hacc
  · cases hacc
  rename_i l hl
  obtain ⟨hin, hids, hsent⟩ := copyAccesses_spec nd after 256 0 ⟨s₁, t, s₁.pathsLoc, []⟩ l hcur.1
    (by simp only [hcur.2]; exact hb.pathsLoc_le) (Nat.le_refl _) hl
  obtain ⟨l₂, _, hl₂, hprog, hcur₂⟩ := copyPaths_progress nd after 256 0
    ⟨s₁, t, s₁.pathsLoc, []⟩ hcur.1 (by simp only [hcur.2]; exact hb.pathsLoc_le) (Nat.le_refl _)
  rw [hl] at hl₂
  cases hl₂
  cases hacc
  have hloc : l.taken.pathsLoc ≤ maxPathNodes - 2 := by
    have := hprog.i_le
    simp only [Copy.taken]
    omega
  simp only [List.map_nil, List.nil_append] at hsent
  simp only [topologyAccesses, acceptedIds, hstore, hl]
  simp only [finishTopologyReq] at h
  by_cases hcount : l.taken.curLoc = l.taken.childList.getChildCount
  · rw [if_pos hcount, sendTopologyResp_eq nd (s := l.taken) hcur₂ hloc] at h
    cases h
    rw [if_pos hcount]
    refine ⟨?_, ?_, ?_⟩
    · intro x hx
      rcases List.mem_append.1 hx with hx | hx
      · exact hin x hx
      · rw [List.mem_singleton.1 hx]
        exact hloc
    · rw [List.filterMap_append, hids]
      exact List.append_nil _
    · rw [List.map_append, List.filterMap_append, hsent, List.map_singleton,
        topologyResp_pathindex nd hloc]
      rfl
  · rw [if_neg hcount] at h
    cases h
    rw [if_neg hcount, List.append_nil]
    exact ⟨hin, hids, hsent⟩

/-- The topology responses among the actions, of a relay with children or without. -/
def sentTopology (out : List Action) : List TopologyInfo :=
  out.filterMap fun
    | .sendToParents (.topology o) _ _ => some o
    | _ => none

theorem sentTopology_map (nd : Node) (out : List TopologyInfo) :
    sentTopology (out.map fun o => sendToParents nd (.topology o) false) = out := by
  induction out with
  | nil => rfl
  | cons o out ih => simp [sentTopology, sendToParents]

/-- A response that ends with the relay's own id and says so. -/
structure WellFormed (nd : Node) (o : TopologyInfo) : Prop where
  pos : 1 ≤ o.pathindex.toNat
  le : o.pathindex.toNat ≤ maxPathNodes - 1
  own : o.path[o.pathindex.toNat - 1]? = some nd.id

theorem wellFormed_topologyResp (nd : Node) {s : State} (h : s.pathsLoc ≤ maxPathNodes - 2) :
    WellFormed nd (topologyResp nd s) := by
  have hlen : s.ids.length = s.pathsLoc := by
    simp only [State.ids, List.length_take, Vector.length_toList]
    unfold maxPathNodes at *
    omega
  have hindex := topologyResp_pathindex nd h
  refine ⟨by omega, by unfold maxPathNodes at *; omega, ?_⟩
  rw [hindex, Nat.add_sub_cancel]
  show (s.ids ++ [nd.id])[s.pathsLoc]? = some nd.id
  rw [← hlen]
  exact List.getElem?_concat_length

theorem TopologyOutcome.wellFormed {nd : Node} {s s' : State} {t : TopologyInfo} {cid : NodeId}
    {new : List NodeId} {out : List TopologyInfo} (h : TopologyOutcome nd s t cid new s' out) :
    ∀ o ∈ out, WellFormed nd o := by
  intro o ho
  cases h with
  | waits _ _ => cases ho
  | completes hacc _ =>
    rw [List.mem_singleton.1 ho]
    refine wellFormed_topologyResp nd ?_
    have := hacc.bounded.pathsLoc_le
    omega
  | splits _ _ hbuilt _ _ =>
    obtain ⟨s₁, hloc, rfl⟩ := hbuilt o ho
    exact wellFormed_topologyResp nd hloc

/-- What a relay without children answers to a request. -/
theorem sentTopology_mcast {nd : Node} {s : State} {mpkt : RequestPacket} {o : TopologyInfo}
    (ho : o ∈ sentTopology (mcastTcpipHandler nd s mpkt).2) :
    o = ⟨1, [nd.id], nd.rank, ownChecksum nd.id⟩ := by
  by_cases ht : mpkt.pktType = topology
  · simpa only [mcastTcpipHandler, createResponse, attestMemory_eq, ht, if_true, sentTopology,
      sendToParents, List.filterMap_cons, List.filterMap_nil, List.mem_singleton] using ho
  · by_cases ha : mpkt.pktType = attestation
    · have hne : attestation ≠ topology := ha ▸ ht
      simp [mcastTcpipHandler, createResponse, ha, hne, sentTopology] at ho
    · simp [mcastTcpipHandler, createResponse, ht, ha, sentTopology] at ho

theorem mcastTcpipHandler_wellFormed (nd : Node) (s : State) (mpkt : RequestPacket) :
    ∀ o ∈ sentTopology (mcastTcpipHandler nd s mpkt).2, WellFormed nd o := by
  intro o ho
  rw [sentTopology_mcast ho]
  exact ⟨Nat.le_refl 1, by unfold maxPathNodes; show 1 ≤ 9; omega, rfl⟩

theorem StepOutcome.wellFormed {nd : Node} {s s' : State} {e : Event} {out : List Action}
    (hb : Bounded s) (h : StepOutcome nd s e s' out) : ∀ o ∈ sentTopology out, WellFormed nd o := by
  intro o ho
  cases h with
  | request mpkt _ _ _ => exact mcastTcpipHandler_wellFormed nd s mpkt o ho
  | topology _ _ _ hout =>
    rw [sentTopology_map] at ho
    exact hout.wellFormed o ho
  | periodicTopology _ =>
    have hone : sentTopology [sendToParents nd (.topology (topologyResp nd s)) false] =
        [topologyResp nd s] := rfl
    rw [hone] at ho
    rw [List.mem_singleton.1 ho]
    refine wellFormed_topologyResp nd ?_
    have := hb.pathsLoc_le
    omega
  | secReq secreq =>
    obtain ⟨a, ha, hao⟩ := List.mem_filterMap.1 ho
    obtain ⟨-, resp, rfl⟩ := mem_udpSecreqCallback ha
    cases hao
  | ignored | attestation | periodicIdle | periodicAttestation | periodicZero | pIdle
    | pBroadcast => cases ho

/-! ## Runs -/

theorem accesses_topology {nd : Node} {b : Buffers} {s : State} {e : Event} {cid : NodeId}
    {t : TopologyInfo} (hh : heard s.childList.ids e = some (cid, .topology t))
    (hmem : cid ∈ s.childList.ids) :
    accesses nd b s e = topologyAccesses nd (e.after b) s t cid := by
  simp only [accesses, hh, ChildList.isChild_iff.2 hmem, if_true]

/-- An event that takes no topology packet in, and no timer, touches none of the arrays. -/
theorem accesses_quiet {nd : Node} {b : Buffers} {s : State} {e : Event}
    (ht : e ≠ .periodicExpiry)
    (h : ∀ cid t, heard s.childList.ids e = some (cid, .topology t) → cid ∉ s.childList.ids) :
    accesses nd b s e = [] := by
  simp only [accesses]
  split
  · rename_i cid t hh
    exact if_neg fun hc => h cid t hh (ChildList.isChild_iff.1 hc)
  · exact if_neg fun hc => ht hc.1

theorem accesses_inBounds (nd : Node) (b : Buffers) {s : State} (e : Event) (hb : Bounded s) :
    ∀ x ∈ accesses nd b s e, x.InBounds := by
  intro x hx
  by_cases hp : e = .periodicExpiry
  · subst hp
    simp only [accesses, heard] at hx
    split at hx
    · rw [List.mem_singleton.1 hx]
      have := hb.pathsLoc_le
      show s.pathsLoc ≤ maxPathNodes - 2
      omega
    · cases hx
  by_cases hh : ∃ cid t, heard s.childList.ids e = some (cid, .topology t) ∧ cid ∈ s.childList.ids
  · obtain ⟨cid, t, hh, hmem⟩ := hh
    have hc := ChildList.isChild_iff.2 hmem
    rw [accesses_topology hh hmem] at hx
    by_cases hcur : s.curLoc < maxChild
    · obtain ⟨s', out, hok, -⟩ := processTopologyReq_cases nd (e.after b) t hb hc hcur
      exact (topologyAccesses_spec nd (e.after b) hb hc hok).1 x hx
    · simp [topologyAccesses, storeChecksum, hcur] at hx
  · rw [accesses_quiet hp fun cid t h hmem => hh ⟨cid, t, h, hmem⟩] at hx
    cases hx

/-- The calls listed are those that send: a relay with children sends one topology response for
each, with as many ids as it held and its own. -/
theorem accesses_sent {nd : Node} {b : Buffers} {s s' : State} {e : Event} {out : List Action}
    (hb : Bounded s) (hleaf : isLeaf s = false) (h : step nd b s e = .ok (s', out)) :
    (sentTopology out).map (fun o => o.pathindex.toNat) =
      (accesses nd b s e).filterMap Access.sent? := by
  have hquiet : ∀ {e : Event}, e.isTimer = false → taken s.childList.ids e = none →
      accesses nd b s e = [] := by
    intro e he ht
    refine accesses_quiet (by rintro rfl; cases he) fun cid t hh hmem => ?_
    simp [taken, hh, hmem] at ht
  cases outcome_of_step hb h with
  | ignored he ht => rw [hquiet he ht]; rfl
  | request _ _ hl _ => rw [hleaf] at hl; cases hl
  | @topology e cid t new s' out hh hmem hcur hout =>
    obtain ⟨sent, hrun, hsent⟩ := step_topology_ok hh h
    rw [accesses_topology hh hmem, hsent, sentTopology_map]
    exact (topologyAccesses_spec nd (e.after b) hb (ChildList.isChild_iff.2 hmem) hrun).2.2
  | attestation hh _ _ =>
    rw [accesses_quiet (by rintro rfl; cases hh) fun cid t hh' => by rw [hh] at hh'; cases hh']
    rfl
  | secReq secreq =>
    have hnone : sentTopology (udpSecreqCallback s secreq) = [] := by
      refine List.filterMap_eq_nil_iff.2 fun a ha => ?_
      obtain ⟨-, resp, rfl⟩ := mem_udpSecreqCallback ha
      rfl
    rw [hquiet rfl rfl, hnone]
    rfl
  | periodicTopology hx =>
    have hloc := hb.pathsLoc_le
    have hindex := topologyResp_pathindex nd (s := s) (by omega)
    have hone : sentTopology [sendToParents nd (.topology (topologyResp nd s)) false] =
        [topologyResp nd s] := rfl
    simp only [accesses, heard, hx, and_self, if_true, hone, List.map_singleton, hindex]
    rfl
  | periodicIdle hx | periodicAttestation hx _ | periodicZero hx _ =>
    simp only [accesses, heard, hx]
    rfl
  | pIdle _ | pBroadcast _ => rw [accesses_quiet (by simp) (by simp [heard])]; rfl

/-- In every run, between events `paths_loc` is at most `maxPathNodes - 3`; the next event, with a
packet of any contents, writes and calls within bounds, never finds the path full nor leaves
`pathindex` unset, and sends well-formed responses. -/
theorem topology_packets_well_formed {nd : Node} {b : Buffers} {c : ChildList} {t : History}
    {s : State} (h : (machine nd b).Run (init c) t s) :
    s.pathsLoc ≤ maxPathNodes - 3 ∧ ∀ e : Event,
      (∀ x ∈ accesses nd b s e, x.InBounds) ∧
      step nd b s e ≠ .error .pathOverflow ∧ step nd b s e ≠ .error .pathindexUnset ∧
      ∀ s' out, step nd b s e = .ok (s', out) → ∀ o ∈ sentTopology out, WellFormed nd o := by
  have hb := (run_good h).bounded
  have hfault : ∀ (e : Event) (f : Fault), step nd b s e = .error f → f = .checksumOverflow := by
    intro e f hf
    rcases step_outcome nd b e hb with ⟨he, -⟩ | ⟨s', out, hok, -⟩
    · rw [he] at hf
      cases hf
      rfl
    · rw [hok] at hf
      cases hf
  refine ⟨hb.pathsLoc_le, fun e => ⟨accesses_inBounds nd b e hb, ?_, ?_, ?_⟩⟩
  · intro he
    cases hfault e _ he
  · intro he
    cases hfault e _ he
  · intro s' out hs
    exact (outcome_of_step hb hs).wellFormed hb

/-- Seven ids wait, as many as ever do; an eighth sends the path. -/
theorem topology_packets_well_formed_full :
    ∃ t s, sampleMachine.Run (init twoChildren) t s ∧ s.pathsLoc = maxPathNodes - 3 ∧
      Access.send (maxPathNodes - 2) ∈ accesses sampleNode .contiki s
        (.broadcast 3 (.topology ⟨1, [20], 768, 5⟩)) ∧
      ∀ e, ∀ x ∈ accesses sampleNode .contiki s e, x.InBounds := by
  have h : sampleMachine.Run (init twoChildren)
      [(.broadcast 2 (.topology ⟨7, [10, 11, 12, 13, 14, 15, 16], 768, 9⟩), [])] _ :=
    .next (t := []) .start trivial rfl
  exact ⟨_, _, h, rfl, by decide, fun e => ((topology_packets_well_formed h).2 e).1⟩

end Relay
end Swarna
