import Swarna.Timeouts

/-!
# Swarna.TimeoutRange

The range of the two timeouts, which are differences of ranks stored in one byte. RPL may change the
rank of a relay at any time, so in a run of `liveMachine` each event comes with the node as it is
at that time.

* `tdiv_three_nonneg`: the quotient of a difference by 3 is negative from three below on.
* `timeouts_exact_iff`: in every state reached, both timeouts are what is computed exactly when the
  relay is fewer than three hop increments above its farthest leaf and its rank is below 64
  increments. Before the first packet of a child the farthest leaf is at 0.
* `timeout_wraps_at_start`: a relay of rank 1024 that has heard no child.
-/

namespace Swarna

/-- `NUM_NODES`, as compiled. -/
def numNodes : Nat := 20

theorem tdiv_three_of_le {a b : Nat} (h : b ≤ a) :
    ((a : Int) - b).tdiv 3 = ((a - b) / 3 : Nat) := by
  rw [← Nat.cast_sub h]
  exact Int.ofNat_tdiv _ _

theorem tdiv_three_of_ge {a b : Nat} (h : a ≤ b) :
    ((a : Int) - b).tdiv 3 = -((b - a) / 3 : Nat) := by
  have hneg : (a : Int) - b = -((b - a : Nat) : Int) := by omega
  rw [hneg, Int.neg_tdiv]
  rfl

theorem tdiv_three_nonneg (a b : Nat) : 0 ≤ ((a : Int) - b).tdiv 3 ↔ b < a + 3 := by
  rcases Nat.le_total b a with h | h
  · rw [tdiv_three_of_le h]
    omega
  · rw [tdiv_three_of_ge h]
    omega

namespace Relay

/-- What `get_topology_timeout` computes, as an `int`. -/
def topologyDifference (nd : Node) : Int :=
  numNodes - ((nd.rank.toNat / rplMinHoprankinc : Nat) - (1 : Nat) : Int).tdiv 3

def getTopologyTimeout (nd : Node) : BitVec 8 := BitVec.ofInt 8 (topologyDifference nd)

/-- Both timeouts are what is computed, and no node of a smaller rank has a shorter topology
timeout. -/
structure TimeoutsExact (nd : Node) (s : State) : Prop where
  attestation : 0 ≤ timeoutQuotient nd s ∧ timeoutQuotient nd s ≤ 255
  topology : 0 ≤ topologyDifference nd ∧ topologyDifference nd ≤ 255
  attestation_eq : ((getAttestationTimeout nd s).toNat : Int) = timeoutQuotient nd s
  topology_eq : ((getTopologyTimeout nd).toNat : Int) = topologyDifference nd
  order : ∀ nd' : Node, nd'.rank ≤ nd.rank →
    (getTopologyTimeout nd).toNat ≤ (getTopologyTimeout nd').toNat

theorem ofInt_toNat {x : Int} (h₀ : 0 ≤ x) (h : x ≤ 255) :
    ((BitVec.ofInt 8 x).toNat : Int) = x := by
  rw [BitVec.toNat_ofInt]
  omega

theorem timeoutQuotient_nonneg {nd : Node} {s : State} :
    0 ≤ timeoutQuotient nd s ↔ nd.rank.toNat / 256 < s.maxLeafRank.toNat / 256 + 3 :=
  tdiv_three_nonneg _ _

theorem timeoutQuotient_le (nd : Node) (s : State) : timeoutQuotient nd s ≤ 255 := by
  have hlt := s.maxLeafRank.isLt
  rcases Nat.le_total (nd.rank.toNat / 256) (s.maxLeafRank.toNat / 256) with h | h
  · rw [timeoutQuotient, rplMinHoprankinc, tdiv_three_of_le h]
    omega
  · rw [timeoutQuotient, rplMinHoprankinc, tdiv_three_of_ge h]
    omega

/-- A rank below one increment counts as one. -/
theorem topologyDifference_eq (nd : Node) :
    topologyDifference nd = 20 - ((nd.rank.toNat / 256 - 1) / 3 : Nat) := by
  rw [topologyDifference, rplMinHoprankinc, numNodes]
  rcases Nat.le_total 1 (nd.rank.toNat / 256) with h | h
  · rw [tdiv_three_of_le h]
    rfl
  · rw [tdiv_three_of_ge h]
    omega

theorem topologyDifference_nonneg (nd : Node) :
    0 ≤ topologyDifference nd ↔ nd.rank.toNat < 64 * 256 := by
  rw [topologyDifference_eq]
  omega

theorem topologyDifference_le (nd : Node) : topologyDifference nd ≤ 255 := by
  rw [topologyDifference_eq]
  omega

theorem timeoutsExact_iff {nd : Node} {s : State} :
    TimeoutsExact nd s ↔
      nd.rank.toNat / 256 < s.maxLeafRank.toNat / 256 + 3 ∧ nd.rank.toNat < 64 * 256 := by
  constructor
  · intro h
    exact ⟨timeoutQuotient_nonneg.1 h.attestation.1, (topologyDifference_nonneg nd).1 h.topology.1⟩
  · rintro ⟨hatt, htop⟩
    have hatt' := timeoutQuotient_nonneg.2 hatt
    have htop' := (topologyDifference_nonneg nd).2 htop
    refine ⟨⟨hatt', timeoutQuotient_le nd s⟩, ⟨htop', topologyDifference_le nd⟩,
      ofInt_toNat hatt' (timeoutQuotient_le nd s), ofInt_toNat htop' (topologyDifference_le nd), ?_⟩
    intro nd' hle
    have hle' : nd'.rank.toNat ≤ nd.rank.toNat := hle
    have hnd := ofInt_toNat htop' (topologyDifference_le nd)
    have hnd' := ofInt_toNat ((topologyDifference_nonneg nd').2 (by omega))
      (topologyDifference_le nd')
    rw [topologyDifference_eq] at hnd hnd'
    rw [getTopologyTimeout, getTopologyTimeout, topologyDifference_eq, topologyDifference_eq]
    omega

/-! ## Runs in which the rank changes -/

/-- Each event comes with the node as it is then. -/
def liveMachine (b : Buffers) : Machine State (Node × Event) Action Fault :=
  ⟨fun s x => step x.1 b s x.2⟩

/-- The events of a run, without the nodes. -/
def forgetNodes (t : Trace (Node × Event) Action) : History := t.map fun x => (x.1.2, x.2)

theorem StepOutcome.maxLeafRank {nd : Node} {s s' : State} {e : Event} {out : List Action}
    (h : StepOutcome nd s e s' out)
    (hno : ∀ cid t, heard s.childList.ids e = some (cid, .topology t) → cid ∉ s.childList.ids) :
    s'.maxLeafRank = s.maxLeafRank := by
  cases h with
  | topology hh hmem _ _ => exact absurd hmem (hno _ _ hh)
  | request mpkt _ _ _ =>
    obtain ⟨r, hr⟩ := mcastTcpipHandler_state nd s mpkt
    rw [hr]
  | ignored | attestation | secReq | periodicIdle | periodicTopology | periodicAttestation
    | periodicZero | pIdle | pBroadcast => rfl

theorem timeouts_exact_iff {b : Buffers} {c : ChildList} {t : Trace (Node × Event) Action}
    {s : State} (hr : (liveMachine b).Run (init c) t s) (nd : Node) :
    (TimeoutsExact nd s ↔
      nd.rank.toNat / 256 < s.maxLeafRank.toNat / 256 + 3 ∧ nd.rank.toNat < 64 * 256) ∧
    ((∀ x ∈ t, ∀ cid p, heard c.ids x.1.2 = some (cid, .topology p) → cid ∉ c.ids) →
      s.maxLeafRank = 0) := by
  refine ⟨timeoutsExact_iff, ?_⟩
  have hinv : Good c.ids (forgetNodes t) s ∧
      ((∀ x ∈ t, ∀ cid p, heard c.ids x.1.2 = some (cid, .topology p) → cid ∉ c.ids) →
        s.maxLeafRank = 0) := by
    refine hr.invariant (P := fun t s => Good c.ids (forgetNodes t) s ∧
      ((∀ x ∈ t, ∀ cid p, heard c.ids x.1.2 = some (cid, .topology p) → cid ∉ c.ids) →
        s.maxLeafRank = 0)) ⟨good_init c, fun _ => rfl⟩ ?_
    rintro t s e s' out ⟨hg, hzero⟩ - hs
    have ho := outcome_of_step hg.bounded hs
    have hforget : forgetNodes (t ++ [(e, out)]) = forgetNodes t ++ [(e.2, out)] := by
      simp [forgetNodes]
    refine ⟨by rw [hforget]; exact good_step hg ho, fun hno => ?_⟩
    have hlast := hno (e, out) (by simp)
    rw [← hg.children_eq] at hlast
    rw [ho.maxLeafRank hlast]
    exact hzero fun x hx => hno x (List.mem_append_left _ hx)
  exact hinv.2

/-- A child reports a leaf of rank 2560, and then the relay moves from rank 512 to 1280. -/
theorem timeouts_exact_moved :
    ∃ t s, (liveMachine .contiki).Run (init oneChild) t s ∧ s.maxLeafRank = 2560 ∧
      TimeoutsExact ⟨1, 1280, [⟨0, 256⟩]⟩ s := by
  have hr : (liveMachine .contiki).Run (init oneChild)
      [((sampleNode, .tcpip 2 (.topology ⟨1, [2], 2560, 7⟩)), _)] _ :=
    .next (t := []) .start trivial rfl
  exact ⟨_, _, hr, rfl, (timeouts_exact_iff hr ⟨1, 1280, [⟨0, 256⟩]⟩).1.2 (by decide)⟩

/-- A relay of rank 1024 that has heard no child waits 255 units, and its topology timeout grows
when its rank passes 63 increments. -/
theorem timeout_wraps_at_start :
    (liveMachine .contiki).Run (init oneChild) [] (init oneChild) ∧
      timeoutQuotient ⟨1, 1024, [⟨0, 256⟩]⟩ (init oneChild) = -1 ∧
      getAttestationTimeout ⟨1, 1024, [⟨0, 256⟩]⟩ (init oneChild) = 255 ∧
      ¬ TimeoutsExact ⟨1, 1024, [⟨0, 256⟩]⟩ (init oneChild) ∧
      getTopologyTimeout ⟨1, 16383, [⟨0, 256⟩]⟩ = 0 ∧
      getTopologyTimeout ⟨1, 16384, [⟨0, 256⟩]⟩ = 255 :=
  ⟨.start, rfl, rfl, fun h => absurd h.attestation.1 (by decide), rfl, rfl⟩

end Relay
end Swarna
