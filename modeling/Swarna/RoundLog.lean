import Swarna.Testbed

/-!
# Swarna.RoundLog

What a round leaves in the log of the border router, over every interleaving.

* `topology_logged`: a topology round logs one path and one checksum for each child of the border
  router; together they list every node below it once.
* `attestation_logged`: an attestation round logs the aggregate of each child's subtree, and counts
  the children.
* `change_logged_iff`: one changed client shows in the log if its checksum changes in the bits the
  log shows.
-/

namespace Swarna

open Network (Label History traceOf delivered senders inbox link)
open BorderRouter (isAnswer answerLog)
open Deployment (testbedStart OneMulticast SoleRequest multicasts log erasure)

variable {ι : Type}

/-- What is closed under XOR and holds of all terms holds of the aggregate. -/
theorem xorOver_of_closed {w : Nat} {P : BitVec w → Prop} (hzero : P 0)
    (hxor : ∀ a b, P a → P b → P (a ^^^ b)) {s : Finset ι} {f : ι → BitVec w}
    (hf : ∀ x ∈ s, P (f x)) : P (xorOver s f) := by
  have hall : ∀ l : List ι, (∀ x ∈ l, P (f x)) → P (xorAll (l.map f)) := by
    intro l
    induction l with
    | nil => exact fun _ => hzero
    | cons x l ih =>
      intro hl
      obtain ⟨hx, hl⟩ := List.forall_mem_cons.1 hl
      exact hxor _ _ hx (ih hl)
  exact hall _ fun x hx => hf x (Finset.mem_toList.1 hx)

/-- A value the conversion to `v` bits keeps. -/
def Fits (v : Nat) (x : Checksum) : Prop := (x.setWidth v).setWidth 64 = x

theorem fits_iff {v : Nat} {x : Checksum} : Fits v x ↔ x.toNat < 2 ^ v := by
  have hx : x.toNat < 2 ^ 64 := x.isLt
  have hmod : x.toNat % 2 ^ v % 2 ^ 64 = x.toNat % 2 ^ v :=
    Nat.mod_eq_of_lt (Nat.lt_of_le_of_lt (Nat.mod_le _ _) hx)
  rw [Fits, ← BitVec.toNat_inj, BitVec.toNat_setWidth, BitVec.toNat_setWidth, hmod]
  constructor
  · intro h
    rw [← h]
    exact Nat.mod_lt _ (Nat.two_pow_pos v)
  · exact Nat.mod_eq_of_lt

theorem fits_zero (v : Nat) : Fits v 0 := by
  rw [fits_iff]
  exact Nat.two_pow_pos v

theorem Fits.xor {v : Nat} {x y : Checksum} (hx : Fits v x) (hy : Fits v y) :
    Fits v (x ^^^ y) := by
  rw [Fits, BitVec.setWidth_xor, BitVec.setWidth_xor, hx, hy]

/-- The checksums of honest nodes have 32 bits. -/
theorem fits_ownChecksum {v : Nat} (hv : 32 ≤ v) (id : NodeId) : Fits v (ownChecksum id) := by
  have hle : 2 ^ 32 ≤ 2 ^ v := Nat.pow_le_pow_right (by omega) hv
  have hid : id.toNat < 2 ^ 16 := id.isLt
  refine Fits.xor (fits_iff.2 ?_) (fits_iff.2 ?_)
  · have hconst : (0x11e108b7#64).toNat < 2 ^ 32 := by decide
    omega
  · rw [BitVec.toNat_setWidth_of_le (by omega)]
    omega

/-! ## The topology round -/

/-- Topology packets of distinct children, each of which describes the child's subtree. -/
structure Reported [Fintype ι] [DecidableEq ι] (D : Deployment ι) (T : Tree ι)
    (nodes : ι → NodeState) (root : ι) (heard : List (ι × TopologyInfo)) : Prop where
  distinct : (heard.map Prod.fst).Nodup
  child : ∀ x ∈ heard, T.parent x.1 = some root
  describes : ∀ x ∈ heard, Describes D T nodes x.1 x.2

/-- The log of topology packets. -/
def topologyLog (v : Nat) (D : Deployment ι) (heard : List (ι × TopologyInfo)) :
    List (BorderRouter.Output v) :=
  heard.flatMap fun x =>
    [.aggPath x.2.ids, .receivedChecksum (x.2.checksum.setWidth v) (D.node x.1).id]

namespace TopologyTree

variable [Fintype ι] [DecidableEq ι] {D : Deployment ι} {T : Tree ι} {links : ι → List ι}
  {nodes : ι → NodeState} {root : ι}

omit [Fintype ι] in
theorem roundCondition (nodes : ι → NodeState) :
    Deployment.RoundCondition topology nodes (OneRequest nodes) where
  deliver _ _ _ := trivial
  request _ _ _ _ hm hcl hnot := ⟨hm, hcl, hnot⟩
  history _ _ _ l h := by
    cases l with
    | deliver p => trivial
    | ext n e => cases e <;> exact h

/-- What the border router hears: packets of its children, one each; of all of them once the round
is over. -/
theorem router_inbox (root : ι) (hT : TopologyTree D T links nodes)
    {t : History ι Datagram NodeEvent Action} {s : Network.State ι NodeState Datagram}
    (hr : D.network.machine.RunIf (OneRequest nodes) (Deployment.start nodes) t s) :
    (senders (traceOf root t)).Nodup ∧
      (∀ x ∈ inbox (traceOf root t), T.parent x.1 = some root ∧
        ∃ o, x.2 = ⟨.checksum, .topology o⟩ ∧ Describes D T nodes x.1 o) ∧
      ((∀ n, IsClient nodes n → Asked (traceOf n t)) → s.flight = [] →
        ∀ c, T.parent c = some root → c ∈ senders (traceOf root t)) := by
  obtain ⟨hI, -⟩ := run_status hT hr
  refine ⟨Network.nodup_senders hr rfl fun c => ?_, ?_, fun hasked hquiet c hc => ?_⟩
  · rcases (hI c).answer hT with h | ⟨p, o, a, -, h, hpost, -⟩
    · rw [h]
      simp [link]
    · rw [h, List.flatMap_singleton, hpost]
      exact List.length_filter_le _ _
  · rintro ⟨c, b⟩ hx
    have hmem : ⟨c, root, b⟩ ∈ link c root (delivered t) :=
      Network.mem_link.2 ⟨Network.recv_mem_traceOf.1 (Network.mem_inbox.1 hx), rfl, rfl⟩
    have hposted := (Network.link_conserved hr rfl c root).subset (List.mem_append_left _ hmem)
    have hp := (Network.mem_link.1 hposted).1
    rcases (hI c).answer hT with h | ⟨p, o, a, hparent, h, hpost, hd⟩
    · rw [h] at hp
      cases hp
    · rw [h, List.flatMap_singleton, hpost, List.mem_singleton] at hp
      cases hp
      exact ⟨hparent, o, rfl, hd⟩
  · have hne : nodes c ≠ .router := by
      intro he
      rw [(hT.router c).1 he] at hc
      cases hc
    rcases (hI c).answer hT with h | ⟨p, o, a, hparent, h, hpost, -⟩
    · exact absurd h (all_answered hT hr hasked hquiet c hne)
    · rw [hc] at hparent
      cases hparent
      refine Network.mem_senders (p := ⟨c, root, ⟨.checksum, .topology o⟩⟩) hr rfl hquiet ?_
      rw [h, List.flatMap_singleton, hpost]
      exact List.mem_singleton_self _

/-- Packets of that kind, as what was heard. -/
theorem heard_of_inbox {l : List (ι × Datagram)} (hn : (l.map Prod.fst).Nodup)
    (hl : ∀ x ∈ l, T.parent x.1 = some root ∧
      ∃ o, x.2 = ⟨.checksum, .topology o⟩ ∧ Describes D T nodes x.1 o) :
    ∃ heard, l = heard.map (fun x => (x.1, ⟨.checksum, .topology x.2⟩)) ∧
      Reported D T nodes root heard := by
  induction l with
  | nil => exact ⟨[], rfl, ⟨List.nodup_nil, by simp, by simp⟩⟩
  | cons x l ih =>
    obtain ⟨hx, hl⟩ := List.forall_mem_cons.1 hl
    obtain ⟨hnot, hn⟩ := List.nodup_cons.1 hn
    obtain ⟨heard, rfl, hrep⟩ := ih hn hl
    obtain ⟨c, b⟩ := x
    obtain ⟨hparent, o, rfl, hd⟩ := hx
    have hfst : (heard.map fun x : ι × TopologyInfo =>
        (x.1, (⟨.checksum, .topology x.2⟩ : Datagram))).map Prod.fst = heard.map Prod.fst := by
      rw [List.map_map]
      rfl
    rw [hfst] at hnot
    exact ⟨(c, o) :: heard, rfl, List.nodup_cons.2 ⟨hnot, hrep.distinct⟩,
      List.forall_mem_cons.2 ⟨hparent, hrep.child⟩,
      List.forall_mem_cons.2 ⟨hd, hrep.describes⟩⟩

/-- The paths heard list the subtrees of the children heard. -/
theorem ids_of_reported (hT : TopologyTree D T links nodes) {heard : List (ι × TopologyInfo)}
    (h : Reported D T nodes root heard) : Enumerates D (heard.flatMap fun x => x.2.ids)
      ((heard.map Prod.fst).toFinset.biUnion T.subtree) := by
  induction heard with
  | nil => simp [Enumerates]
  | cons x heard ih =>
    obtain ⟨hdistinct, hchild, hdescribes⟩ := h
    obtain ⟨hnot, hdistinct⟩ := List.nodup_cons.1 hdistinct
    obtain ⟨hx, hchild⟩ := List.forall_mem_cons.1 hchild
    obtain ⟨hd, hdescribes⟩ := List.forall_mem_cons.1 hdescribes
    have hdis := (heard_subset (fun d hd => by
      obtain ⟨y, hy, rfl⟩ := List.mem_map.1 hd
      exact hchild y hy) hx hnot).1
    have hall := hd.path.append hT.id_inj (ih ⟨hdistinct, hchild, hdescribes⟩) hdis.symm
    rwa [List.flatMap_cons, List.map_cons, List.toFinset_cons, Finset.biUnion_insert]

theorem checksums_of_reported {heard : List (ι × TopologyInfo)}
    (h : Reported D T nodes root heard) :
    xorAll (heard.map fun x => x.2.checksum) =
      xorOver ((heard.map Prod.fst).toFinset.biUnion T.subtree) D.own := by
  have hdisjoint : ((heard.map Prod.fst).toFinset : Set ι).PairwiseDisjoint T.subtree := by
    refine (Tree.pairwiseDisjoint_subtree root).subset fun c hc => ?_
    obtain ⟨x, hx, rfl⟩ := List.mem_map.1 (List.mem_toFinset.1 hc)
    exact Finset.mem_coe.2 (Tree.mem_children.2 (h.child x hx))
  rw [xorOver_biUnion hdisjoint, xorOver_eq h.distinct (by simp), List.map_map]
  refine congrArg xorAll (List.map_congr_left fun x hx => ?_)
  exact (h.describes x hx).checksum

/-- A round does not fault. -/
theorem progress (hT : TopologyTree D T links nodes) {t : History ι Datagram NodeEvent Action}
    {s : Network.State ι NodeState Datagram}
    (hr : D.network.machine.RunIf (OneRequest nodes) (Deployment.start nodes) t s)
    {l : Label ι Datagram NodeEvent} (hc : OneRequest nodes t s l)
    (hmem : ∀ p ∈ l.packet?, p ∈ s.flight) : ∃ r, D.network.machine.step s l = .ok r := by
  obtain ⟨hI, hQ⟩ := run_status hT hr
  obtain ⟨v, acts, hs, -, -⟩ := round_step hT hr hc hI hQ hmem
  exact Network.step_of_node hmem hs

theorem biUnion_children (root : ι) :
    (T.children root).biUnion T.subtree = (T.subtree root).erase root := by
  rw [Tree.subtree_eq, Finset.erase_insert (Tree.notMem_biUnion_subtree root)]

section

variable {group : List ι} {v w : Nat} {s₀ : BorderRouter.State w}
  {t : History ι Payload (StationEvent w) (StationOutput v)}
  {s : Network.State ι (Station w) Payload}

/-- What the border router `root` logs in a round, and what the log says when the round is over. -/
theorem round_log (hT : TopologyTree D T links nodes) (hg : group.Nodup)
    (hgroup : ∀ n, n ∈ group ↔ IsClient nodes n) (hv : 32 ≤ v)
    (hr : (D.testbed v group w).machine.RunIf (OneMulticast topology (OneRequest nodes))
      (testbedStart nodes s₀) t s) {root : ι} (hroot : nodes root = .router) :
    ∃ heard, Reported D T nodes root heard ∧
      (log root t).filter isAnswer = topologyLog v D heard ∧
      (∀ x ∈ heard, (x.2.checksum.setWidth v).setWidth 64 = x.2.checksum) ∧
      (multicasts t.outputs ≠ [] → s.flight = [] →
        (∀ c, T.parent c = some root → c ∈ heard.map Prod.fst) ∧
        Enumerates D (heard.flatMap fun x => x.2.ids) ((T.subtree root).erase root) ∧
        xorAll (heard.map fun x => x.2.checksum) =
          xorOver ((T.subtree root).erase root) D.own) := by
  obtain ⟨s', hr', -, hflight⟩ := Deployment.erased_run hg (fun n hn => (hgroup n).1 hn)
    (roundCondition nodes) hr
  obtain ⟨hnodup, hgood, hall⟩ := router_inbox root hT hr'
  rw [Network.senders_eq] at hnodup
  obtain ⟨heard, hinbox, hrep⟩ := heard_of_inbox hnodup hgood
  have hfst : senders (traceOf root ((erasure v w).trace t)) = heard.map Prod.fst := by
    rw [Network.senders_eq, hinbox, List.map_map]
    rfl
  refine ⟨heard, hrep, ?_, fun x hx => ?_, fun hout hquiet => ?_⟩
  · rw [Deployment.log_reports hr hroot, hinbox, List.flatMap_map, topologyLog]
    refine List.flatMap_congr fun x _ => ?_
    rw [hT.id_addr]
    rfl
  · rw [(hrep.describes x hx).checksum]
    exact xorOver_of_closed (fits_zero v) (fun _ _ => Fits.xor)
      fun m _ => fits_ownChecksum hv _
  · have hquiet' : s'.flight = [] := by
      rw [Erasure.state, hquiet] at hflight
      exact hflight.eq_nil
    have hchildren := hall (fun n hn => Deployment.group_asked hg hr hout hquiet
      ((hgroup n).2 hn)) hquiet'
    rw [hfst] at hchildren
    have hset : (heard.map Prod.fst).toFinset = T.children root := by
      ext c
      rw [List.mem_toFinset, Tree.mem_children]
      constructor
      · intro hc
        obtain ⟨x, hx, rfl⟩ := List.mem_map.1 hc
        exact hrep.child x hx
      · exact hchildren c
    rw [← biUnion_children, ← hset]
    exact ⟨hchildren, ids_of_reported hT hrep, checksums_of_reported hrep⟩

/-- A topology round, over every interleaving of it with datagrams of the verifier: nothing faults;
the border router logs at most one path and one checksum for each of its children, which describe
the child's subtree, and of which the log shows all bits; once the multicast is out and nothing is
in flight, the paths list every node below the border router once, and the checksums add up to
those of these nodes. -/
theorem topology_logged (hT : TopologyTree D T links nodes) (hg : group.Nodup)
    (hgroup : ∀ n, n ∈ group ↔ IsClient nodes n) (hv : 32 ≤ v)
    (hr : (D.testbed v group w).machine.RunIf (OneMulticast topology (OneRequest nodes))
      (testbedStart nodes s₀) t s) :
    (∀ l, OneMulticast topology (OneRequest nodes) t s l → (∀ p ∈ l.packet?, p ∈ s.flight) →
      ∃ r, (D.testbed v group w).machine.step s l = .ok r) ∧
    ∀ root, nodes root = .router → ∃ heard, Reported D T nodes root heard ∧
      (log root t).filter isAnswer = topologyLog v D heard ∧
      (∀ x ∈ heard, (x.2.checksum.setWidth v).setWidth 64 = x.2.checksum) ∧
      (multicasts t.outputs ≠ [] → s.flight = [] →
        (∀ c, T.parent c = some root → c ∈ heard.map Prod.fst) ∧
        Enumerates D (heard.flatMap fun x => x.2.ids) ((T.subtree root).erase root) ∧
        xorAll (heard.map fun x => x.2.checksum) =
          xorOver ((T.subtree root).erase root) D.own) :=
  ⟨fun _ hc hmem => Deployment.testbed_step hg (fun n hn => (hgroup n).1 hn)
    (roundCondition nodes) hr (fun _ _ _ hr hc hmem => progress hT hr hc hmem) hc hmem,
    fun _ hroot => round_log hT hg hgroup hv hr hroot⟩

end

theorem line_group (n : Fin 3) : n ∈ [lineClient] ↔ IsClient lineNodes n := by
  rw [List.mem_singleton]
  constructor
  · rintro rfl
    exact ⟨_, rfl⟩
  · rintro ⟨cs, hcs⟩
    rcases AttestationTree.line_node n with rfl | rfl | rfl
    · cases hcs
    · cases hcs
    · rfl

/-- The verifier's datagram, the client's answer and the relay's, on the line. -/
theorem line_round : ∃ (t : History (Fin 3) Payload (StationEvent 32) (StationOutput 32))
    (s : Network.State (Fin 3) (Station 32) Payload),
    (line.testbed 32 [lineClient] 32).machine.RunIf (OneMulticast topology (OneRequest lineNodes))
      (testbedStart lineNodes ⟨0, 0, 0, 0, 0⟩) t s ∧ multicasts t.outputs ≠ [] ∧
      s.flight = [] := by
  have hr : (line.testbed 32 [lineClient] 32).machine.RunIf
      (OneMulticast topology (OneRequest lineNodes)) (testbedStart lineNodes ⟨0, 0, 0, 0, 0⟩)
      [(.ext lineRouter (.verifier ⟨topology, 1⟩ 0), _),
        (.deliver ⟨lineRouter, lineClient, .multicast ⟨topology, 1234⟩⟩, _),
        (.deliver ⟨lineClient, lineRelay, .datagram ⟨.checksum,
          .topology ⟨1, [2], 768, ownChecksum 2⟩⟩⟩, _),
        (.deliver ⟨lineRelay, lineRouter, .datagram ⟨.checksum,
          .topology ⟨2, [2, 1], 768, ownChecksum 2 ^^^ ownChecksum 1⟩⟩⟩, _)] _ :=
    .next (t := [_, _, _]) (.next (t := [_, _]) (.next (t := [_]) (.next (t := [])
      .start (fun _ => ⟨rfl, rfl⟩) rfl) trivial rfl) trivial rfl) trivial rfl
  exact ⟨_, _, hr, List.cons_ne_nil _ _, rfl⟩

/-- The relay is heard. -/
theorem topology_logged_line : ∃ (t : History (Fin 3) Payload (StationEvent 32)
      (StationOutput 32)) (s : Network.State (Fin 3) (Station 32) Payload),
    (line.testbed 32 [lineClient] 32).machine.Run (testbedStart lineNodes ⟨0, 0, 0, 0, 0⟩) t s ∧
    s.flight = [] ∧ ∃ heard, Reported line lineTree lineNodes lineRouter heard ∧
      (log lineRouter t).filter isAnswer = topologyLog 32 line heard ∧
      lineRelay ∈ heard.map Prod.fst := by
  obtain ⟨t, s, hr, hout, hquiet⟩ := line_round
  obtain ⟨-, hlog⟩ := topology_logged line_topologyTree (List.nodup_singleton lineClient)
    line_group (Nat.le_refl 32) hr
  obtain ⟨heard, hrep, hheard, -, hdone⟩ := hlog lineRouter rfl
  exact ⟨t, s, hr.run, hquiet, heard, hrep, hheard, (hdone hout hquiet).1 lineRelay rfl⟩

end TopologyTree

/-! ## The attestation round -/

namespace AttestationTree

variable [Fintype ι] [DecidableEq ι] {D : Deployment ι} {T : Tree ι} {nodes : ι → NodeState}
  {a : ι → Checksum} {root : ι}

omit [Fintype ι] in
theorem roundCondition (T : Tree ι) (nodes : ι → NodeState) :
    Deployment.RoundCondition attestation nodes (AttestationRound T nodes) where
  deliver _ _ _ := trivial
  request _ _ _ _ hm hcl hnot := ⟨hm, hcl, hnot⟩
  history _ _ _ l h := by
    cases l with
    | deliver p => trivial
    | ext n e => cases e <;> exact h

/-- What the border router hears: the aggregates of its children, once each; of all of them once the
round is complete. -/
theorem router_inbox (hT : AttestationTree D T nodes)
    (hne : ∀ n rs, nodes n = .relay rs → value D T nodes a n ≠ 0)
    {t : History ι Datagram NodeEvent Action} {s : Network.State ι NodeState Datagram}
    (hr : (D.assign a).network.machine.RunIf (AttestationRound T nodes) (Deployment.start nodes)
      t s) (hroot : nodes root = .router) :
    (senders (traceOf root t)).Nodup ∧
      (∀ x ∈ inbox (traceOf root t), T.parent x.1 = some root ∧
        x.2 = ⟨.broadcast, .attestation (value D T nodes a x.1)⟩) ∧
      (Complete nodes t s → ∀ c, T.parent c = some root → c ∈ senders (traceOf root t)) := by
  obtain ⟨hI, -⟩ := run_status hT hne hr
  have hnot : ¬ IsClient nodes root := by
    rintro ⟨cs, hcs⟩
    rw [hroot] at hcs
    cases hcs
  refine ⟨Network.nodup_senders hr rfl fun c => Status.link_le hT hnot (hI c), ?_,
    fun hcomp c hc => ?_⟩
  · rintro ⟨c, b⟩ hx
    have hmem : ⟨c, root, b⟩ ∈ link c root (delivered t) :=
      Network.mem_link.2 ⟨Network.recv_mem_traceOf.1 (Network.mem_inbox.1 hx), rfl, rfl⟩
    have hposted := (Network.link_conserved hr rfl c root).subset (List.mem_append_left _ hmem)
    have hp := (Network.mem_link.1 hposted).1
    rcases (hI c).posted with h | h
    · rw [h] at hp
      cases hp
    · rw [h] at hp
      obtain ⟨d, hd, he⟩ := List.mem_map.1 hp
      cases he
      exact ⟨hT.hears_parent hnot hd, rfl⟩
  · have hrecv := (complete_heard hT hne hr hcomp hroot hc _).2 rfl
    exact Network.mem_senders_iff.2 ⟨_, hrecv⟩

/-- As long as no client was asked, no node sends anything. -/
theorem silent (hT : AttestationTree D T nodes)
    (hne : ∀ n rs, nodes n = .relay rs → value D T nodes a n ≠ 0)
    {t : History ι Datagram NodeEvent Action} {s : Network.State ι NodeState Datagram}
    (hr : (D.assign a).network.machine.RunIf (AttestationRound T nodes) (Deployment.start nodes)
      t s) (hnone : ∀ n, ¬ Asked (traceOf n t)) (n : ι) : (traceOf n t).outputs = [] := by
  obtain ⟨hI, -⟩ := run_status hT hne hr
  induction n using T.children_first with
  | h n ih =>
    have hheard : ∀ c, T.parent c = some n → c ∉ senders (traceOf n t) := by
      intro c hc hmem
      obtain ⟨b, hb⟩ := Network.mem_senders_iff.1 hmem
      have hlink : ⟨c, n, b⟩ ∈ link c n (delivered t) :=
        Network.mem_link.2 ⟨Network.recv_mem_traceOf.1 hb, rfl, rfl⟩
      have hposted := (Network.link_conserved hr rfl c n).subset (List.mem_append_left _ hlink)
      rw [ih c hc] at hposted
      cases hposted
    cases hI n with
    | router _ ho _ | waiting _ _ ho _ | holding _ _ _ _ _ ho _ _ => exact ho
    | answered _ hasked _ _ => exact absurd hasked (hnone n)
    | stored hn hall _ _ _ _ _ _ | broadcast hn hall _ _ _ _ =>
      obtain ⟨c, hc⟩ := hT.relay_child n _ hn
      exact absurd (hall c hc) (hheard c hc)

/-- The round is over: the multicast is out, every relay's `p_timer` expired, nothing is in
flight. -/
structure Done (nodes : ι → NodeState) {v w : Nat}
    (t : History ι Payload (StationEvent w) (StationOutput v))
    (s : Network.State ι (Station w) Payload) : Prop where
  multicast : multicasts t.outputs ≠ []
  expired : ∀ n rs, nodes n = .relay rs → Input.ext .pExpiry ∈ (traceOf n t).map Prod.fst
  quiet : s.flight = []

section

variable {group : List ι} {v w : Nat} {s₀ : BorderRouter.State w}
  {t : History ι Payload (StationEvent w) (StationOutput v)}
  {s : Network.State ι (Station w) Payload}

omit [Fintype ι] in
theorem complete_of_done (hg : group.Nodup) (hgroup : ∀ n, n ∈ group ↔ IsClient nodes n)
    (hr : ((D.assign a).testbed v group w).machine.RunIf
      (OneMulticast attestation (AttestationRound T nodes)) (testbedStart nodes s₀) t s)
    (hdone : Done nodes t s) {s' : Network.State ι NodeState Datagram}
    (hflight : s'.flight.Perm ((erasure v w).state s).flight) :
    Complete nodes ((erasure v w).trace t) s' := by
  refine ⟨fun n hn => ?_, fun n rs hn => ?_, ?_⟩
  · exact Deployment.group_asked hg hr hdone.multicast hdone.quiet ((hgroup n).2 hn)
  · obtain ⟨⟨inp, out⟩, hx, hinp⟩ := List.mem_map.1 (hdone.expired n rs hn)
    simp only at hinp
    subst hinp
    rw [Erasure.traceOf_trace]
    exact List.mem_map.2 ⟨(.ext .pExpiry, out.filterMap (erasure v w).output),
      List.mem_filterMap.2 ⟨_, hx, rfl⟩, rfl⟩
  · rw [Erasure.state, hdone.quiet] at hflight
    exact hflight.eq_nil

/-- The children heard, each once and each with the aggregate of its subtree. -/
theorem heard_children (hT : AttestationTree D T nodes)
    (hne : ∀ n rs, nodes n = .relay rs → value D T nodes a n ≠ 0) (hg : group.Nodup)
    (hgroup : ∀ n, n ∈ group ↔ IsClient nodes n)
    (hr : ((D.assign a).testbed v group w).machine.RunIf
      (OneMulticast attestation (AttestationRound T nodes)) (testbedStart nodes s₀) t s)
    (hroot : nodes root = .router) : ∃ heard : List ι, heard.Nodup ∧
      (∀ c ∈ heard, T.parent c = some root) ∧
      inbox (traceOf root ((erasure v w).trace t)) = (heard.map fun c =>
        (c, ⟨.broadcast, .attestation (value D T nodes a c)⟩)) ∧
      (Done nodes t s → ∀ c, T.parent c = some root → c ∈ heard) := by
  obtain ⟨s', hr', -, hflight⟩ := Deployment.erased_run hg (fun n hn => (hgroup n).1 hn)
    (roundCondition T nodes) hr
  obtain ⟨hnodup, hgood, hall⟩ := router_inbox hT hne hr' hroot
  refine ⟨senders (traceOf root ((erasure v w).trace t)), hnodup, fun c hc => ?_, ?_,
    fun hdone => hall (complete_of_done hg hgroup hr hdone hflight)⟩
  · rw [Network.senders_eq] at hc
    obtain ⟨x, hx, rfl⟩ := List.mem_map.1 hc
    exact (hgood x hx).1
  · have hself : ∀ x ∈ inbox (traceOf root ((erasure v w).trace t)),
        (x.1, (⟨.broadcast, .attestation (value D T nodes a x.1)⟩ : Datagram)) = x :=
      fun x hx => Prod.ext rfl (hgood x hx).2.symm
    rw [Network.senders_eq, List.map_map]
    exact ((List.map_congr_left hself).trans (List.map_id _)).symm

/-- A round does not fault. -/
theorem progress (hT : AttestationTree D T nodes)
    (hne : ∀ n rs, nodes n = .relay rs → value D T nodes a n ≠ 0) (hg : group.Nodup)
    (hgroup : ∀ n, n ∈ group ↔ IsClient nodes n)
    (hr : ((D.assign a).testbed v group w).machine.RunIf
      (OneMulticast attestation (AttestationRound T nodes)) (testbedStart nodes s₀) t s)
    {l : Label ι Payload (StationEvent w)}
    (hc : OneMulticast attestation (AttestationRound T nodes) t s l)
    (hmem : ∀ p ∈ l.packet?, p ∈ s.flight) :
    ∃ r, ((D.assign a).testbed v group w).machine.step s l = .ok r := by
  refine Deployment.testbed_step hg (fun n hn => (hgroup n).1 hn) (roundCondition T nodes) hr
    (fun t s l hr hc hmem => ?_) hc hmem
  obtain ⟨hI, hQ⟩ := run_status hT hne hr
  obtain ⟨v, acts, hs, -⟩ := round_step hT hne hr hc hI hQ hmem
  exact Network.step_of_node hmem hs

omit [Fintype ι] in
/-- What is logged of the children heard. -/
theorem log_of_heard {val : ι → Checksum} {heard : List ι}
    {C : History ι Payload (StationEvent w) (StationOutput v) →
      Network.State ι (Station w) Payload → Label ι Payload (StationEvent w) → Prop}
    (hr : ((D.assign a).testbed v group w).machine.RunIf C (testbedStart nodes s₀) t s)
    (hroot : nodes root = .router)
    (hinbox : inbox (traceOf root ((erasure v w).trace t)) =
      heard.map fun c => (c, ⟨.broadcast, .attestation (val c)⟩)) :
    (log root t).filter isAnswer = heard.map fun c =>
      .receivedChecksum ((val c).setWidth v) (getIdFromAddr (D.addr c)) := by
  rw [Deployment.log_reports hr hroot, hinbox, List.flatMap_map, List.map_eq_flatMap]
  rfl

/-- An attestation round, over every interleaving of it with datagrams of the verifier: nothing
faults; the border router logs the aggregate of each child's subtree at most once, and of every
child once the round is over. -/
theorem attestation_logged (hT : AttestationTree D T nodes)
    (hne : ∀ n rs, nodes n = .relay rs → value D T nodes a n ≠ 0) (hg : group.Nodup)
    (hgroup : ∀ n, n ∈ group ↔ IsClient nodes n)
    (hr : ((D.assign a).testbed v group w).machine.RunIf
      (OneMulticast attestation (AttestationRound T nodes)) (testbedStart nodes s₀) t s) :
    (∀ l, OneMulticast attestation (AttestationRound T nodes) t s l →
      (∀ p ∈ l.packet?, p ∈ s.flight) →
      ∃ r, ((D.assign a).testbed v group w).machine.step s l = .ok r) ∧
    ∀ root, nodes root = .router → ∃ heard : List ι, heard.Nodup ∧
      (∀ c ∈ heard, T.parent c = some root) ∧
      (log root t).filter isAnswer = (heard.map fun c =>
        .receivedChecksum ((value D T nodes a c).setWidth v) (getIdFromAddr (D.addr c))) ∧
      (Done nodes t s → ∀ c, T.parent c = some root → c ∈ heard) := by
  refine ⟨fun l hc hmem => progress hT hne hg hgroup hr hc hmem, fun root hroot => ?_⟩
  obtain ⟨heard, hnodup, hchild, hinbox, hdone⟩ := heard_children hT hne hg hgroup hr hroot
  exact ⟨heard, hnodup, hchild, log_of_heard hr hroot hinbox, hdone⟩

/-- The children heard are counted from 1 on: before the multicast no response comes in, and after
it no request. -/
theorem counts_of_heard (hT : AttestationTree D T nodes)
    (hne : ∀ n rs, nodes n = .relay rs → value D T nodes a n ≠ 0) (hg : group.Nodup)
    (hgroup : ∀ n, n ∈ group ↔ IsClient nodes n)
    (hr : ((D.assign a).testbed v group w).machine.RunIf
      (SoleRequest attestation (AttestationRound T nodes)) (testbedStart nodes s₀) t s)
    (hroot : nodes root = .router)
    (hown : (log root t).filterMap BorderRouter.multicast? ≠ []) {val : ι → Checksum}
    {heard : List ι} (hinbox : inbox (traceOf root ((erasure v w).trace t)) =
      heard.map fun c => (c, ⟨.broadcast, .attestation (val c)⟩)) :
    ∃ b, s.node root = .router b ∧ b.cnt = heard.length ∧
      (log root t).filterMap BorderRouter.received? = List.range' 1 heard.length := by
  obtain ⟨b, hb, hrun, hlog⟩ := Deployment.router_run (Deployment.oneMulticast_of_sole hr) hroot
  obtain ⟨-, hrelayed, hcounts, hcnt⟩ := BorderRouter.answers_eq hrun
  obtain ⟨pre, post, hsplit, hpre, hpost⟩ := Deployment.events_split hr (n := root)
    fun t s hr hnone => by
      -- before the multicast no client was asked, and so nothing was sent
      obtain ⟨s', hr', -, -⟩ := Deployment.erased_run hg (fun n hn => (hgroup n).1 hn)
        (roundCondition T nodes) hr
      have hunasked : ∀ n, ¬ Asked (traceOf n ((erasure v w).trace t)) := by
        intro n
        have hperm := Deployment.requests_conserved hg hr n
        rw [hnone, ite_self] at hperm
        rw [Deployment.asked_iff, not_not]
        exact (List.append_eq_nil_iff.1 hperm.eq_nil).1
      rw [List.eq_nil_iff_forall_not_mem]
      rintro ⟨c, body⟩ hx
      have hlink : ⟨c, root, body⟩ ∈ link c root (delivered ((erasure v w).trace t)) :=
        Network.mem_link.2 ⟨Network.recv_mem_traceOf.1 (Network.mem_inbox.1 hx), rfl, rfl⟩
      have hposted := (Network.link_conserved hr' rfl c root).subset
        (List.mem_append_left _ hlink)
      rw [silent hT hne hr' hunasked c] at hposted
      cases hposted
  -- the responses are those of the children heard
  have hresponses := Deployment.responses_routerTrace (D := D.assign a) (traceOf root t)
  rw [← Erasure.traceOf_trace, hinbox, hsplit, List.filterMap_append,
    List.filterMap_eq_nil_iff.2 hpre, List.nil_append, List.map_map] at hresponses
  have hlen : post.length = heard.length := by
    have hall : (post.filterMap BorderRouter.response?).length = post.length := by
      rw [List.length_filterMap_eq_countP, List.countP_eq_length]
      exact hpost
    rw [← hall, hresponses, List.length_map]
  have hpost' : ∀ e ∈ post, ∃ sender checksum,
      BorderRouter.response? e = some (sender, .attestation checksum) := by
    intro e he
    obtain ⟨r, hr⟩ := Option.isSome_iff_exists.1 (hpost e he)
    have hmem : r ∈ post.filterMap BorderRouter.response? := List.mem_filterMap.2 ⟨e, he, hr⟩
    rw [hresponses] at hmem
    obtain ⟨c, -, rfl⟩ := List.mem_map.1 hmem
    exact ⟨_, _, hr⟩
  have hpre' : pre ≠ [] := by
    rintro rfl
    rw [hlog, hrelayed, hsplit, List.nil_append] at hown
    refine hown (List.flatMap_eq_nil_iff.2 fun e he => ?_)
    obtain ⟨r, hr⟩ := Option.isSome_iff_exists.1 (hpost e he)
    cases e with
    | request rpkt clockTime => cases hr
    | response sender resp => rfl
  obtain ⟨hrange, htally⟩ := BorderRouter.counts_round s₀.cnt hpre' hpre hpost'
  refine ⟨b, hb, ?_, ?_⟩
  · rw [hcnt, hsplit, htally, hlen]
  · rw [hlog, hcounts, hsplit, hrange, hlen]

/-- The children heard are counted from 1 on, if the verifier sends nothing after its request. -/
theorem attestation_counted (hT : AttestationTree D T nodes)
    (hne : ∀ n rs, nodes n = .relay rs → value D T nodes a n ≠ 0) (hg : group.Nodup)
    (hgroup : ∀ n, n ∈ group ↔ IsClient nodes n)
    (hr : ((D.assign a).testbed v group w).machine.RunIf
      (SoleRequest attestation (AttestationRound T nodes)) (testbedStart nodes s₀) t s)
    (hroot : nodes root = .router)
    (hown : (log root t).filterMap BorderRouter.multicast? ≠ []) :
    ∃ k b, s.node root = .router b ∧ b.cnt = k ∧
      (log root t).filterMap BorderRouter.received? = List.range' 1 k ∧
      k ≤ (T.children root).card ∧ (Done nodes t s → k = (T.children root).card) := by
  obtain ⟨heard, hnodup, hchild, hinbox, hdone⟩ :=
    heard_children hT hne hg hgroup (Deployment.oneMulticast_of_sole hr) hroot
  obtain ⟨b, hb, hcnt, hcounts⟩ := counts_of_heard hT hne hg hgroup hr hroot hown hinbox
  have hsub : heard.toFinset ⊆ T.children root := fun c hc =>
    Tree.mem_children.2 (hchild c (List.mem_toFinset.1 hc))
  have hcard := List.toFinset_card_of_nodup hnodup
  refine ⟨heard.length, b, hb, hcnt, hcounts, ?_, fun hd => ?_⟩
  · rw [← hcard]
    exact Finset.card_le_card hsub
  · rw [← hcard]
    congr 1
    refine hsub.antisymm fun c hc => ?_
    exact List.mem_toFinset.2 (hdone hd c (Tree.mem_children.1 hc))

omit [Fintype ι] in
/-- The value logged of a child, if no other child has its id. -/
theorem mem_log {t : History ι Payload (StationEvent w) (StationOutput v)} {heard : List ι}
    {x : ι → BitVec v} (hlog : (log root t).filter isAnswer = (heard.map fun c =>
      .receivedChecksum (x c) (getIdFromAddr (D.addr c))))
    (hid : ∀ d ∈ heard, ∀ c ∈ heard, getIdFromAddr (D.addr d) = getIdFromAddr (D.addr c) → d = c)
    {c : ι} (hc : c ∈ heard) (y : BitVec v) :
    .receivedChecksum y (getIdFromAddr (D.addr c)) ∈ log root t ↔ y = x c := by
  have hmem : .receivedChecksum y (getIdFromAddr (D.addr c)) ∈ log root t ↔
      .receivedChecksum y (getIdFromAddr (D.addr c)) ∈ (log root t).filter isAnswer := by
    rw [List.mem_filter]
    exact (and_iff_left rfl).symm
  rw [hmem, hlog, List.mem_map]
  constructor
  · rintro ⟨d, hd, he⟩
    obtain ⟨rfl, hids⟩ := BorderRouter.Output.receivedChecksum.inj he
    rw [hid d hd c hc hids]
  · rintro rfl
    exact ⟨c, hc, rfl⟩

/-- With one client changed, an aggregate changes in the low `v` bits if the client is below and
its own checksum does. -/
theorem value_low_ne_iff {a' : ι → Checksum} {m c : ι} (v : Nat) (hm : IsClient nodes m)
    (hsame : ∀ n, n ≠ m → a n = a' n) :
    (value D T nodes a c).setWidth v ≠ (value D T nodes a' c).setWidth v ↔
      m ∈ T.subtree c ∧ (a m).setWidth v ≠ (a' m).setWidth v := by
  obtain ⟨cs, hcs⟩ := hm
  have hterm : ∀ x ∈ (T.subtree c).erase m, term D nodes a x = term D nodes a' x := by
    intro x hx
    simp only [term, hsame x (Finset.ne_of_mem_erase hx)]
  by_cases hmem : m ∈ T.subtree c
  · have hsplit : ∀ b : ι → Checksum, value D T nodes b c =
        b m ^^^ xorOver ((T.subtree c).erase m) (term D nodes b) := by
      intro b
      have hb : term D nodes b m = b m := by simp only [term, hcs]
      rw [value, ← Finset.insert_erase hmem, xorOver_insert (Finset.notMem_erase m _), hb,
        Finset.erase_insert (Finset.notMem_erase m _)]
    rw [hsplit a, hsplit a', xorOver_congr hterm, BitVec.setWidth_xor, BitVec.setWidth_xor,
      and_iff_right hmem]
    refine not_congr ⟨fun h => ?_, fun h => by rw [h]⟩
    rw [BitVec.xor_comm, BitVec.xor_comm ((a' m).setWidth v)] at h
    exact xor_left_cancel h
  · rw [Finset.erase_eq_of_notMem hmem] at hterm
    have heq : value D T nodes a c = value D T nodes a' c := xorOver_congr hterm
    rw [heq]
    exact iff_of_false (fun h => h rfl) fun h => hmem h.1

/-- Two rounds, over any interleavings, in which one client has another checksum: the log shows one
value for each child of the border router, and they differ at the child above the client, if the
client's checksum differs in the bits the log shows. -/
theorem change_logged_iff (hT : AttestationTree D T nodes) {a' : ι → Checksum}
    (hne : ∀ n rs, nodes n = .relay rs → value D T nodes a n ≠ 0)
    (hne' : ∀ n rs, nodes n = .relay rs → value D T nodes a' n ≠ 0) (hg : group.Nodup)
    (hgroup : ∀ n, n ∈ group ↔ IsClient nodes n) {m : ι} (hm : IsClient nodes m)
    (hsame : ∀ n, n ≠ m → a n = a' n)
    {t' : History ι Payload (StationEvent w) (StationOutput v)}
    {s' : Network.State ι (Station w) Payload}
    (hr : ((D.assign a).testbed v group w).machine.RunIf
      (OneMulticast attestation (AttestationRound T nodes)) (testbedStart nodes s₀) t s)
    (hr' : ((D.assign a').testbed v group w).machine.RunIf
      (OneMulticast attestation (AttestationRound T nodes)) (testbedStart nodes s₀) t' s')
    (hdone : Done nodes t s) (hdone' : Done nodes t' s') (hroot : nodes root = .router)
    (hid : ∀ c d, T.parent c = some root → T.parent d = some root →
      getIdFromAddr (D.addr c) = getIdFromAddr (D.addr d) → c = d) :
    ∀ c, T.parent c = some root → ∃ x x' : BitVec v,
      (∀ y, .receivedChecksum y (getIdFromAddr (D.addr c)) ∈ log root t ↔ y = x) ∧
      (∀ y, .receivedChecksum y (getIdFromAddr (D.addr c)) ∈ log root t' ↔ y = x') ∧
      (x ≠ x' ↔ m ∈ T.subtree c ∧ (a m).setWidth v ≠ (a' m).setWidth v) := by
  intro c hc
  obtain ⟨heard, -, hchild, hinbox, hall⟩ := heard_children hT hne hg hgroup hr hroot
  obtain ⟨heard', -, hchild', hinbox', hall'⟩ := heard_children hT hne' hg hgroup hr' hroot
  have hlog := log_of_heard hr hroot hinbox
  have hlog' := log_of_heard hr' hroot hinbox'
  refine ⟨_, _, mem_log hlog (fun d hd e he => hid d e (hchild d hd) (hchild e he))
    (hall hdone c hc), mem_log hlog' (fun d hd e he => hid d e (hchild' d hd) (hchild' e he))
    (hall' hdone' c hc), value_low_ne_iff v hm hsame⟩

end

/-! ### The line -/

open TopologyTree (line lineTree lineNodes lineRouter lineRelay lineClient line_group)

/-- The verifier's datagram, the multicast, and the round of a client with checksum `x` below a
relay with aggregate `y`. -/
def chainRound (x y : Checksum) : List (Label (Fin 3) Payload (StationEvent 32)) :=
  [.ext lineRouter (.verifier ⟨attestation, 1⟩ 0),
    .deliver ⟨lineRouter, lineClient, .multicast ⟨attestation, 1234⟩⟩,
    .deliver ⟨lineClient, lineRelay, .datagram ⟨.broadcast, .attestation x⟩⟩,
    .ext lineRelay .periodicExpiry, .ext lineRelay .pExpiry,
    .deliver ⟨lineRelay, lineRouter, .datagram ⟨.broadcast,
      .attestation y⟩⟩]

def lineRound (x : Checksum) : List (Label (Fin 3) Payload (StationEvent 32)) :=
  chainRound x (ownChecksum 1 ^^^ x)

def lineStart : Network.State (Fin 3) (Station 32) Payload :=
  testbedStart lineNodes ⟨0, 0, 0, 0, 7⟩

def lineTestbed (x : Checksum) :
    Network (Fin 3) (Station 32) Payload (StationEvent 32) (StationOutput 32) Fault :=
  (line.assign (lineChecksums x)).testbed 32 [lineClient] 32

/-- Any three nodes in a line can do this round. -/
theorem chainRound_run {E : Deployment (Fin 3)} {nodes : Fin 3 → NodeState}
    (hrelay : ∀ n rs, nodes n = .relay rs → n = lineRelay)
    (s₀ : Network.State (Fin 3) (Station 32) Payload) {x y : Checksum}
    {s : Network.State (Fin 3) (Station 32) Payload}
    {t : History (Fin 3) Payload (StationEvent 32) (StationOutput 32)}
    (h : (E.testbed 32 [lineClient] 32).machine.exec s₀ (chainRound x y) = .ok (t, s))
    (hquiet : s.flight = []) (hout : multicasts t.outputs ≠ []) :
    (E.testbed 32 [lineClient] 32).machine.RunIf
      (SoleRequest attestation (AttestationRound lineTree nodes)) s₀ t s ∧ Done nodes t s := by
  obtain ⟨_, _, _, h₁, e₁, rfl⟩ := Machine.exec_cons.1 h
  obtain ⟨_, _, _, h₂, e₂, rfl⟩ := Machine.exec_cons.1 e₁
  obtain ⟨_, _, _, h₃, e₃, rfl⟩ := Machine.exec_cons.1 e₂
  obtain ⟨_, _, _, h₄, e₄, rfl⟩ := Machine.exec_cons.1 e₃
  obtain ⟨_, _, _, h₅, e₅, rfl⟩ := Machine.exec_cons.1 e₄
  obtain ⟨_, _, _, h₆, e₆, rfl⟩ := Machine.exec_cons.1 e₅
  cases e₆
  refine ⟨.next (t := [_, _, _, _, _]) (.next (t := [_, _, _, _]) (.next (t := [_, _, _])
    (.next (t := [_, _]) (.next (t := [_]) (.next (t := [])
      .start ⟨fun _ => ⟨rfl, rfl⟩, fun _ _ _ _ => rfl⟩ h₁) ⟨trivial, by simp⟩ h₂)
      ⟨trivial, by simp⟩ h₃) ⟨?_, by simp⟩ h₄) ⟨?_, by simp⟩ h₅) ⟨trivial, by simp⟩ h₆,
    hout, fun n rs hn => ?_, hquiet⟩
  · intro c hc
    rcases line_node c with rfl | rfl | rfl
    · cases hc
    · cases hc
    · exact List.mem_cons_self ..
  · exact List.mem_cons_of_mem _ (List.mem_cons_self ..)
  · rw [hrelay n rs hn]
    exact List.mem_cons_of_mem _ (List.mem_cons_of_mem _ (List.mem_cons_self ..))

theorem line_relay {n : Fin 3} {rs : Relay.State} (h : lineNodes n = .relay rs) :
    n = lineRelay := by
  rcases line_node n with rfl | rfl | rfl
  · cases h
  · rfl
  · cases h

theorem lineRound_run (s₀ : Network.State (Fin 3) (Station 32) Payload) {x : Checksum}
    {s : Network.State (Fin 3) (Station 32) Payload}
    {t : History (Fin 3) Payload (StationEvent 32) (StationOutput 32)}
    (h : (lineTestbed x).machine.exec s₀ (lineRound x) = .ok (t, s))
    (hquiet : s.flight = []) (hout : multicasts t.outputs ≠ []) :
    (lineTestbed x).machine.RunIf (SoleRequest attestation (AttestationRound lineTree lineNodes))
      s₀ t s ∧ Done lineNodes t s :=
  chainRound_run (fun _ _ => line_relay) s₀ h hquiet hout

/-- The log of the line shows the aggregate of the relay and its client. -/
theorem attestation_logged_line : ∃ t s, (lineTestbed 5).machine.Run lineStart t s ∧
    ∃ heard : List (Fin 3), lineRelay ∈ heard ∧ (log lineRouter t).filter isAnswer =
      heard.map fun c => .receivedChecksum
        ((value line lineTree lineNodes (lineChecksums 5) c).setWidth 32)
        (getIdFromAddr (line.addr c)) := by
  obtain ⟨hr, hdone⟩ := lineRound_run lineStart (x := 5) rfl rfl (List.cons_ne_nil _ _)
  obtain ⟨heard, -, -, hlog, hall⟩ := (attestation_logged line_attestationTree
    (fun n rs hn => (line_value (by decide) hn).2) (by simp) line_group
    (Deployment.oneMulticast_of_sole hr)).2 lineRouter rfl
  exact ⟨_, _, hr.run, heard, hall hdone lineRelay rfl, hlog⟩

/-- One child is counted, whatever was counted before. -/
theorem attestation_counted_line : ∃ t s b, (lineTestbed 5).machine.Run lineStart t s ∧
    s.node lineRouter = .router b ∧ b.cnt = 1 ∧
    (log lineRouter t).filterMap BorderRouter.received? = [1] := by
  obtain ⟨hr, hdone⟩ := lineRound_run lineStart (x := 5) rfl rfl (List.cons_ne_nil _ _)
  obtain ⟨k, b, hb, hcnt, hcounts, -, hk⟩ := attestation_counted line_attestationTree
    (fun n rs hn => (line_value (by decide) hn).2) (by simp) line_group hr
    (rfl : lineNodes lineRouter = .router) (List.cons_ne_nil _ _)
  have hone : k = 1 := hk hdone
  subst hone
  exact ⟨_, _, b, hr.run, hb, hcnt, hcounts⟩

/-- 5 and 9 show as two values; 5 and 5 + 2^32 as one. -/
theorem change_logged_line :
    (∃ t t' : History (Fin 3) Payload (StationEvent 32) (StationOutput 32),
      ∃ x x' : BitVec 32, .receivedChecksum x 1 ∈ log lineRouter t ∧
        .receivedChecksum x' 1 ∈ log lineRouter t' ∧ x ≠ x') ∧
    ∃ t t' : History (Fin 3) Payload (StationEvent 32) (StationOutput 32),
      ∃ x : BitVec 32, .receivedChecksum x 1 ∈ log lineRouter t ∧
        .receivedChecksum x 1 ∈ log lineRouter t' := by
  obtain ⟨hr, hdone⟩ := lineRound_run lineStart (x := 5) rfl rfl (List.cons_ne_nil _ _)
  have hne : ∀ n rs, lineNodes n = .relay rs →
      value line lineTree lineNodes (lineChecksums 5) n ≠ 0 :=
    fun n rs hn => (line_value (by decide) hn).2
  have hid : ∀ c d, lineTree.parent c = some lineRouter → lineTree.parent d = some lineRouter →
      getIdFromAddr (line.addr c) = getIdFromAddr (line.addr d) → c = d := by decide
  have hmem : lineClient ∈ lineTree.subtree lineRelay :=
    Tree.subtree_subset rfl (Tree.self_mem_subtree lineClient)
  have hroot : lineNodes lineRouter = .router := rfl
  constructor
  · obtain ⟨hr', hdone'⟩ := lineRound_run lineStart (x := 9) rfl rfl (List.cons_ne_nil _ _)
    obtain ⟨x, x', hx, hx', hdiff⟩ := change_logged_iff line_attestationTree hne
      (fun n rs hn => (line_value (by decide) hn).2) (by simp) line_group (m := lineClient)
      ⟨_, rfl⟩ (by decide) (Deployment.oneMulticast_of_sole hr)
      (Deployment.oneMulticast_of_sole hr') hdone hdone' hroot hid lineRelay rfl
    exact ⟨_, _, x, x', (hx _).2 rfl, (hx' _).2 rfl, hdiff.2 ⟨hmem, by decide⟩⟩
  · obtain ⟨hr', hdone'⟩ :=
      lineRound_run lineStart (x := 0x100000005) rfl rfl (List.cons_ne_nil _ _)
    obtain ⟨x, x', hx, hx', hdiff⟩ := change_logged_iff line_attestationTree hne
      (fun n rs hn => (line_value (by decide) hn).2) (by simp) line_group (m := lineClient)
      ⟨_, rfl⟩ (by decide) (Deployment.oneMulticast_of_sole hr)
      (Deployment.oneMulticast_of_sole hr') hdone hdone' hroot hid lineRelay rfl
    have hsame : x = x' := by
      by_contra h
      exact (hdiff.1 h).2 (by decide)
    exact ⟨_, _, x, (hx _).2 rfl, (hx' _).2 hsame⟩

end AttestationTree
end Swarna
