import Swarna.Deployment
import Swarna.RelayHistory
import Swarna.Tree

/-!
# Swarna.TopologyTree

The topology round on a tree: what each relay's response says about its subtree.

* `TopologyTree`: a deployment whose RPL tables are those of a tree, with relays small enough for
  one path and child tables built by `init_child_list`.
* `collect_step`: what a relay holds after any of its children, in any order, describes the
  subtrees of those heard; the last child makes it respond.
* `topology_round`: over every interleaving, no node faults, every relay sends at most one
  response, the response describes its subtree, and once nothing is in flight it has been sent.
-/

namespace Swarna

open Network (traceOf senders)

variable {ι : Type}

/-- A list without repetitions whose only member is `p`. -/
theorem eq_singleton {l : List ι} (hn : l.Nodup) {p : ι} (h : ∀ m, m ∈ l ↔ m = p) : l = [p] := by
  have hperm : l.Perm [p] := (List.perm_ext_iff_of_nodup hn (by simp)).2 (by simpa using h)
  exact List.perm_singleton.1 hperm

theorem nodup_snoc {α : Type} {l : List α} {x : α} (h : l.Nodup) (hx : x ∉ l) :
    (l ++ [x]).Nodup := by
  rw [← List.concat_eq_append]
  exact List.Nodup.concat hx h

/-- A list of node ids that lists a set of nodes, each once. -/
def Enumerates (D : Deployment ι) (l : List NodeId) (S : Finset ι) : Prop :=
  l.Nodup ∧ ∀ x, x ∈ l ↔ ∃ m ∈ S, (D.node m).id = x

theorem Enumerates.length {D : Deployment ι} {l : List NodeId} {S : Finset ι}
    (hid : Function.Injective fun n => (D.node n).id) (h : Enumerates D l S) :
    l.length = S.card := by
  have himage : l.toFinset = S.image fun n => (D.node n).id := by
    ext x
    simp [h.2]
  rw [← List.toFinset_card_of_nodup h.1, himage, Finset.card_image_of_injective _ hid]

theorem Enumerates.append [DecidableEq ι] {D : Deployment ι} {l l' : List NodeId} {S S' : Finset ι}
    (hid : Function.Injective fun n => (D.node n).id) (h : Enumerates D l S)
    (h' : Enumerates D l' S') (hd : Disjoint S S') : Enumerates D (l ++ l') (S ∪ S') := by
  refine ⟨List.nodup_append.2 ⟨h.1, h'.1, ?_⟩, fun x => ?_⟩
  · rintro x hx y hy rfl
    obtain ⟨m, hm, rfl⟩ := (h.2 x).1 hx
    obtain ⟨m', hm', he⟩ := (h'.2 _).1 hy
    exact Finset.disjoint_left.1 hd hm (hid he ▸ hm')
  · rw [List.mem_append, h.2, h'.2]
    constructor
    · rintro (⟨m, hm, he⟩ | ⟨m, hm, he⟩)
      · exact ⟨m, Finset.mem_union_left _ hm, he⟩
      · exact ⟨m, Finset.mem_union_right _ hm, he⟩
    · rintro ⟨m, hm, he⟩
      rcases Finset.mem_union.1 hm with hm | hm
      · exact .inl ⟨m, hm, he⟩
      · exact .inr ⟨m, hm, he⟩

/-- A round of deployment `D` from the states `nodes`, on the tree `T`; `links n` are the RPL
neighbours of `n`. -/
structure TopologyTree (D : Deployment ι) (T : Tree ι) (links : ι → List ι)
    (nodes : ι → NodeState) [Fintype ι] [DecidableEq ι] : Prop where
  honest : ∀ n seed, D.attest n seed = attestMemory (D.node n).id seed
  id_addr : ∀ n, (D.node n).id = getIdFromAddr (D.addr n)
  id_inj : Function.Injective fun n => (D.node n).id
  table : ∀ n, (D.node n).nbrs = (links n).map fun m => ⟨D.addr m, (D.node m).rank⟩
  links_nodup : ∀ n, (links n).Nodup
  /-- The neighbour of smaller rank is the parent. -/
  lower : ∀ n m, (m ∈ links n ∧ (D.node m).rank < (D.node n).rank) ↔ T.parent n = some m
  /-- The neighbours of greater rank are the children. -/
  higher : ∀ n m, (m ∈ links n ∧ (D.node n).rank < (D.node m).rank) ↔ T.parent m = some n
  router : ∀ n, nodes n = .router ↔ T.parent n = none
  client_leaf : ∀ n s, nodes n = .client s → ∀ c, T.parent c ≠ some n
  client_links : ∀ n s, nodes n = .client s → ∀ m ∈ links n, T.parent n = some m
  relay_child : ∀ n s, nodes n = .relay s → ∃ c, T.parent c = some n
  relay_small : ∀ n s, nodes n = .relay s → ((T.subtree n).erase n).card ≤ maxPathNodes - 3
  relay_children : ∀ n s, nodes n = .relay s →
    ChildList.initChildList (D.node n) = .ok s.childList
  relay_start : ∀ n s, nodes n = .relay s → s.curLoc = 0 ∧ s.pathsLoc = 0 ∧ s.maxLeafRank = 0

/-- What a response should say about the subtree of `n`. -/
structure Describes [Fintype ι] [DecidableEq ι] (D : Deployment ι) (T : Tree ι)
    (nodes : ι → NodeState) (n : ι) (o : TopologyInfo) : Prop where
  path : Enumerates D o.ids (T.subtree n)
  last : o.ids.getLast? = some (D.node n).id
  pathindex : o.pathindex.toNat = (T.subtree n).card
  checksum : o.checksum = xorOver (T.subtree n) D.own
  rank_le : ∀ m ∈ T.subtree n, IsClient nodes m → (D.node m).rank ≤ o.maxLeafRank
  rank_eq : ∃ m ∈ T.subtree n, IsClient nodes m ∧ (D.node m).rank = o.maxLeafRank

namespace TopologyTree

variable [Fintype ι] [DecidableEq ι] {D : Deployment ι} {T : Tree ι} {links : ι → List ι}
  {nodes : ι → NodeState}

theorem parent_of_ne_router (hT : TopologyTree D T links nodes) {n : ι} (hn : nodes n ≠ .router) :
    ∃ p, T.parent n = some p :=
  Option.ne_none_iff_exists'.1 fun he => hn ((hT.router n).2 he)

/-- The relay's child table lists the ids of its children. -/
theorem childList_ids (hT : TopologyTree D T links nodes) {n : ι} {s : Relay.State}
    (hn : nodes n = .relay s) :
    s.childList.ids = ((links n).filter fun m => (D.node n).rank < (D.node m).rank).map
      fun m => (D.node m).id := by
  rw [ChildList.initChildList_ids (hT.relay_children n s hn), hT.table, List.filter_map,
    List.map_map]
  refine List.map_congr_left fun m _ => ?_
  exact (hT.id_addr m).symm

theorem isChild (hT : TopologyTree D T links nodes) {n c : ι} {s : Relay.State}
    (hn : nodes n = .relay s) (hc : T.parent c = some n) :
    getIdFromAddr (D.addr c) ∈ s.childList.ids := by
  obtain ⟨hmem, hlt⟩ := (hT.higher n c).2 hc
  rw [hT.childList_ids hn, ← hT.id_addr]
  exact List.mem_map_of_mem (List.mem_filter.2 ⟨hmem, by simpa using hlt⟩)

theorem childCount (hT : TopologyTree D T links nodes) {n : ι} {s : Relay.State}
    (hn : nodes n = .relay s) : s.childList.getChildCount = (T.children n).card := by
  have hset : ((links n).filter fun m => (D.node n).rank < (D.node m).rank).toFinset =
      T.children n := by
    ext c
    simp only [List.mem_toFinset, List.mem_filter, decide_eq_true_eq, Tree.mem_children]
    exact hT.higher n c
  rw [← ChildList.ids_length, hT.childList_ids hn, List.length_map, ← hset,
    List.toFinset_card_of_nodup ((hT.links_nodup n).filter _)]

/-- Both relays and clients send to their parent alone. -/
theorem parents_eq (hT : TopologyTree D T links nodes) {n p : ι} (hp : T.parent n = some p)
    {isClient : Bool} (hc : isClient = true → IsClient nodes n) :
    parents (D.node n) isClient = [D.addr p] := by
  have hlow := (hT.lower n p).2 hp
  have hlist : parents (D.node n) isClient = ((links n).filter fun m =>
      rplNeighborIsParent (D.node n) ⟨D.addr m, (D.node m).rank⟩ isClient).map D.addr := by
    rw [parents, hT.table, List.filter_map, List.map_map]
    rfl
  have hone : (links n).filter (fun m =>
      rplNeighborIsParent (D.node n) ⟨D.addr m, (D.node m).rank⟩ isClient) = [p] := by
    refine eq_singleton ((hT.links_nodup n).filter _) fun m => ?_
    rw [List.mem_filter]
    cases isClient with
    | true =>
      obtain ⟨s, hs⟩ := hc rfl
      simp only [rplNeighborIsParent, if_true, and_true]
      constructor
      · intro hm
        have := hT.client_links n s hs m hm
        rw [hp] at this
        exact (Option.some.inj this).symm
      · rintro rfl
        exact hlow.1
    | false =>
      simp only [rplNeighborIsParent, Bool.false_eq_true, if_false, decide_eq_true_eq]
      rw [hT.lower n m, hp]
      constructor
      · intro h
        exact (Option.some.inj h).symm
      · rintro rfl
        rfl
  rw [hlist, hone]
  rfl

/-! ## A relay collecting its children's packets -/

/-- What relay `r` holds after the children `hs` were heard: the description of their subtrees. -/
structure Collecting (D : Deployment ι) (T : Tree ι) (nodes : ι → NodeState) (r : ι)
    (hs : List ι) (s : Relay.State) : Prop where
  bounded : Relay.Bounded s
  curLoc : s.curLoc = hs.length
  isChild : ∀ c, T.parent c = some r → s.childList.isChild (getIdFromAddr (D.addr c)) = true
  childCount : s.childList.getChildCount = (T.children r).card
  sums : xorAll s.checksums = xorAll (hs.map fun c => xorOver (T.subtree c) D.own)
  ids : Enumerates D s.ids (hs.toFinset.biUnion T.subtree)
  rank_le : ∀ m ∈ hs.toFinset.biUnion T.subtree, IsClient nodes m →
    (D.node m).rank ≤ s.maxLeafRank
  rank_eq : (hs = [] ∧ s.maxLeafRank = 0) ∨ ∃ m ∈ hs.toFinset.biUnion T.subtree,
    IsClient nodes m ∧ (D.node m).rank = s.maxLeafRank

theorem collecting_start (hT : TopologyTree D T links nodes) {r : ι} {s : Relay.State}
    (hr : nodes r = .relay s) : Collecting D T nodes r [] s := by
  obtain ⟨hcur, hloc, hrank⟩ := hT.relay_start r s hr
  refine ⟨⟨by omega, by omega⟩, hcur, fun c hc => ?_, hT.childCount hr, ?_, ?_, by simp,
    .inl ⟨rfl, hrank⟩⟩
  · exact ChildList.isChild_iff.2 (hT.isChild hr hc)
  · simp [Relay.State.checksums, hcur]
  · simp [Enumerates, Relay.State.ids, hloc]

/-- The subtrees of children heard are below the relay, and leave out those not heard. -/
theorem heard_subset {r c : ι} {hs : List ι} (hhs : ∀ d ∈ hs, T.parent d = some r)
    (hc : T.parent c = some r) (hnew : c ∉ hs) :
    Disjoint (hs.toFinset.biUnion T.subtree) (T.subtree c) ∧
      hs.toFinset.biUnion T.subtree ∪ T.subtree c ⊆ (T.subtree r).erase r := by
  constructor
  · rw [Finset.disjoint_biUnion_left]
    intro d hd
    have hd' := List.mem_toFinset.1 hd
    exact Tree.disjoint_subtree (hhs d hd') hc fun he => hnew (he ▸ hd')
  · have hbelow : ∀ d, T.parent d = some r → T.subtree d ⊆ (T.subtree r).erase r := by
      intro d hd m hm
      refine Finset.mem_erase.2 ⟨?_, Tree.subtree_subset hd hm⟩
      rintro rfl
      exact Tree.notMem_subtree hd hm
    refine Finset.union_subset ?_ (hbelow c hc)
    exact Finset.biUnion_subset.2 fun d hd => hbelow d (hhs d (List.mem_toFinset.1 hd))

theorem biUnion_snoc {hs : List ι} {c : ι} : (hs ++ [c]).toFinset.biUnion T.subtree =
    hs.toFinset.biUnion T.subtree ∪ T.subtree c := by
  ext m
  simp only [Finset.mem_biUnion, List.mem_toFinset, List.mem_append, List.mem_singleton,
    Finset.mem_union]
  constructor
  · rintro ⟨d, hd | rfl, hm⟩
    · exact .inl ⟨d, hd, hm⟩
    · exact .inr hm
  · rintro (⟨d, hd, hm⟩ | hm)
    · exact ⟨d, .inl hd, hm⟩
    · exact ⟨c, .inr rfl, hm⟩

/-- Taking the packet of one more child in. -/
theorem collecting_snoc {r c : ι} {hs : List ι} {s s₂ : Relay.State} {o : TopologyInfo}
    {cid : NodeId} {new : List NodeId}
    (hid : Function.Injective fun n => (D.node n).id) (h : Collecting D T nodes r hs s)
    (hdis : Disjoint (hs.toFinset.biUnion T.subtree) (T.subtree c)) (ho : Describes D T nodes c o)
    (hacc : Relay.Accepted s o cid new s₂) (hids : s₂.ids = s.ids ++ o.ids) :
    Collecting D T nodes r (hs ++ [c]) s₂ := by
  obtain ⟨a, p, n, hframe⟩ := hacc.frame
  have hchild : s₂.childList = (s.childList.childSetPktReceived cid).2 := by rw [hframe]
  have hrank : s₂.maxLeafRank =
      if s.maxLeafRank < o.maxLeafRank then o.maxLeafRank else s.maxLeafRank := by rw [hframe]
  have hle₁ : s.maxLeafRank ≤ s₂.maxLeafRank := by
    rw [hrank]
    split
    · exact BitVec.le_of_lt ‹_›
    · exact BitVec.le_refl _
  have hle₂ : o.maxLeafRank ≤ s₂.maxLeafRank := by
    rw [hrank]
    split
    · exact BitVec.le_refl _
    · exact BitVec.not_lt.1 ‹_›
  refine ⟨hacc.bounded, ?_, fun d hd => ?_, ?_, ?_, ?_, ?_, ?_⟩
  · rw [List.length_append, List.length_singleton, ← h.curLoc, hframe]
  · rw [hchild, ChildList.isChild_iff, ChildList.ids_childSetPktReceived]
    exact ChildList.isChild_iff.1 (h.isChild d hd)
  · rw [hchild, ChildList.getChildCount_childSetPktReceived, h.childCount]
  · rw [hacc.checksums]
    simp [h.sums, ho.checksum]
  · rw [hids, biUnion_snoc]
    exact h.ids.append hid ho.path hdis
  · rw [biUnion_snoc]
    intro m hm hcl
    rcases Finset.mem_union.1 hm with hm | hm
    · exact BitVec.le_trans (h.rank_le m hm hcl) hle₁
    · exact BitVec.le_trans (ho.rank_le m hm hcl) hle₂
  · right
    rw [biUnion_snoc, hrank]
    obtain ⟨m, hm, hcl, he⟩ := ho.rank_eq
    split
    · exact ⟨m, Finset.mem_union_right _ hm, hcl, he⟩
    · rename_i hlt
      rcases h.rank_eq with ⟨-, hz⟩ | ⟨m', hm', hcl', he'⟩
      · -- nothing was heard yet, so the packet's rank is 0 as well
        refine ⟨m, Finset.mem_union_right _ hm, hcl, ?_⟩
        rw [he, hz]
        rw [hz] at hlt
        bv_omega
      · exact ⟨m', Finset.mem_union_left _ hm', hcl', he'⟩

/-- With all children heard, the response describes the relay's subtree. -/
theorem describes_of_collecting (hT : TopologyTree D T links nodes) {r : ι} {rs : Relay.State}
    (hr : nodes r = .relay rs) {hs : List ι} {s : Relay.State} (hn : hs.Nodup)
    (hall : ∀ c, c ∈ hs ↔ T.parent c = some r) (h : Collecting D T nodes r hs s) :
    Describes D T nodes r (Relay.topologyResp (D.node r) s) := by
  have hset : hs.toFinset = T.children r := by
    ext c
    simp [hall]
  have hsub : T.subtree r = hs.toFinset.biUnion T.subtree ∪ {r} := by
    rw [hset, Tree.subtree_eq, Finset.insert_eq, Finset.union_comm]
  have hdis : Disjoint (hs.toFinset.biUnion T.subtree) {r} := by
    rw [hset, Finset.disjoint_singleton_right]
    exact Tree.notMem_biUnion_subtree r
  have hloc : s.pathsLoc ≤ maxPathNodes - 2 := by have := h.bounded.pathsLoc_le; omega
  have hids : (Relay.topologyResp (D.node r) s).ids = s.ids ++ [(D.node r).id] :=
    Relay.topologyResp_ids hloc
  have hpath : Enumerates D (Relay.topologyResp (D.node r) s).ids (T.subtree r) := by
    rw [hids, hsub]
    exact h.ids.append hT.id_inj ⟨by simp, by simp [eq_comm]⟩ hdis
  have hnot : ¬ IsClient nodes r := by
    rintro ⟨cs, hcs⟩
    rw [hr] at hcs
    cases hcs
  have hbelow : ∀ m ∈ T.subtree r, IsClient nodes m → m ∈ hs.toFinset.biUnion T.subtree := by
    intro m hm hcl
    rw [hsub] at hm
    rcases Finset.mem_union.1 hm with hm | hm
    · exact hm
    · rw [Finset.mem_singleton.1 hm] at hcl
      exact absurd hcl hnot
  refine ⟨hpath, ?_, ?_, ?_, fun m hm hcl => h.rank_le m (hbelow m hm hcl) hcl, ?_⟩
  · rw [hids]
    simp
  · rw [← hpath.length hT.id_inj]
    simp [TopologyInfo.ids]
  · rw [Tree.xorOver_subtree, ← hset, xorOver_eq hn (by simp), ← h.sums, BitVec.xor_comm]
    rfl
  · rcases h.rank_eq with ⟨hnil, -⟩ | ⟨m, hm, hcl, he⟩
    · obtain ⟨c, hc⟩ := hT.relay_child r rs hr
      rw [hnil] at hall
      exact absurd ((hall c).2 hc) (by simp)
    · exact ⟨m, by rw [hsub]; exact Finset.mem_union_left _ hm, hcl, he⟩

/-- One more child: either some are still missing, or the relay responds. -/
theorem collect_step (hT : TopologyTree D T links nodes) {r c : ι} {rs : Relay.State}
    (hr : nodes r = .relay rs) (after : TopologyInfo → TopologyInfo → TopologyInfo) {hs : List ι}
    {s : Relay.State} {o : TopologyInfo} (hn : hs.Nodup) (hhs : ∀ d ∈ hs, T.parent d = some r)
    (h : Collecting D T nodes r hs s) (hc : T.parent c = some r) (hnew : c ∉ hs)
    (ho : Describes D T nodes c o) :
    ∃ s' sent, Relay.processTopologyReq (D.node r) after s o (getIdFromAddr (D.addr c)) =
        .ok (s', sent) ∧
      ((sent = [] ∧ (hs ++ [c]).length < (T.children r).card ∧
          Collecting D T nodes r (hs ++ [c]) s') ∨
        ∃ resp, sent = [resp] ∧ (∀ d, d ∈ hs ++ [c] ↔ T.parent d = some r) ∧
          Describes D T nodes r resp) := by
  obtain ⟨hdis, hsub⟩ := heard_subset hhs hc hnew
  have hnodup := nodup_snoc hn hnew
  have hsubset : (hs ++ [c]).toFinset ⊆ T.children r := by
    intro d hd
    rcases List.mem_append.1 (List.mem_toFinset.1 hd) with hd | hd
    · exact Tree.mem_children.2 (hhs d hd)
    · rw [List.mem_singleton.1 hd]
      exact Tree.mem_children.2 hc
  have hcard : hs.length + 1 ≤ (T.children r).card := by
    have := Finset.card_le_card hsubset
    rwa [List.toFinset_card_of_nodup hnodup, List.length_append] at this
  -- the new ids are those of the child's subtree, none of which is waiting
  have hfresh : Relay.fresh s o.ids = o.ids := by
    rw [Relay.fresh, List.filter_eq_self]
    intro x hx
    have hx' : x ∉ s.paths.toList.take s.pathsLoc := fun hx' =>
      (List.nodup_append.1 (h.ids.append hT.id_inj ho.path hdis).1).2.2 x hx' x hx rfl
    simpa [Relay.isPresentPaths] using hx'
  have hfit : s.pathsLoc + o.ids.length ≤ maxPathNodes - 3 := by
    have hlen := (h.ids.append hT.id_inj ho.path hdis).length hT.id_inj
    rw [List.length_append, h.bounded.ids_length] at hlen
    have h₁ := Finset.card_le_card hsub
    have h₂ := hT.relay_small r rs hr
    omega
  have hcur : s.curLoc < maxChild := by
    have h₁ := s.childList.ids_length_le
    rw [ChildList.ids_length, h.childCount] at h₁
    rw [h.curLoc]
    omega
  obtain ⟨s₂, hacc, hids, hcase⟩ := Relay.processTopologyReq_fits (D.node r) after
    (h.isChild c hc) hcur (by rwa [hfresh])
  rw [hfresh] at hids
  have hcol := collecting_snoc hT.id_inj h hdis ho hacc hids
  rcases hcase with ⟨hcount, hrun⟩ | ⟨hcount, hrun⟩
  · have hall : ∀ d, d ∈ hs ++ [c] ↔ T.parent d = some r := by
      have heq : (hs ++ [c]).toFinset = T.children r := by
        refine Finset.eq_of_subset_of_card_le hsubset ?_
        rw [List.toFinset_card_of_nodup hnodup, List.length_append, ← h.childCount, ← hcount,
          h.curLoc]
        simp
      intro d
      rw [← Tree.mem_children, ← heq, List.mem_toFinset]
    exact ⟨_, _, hrun, .inr ⟨_, rfl, hall, describes_of_collecting hT hr hnodup hall hcol⟩⟩
  · refine ⟨_, _, hrun, .inl ⟨rfl, ?_, ?_⟩⟩
    · rw [h.curLoc, h.childCount] at hcount
      rw [List.length_append, List.length_singleton]
      omega
    exact ⟨⟨hcol.bounded.curLoc_le, hcol.bounded.pathsLoc_le⟩, hcol.curLoc, hcol.isChild,
      hcol.childCount, hcol.sums, hcol.ids, hcol.rank_le, hcol.rank_eq⟩

/-! ## The round -/

/-- Deliveries, and one topology request for each client; no timer expires. -/
def OneRequest (nodes : ι → NodeState) (t : Network.History ι Datagram NodeEvent Action)
    (_ : Network.State ι NodeState Datagram) : Network.Label ι Datagram NodeEvent → Prop
  | .deliver _ => True
  | .ext n (.request mpkt) =>
    mpkt.pktType = topology ∧ IsClient nodes n ∧ ¬ Asked (traceOf n t)
  | .ext _ .periodicExpiry => False
  | .ext _ .pExpiry => False

/-- How far a node has come, by its trace `τ` and its state `v`. -/
inductive Status (D : Deployment ι) (T : Tree ι) (nodes : ι → NodeState) (n : ι)
    (τ : NodeHistory ι) (v : NodeState) : Prop where
  | router : nodes n = .router → τ.outputs = [] → v = .router → Status D T nodes n τ v
  | waiting {cs cs' : Client.State} : nodes n = .client cs → ¬ Asked τ → τ.outputs = [] →
      v = .client cs' → Status D T nodes n τ v
  | answered {cs cs' : Client.State} {o : TopologyInfo} : nodes n = .client cs → Asked τ →
      τ.outputs = [sendToParents (D.node n) (.topology o) true] → Describes D T nodes n o →
      v = .client cs' → Status D T nodes n τ v
  | collecting {rs s : Relay.State} : nodes n = .relay rs → (senders τ).Nodup →
      (∀ d ∈ senders τ, T.parent d = some n) → (senders τ).length < (T.children n).card →
      τ.outputs = [] → v = .relay s → Collecting D T nodes n (senders τ) s →
      Status D T nodes n τ v
  | responded {rs s : Relay.State} {o : TopologyInfo} : nodes n = .relay rs →
      (∀ d, d ∈ senders τ ↔ T.parent d = some n) →
      τ.outputs = [sendToParents (D.node n) (.topology o) false] → Describes D T nodes n o →
      v = .relay s → Status D T nodes n τ v

/-- A packet on its way to the parent, describing the subtree of its sender. -/
def GoodPacket (D : Deployment ι) (T : Tree ι) (nodes : ι → NodeState)
    (p : Packet ι Datagram) : Prop :=
  T.parent p.src = some p.dst ∧
    ∃ o, p.body = ⟨.checksum, .topology o⟩ ∧ Describes D T nodes p.src o

theorem status_start (hT : TopologyTree D T links nodes) (n : ι) :
    Status D T nodes n [] (nodes n) := by
  cases hn : nodes n with
  | router => exact .router hn rfl rfl
  | client cs => exact .waiting hn (by simp [Asked]) rfl rfl
  | relay rs =>
    refine .collecting hn (by simp [senders]) (by simp [senders]) ?_ rfl rfl
      (hT.collecting_start hn)
    obtain ⟨c, hc⟩ := hT.relay_child n rs hn
    exact Finset.card_pos.2 ⟨c, Tree.mem_children.2 hc⟩

/-- The packets of a node's answer: one, to its parent. -/
theorem packets_answer (hT : TopologyTree D T links nodes) {n p : ι} (hp : T.parent n = some p)
    (o : TopologyInfo) {isClient : Bool} (hc : isClient = true → IsClient nodes n) :
    D.network.packets n (sendToParents (D.node n) (.topology o) isClient) =
      [⟨n, p, ⟨.checksum, .topology o⟩⟩] := by
  simp [Network.packets, Deployment.network, Deployment.post, sendToParents,
    hT.parents_eq hp hc, D.resolve_addr]

/-- A node has sent nothing, or one answer, which describes its subtree. -/
theorem Status.answer (hT : TopologyTree D T links nodes) {n : ι} {τ : NodeHistory ι}
    {v : NodeState} (h : Status D T nodes n τ v) :
    τ.outputs = [] ∨ ∃ p o a, T.parent n = some p ∧ τ.outputs = [a] ∧
      D.network.packets n a = [⟨n, p, ⟨.checksum, .topology o⟩⟩] ∧ Describes D T nodes n o := by
  cases h with
  | router _ ho _ => exact .inl ho
  | waiting _ _ ho _ => exact .inl ho
  | collecting _ _ _ _ ho _ _ => exact .inl ho
  | answered hn _ ho hd _ =>
    obtain ⟨p, hp⟩ := hT.parent_of_ne_router (n := n) (by rw [hn]; simp)
    exact .inr ⟨p, _, _, hp, ho, hT.packets_answer hp _ fun _ => ⟨_, hn⟩, hd⟩
  | responded hn _ ho hd _ =>
    obtain ⟨p, hp⟩ := hT.parent_of_ne_router (n := n) (by rw [hn]; simp)
    exact .inr ⟨p, _, _, hp, ho, hT.packets_answer hp _ (by simp), hd⟩

/-- A client answers a request with itself, which is its subtree. -/
theorem describes_client (hT : TopologyTree D T links nodes) {n : ι} {cs : Client.State}
    (hn : nodes n = .client cs) :
    Describes D T nodes n ⟨1, [(D.node n).id], (D.node n).rank, ownChecksum (D.node n).id⟩ := by
  have hsub := Tree.subtree_leaf (hT.client_leaf n cs hn)
  have hids : TopologyInfo.ids ⟨1, [(D.node n).id], (D.node n).rank,
      ownChecksum (D.node n).id⟩ = [(D.node n).id] := rfl
  refine ⟨?_, ?_, ?_, ?_, ?_, ⟨n, Tree.self_mem_subtree n, ⟨cs, hn⟩, rfl⟩⟩
  · rw [hsub, hids]
    exact ⟨by simp, by simp [eq_comm]⟩
  · rw [hids]
    rfl
  · rw [hsub]
    rfl
  · rw [hsub, xorOver_singleton]
    rfl
  · intro m hm _
    rw [hsub] at hm
    rw [Finset.mem_singleton.1 hm]
    exact BitVec.le_refl _

theorem request_step (hT : TopologyTree D T links nodes) {n : ι} {τ : NodeHistory ι}
    {v : NodeState} {mpkt : RequestPacket} (hm : mpkt.pktType = topology)
    (hcl : IsClient nodes n) (hnot : ¬ Asked τ) (h : Status D T nodes n τ v) :
    ∃ v' acts, D.step n v (.ext (.request mpkt)) = .ok (v', acts) ∧
      Status D T nodes n (τ ++ [(.ext (.request mpkt), acts)]) v' ∧
      ∀ a ∈ acts, ∀ p ∈ D.network.packets n a, GoodPacket D T nodes p := by
  obtain ⟨cs₀, hn⟩ := hcl
  obtain ⟨q, hq⟩ := hT.parent_of_ne_router (n := n) (by rw [hn]; simp)
  cases h with
  | @waiting _ cs _ _ ho hv =>
    subst hv
    let o : TopologyInfo := ⟨1, [(D.node n).id], (D.node n).rank, ownChecksum (D.node n).id⟩
    have hd : Describes D T nodes n o := hT.describes_client hn
    have hattest : D.attest n mpkt.seed = some (ownChecksum (D.node n).id) :=
      hT.honest n mpkt.seed
    have hstep : D.step n (.client cs) (.ext (.request mpkt)) =
        .ok (.client ⟨ownChecksum (D.node n).id, .topology o, true⟩,
          [sendToParents (D.node n) (.topology o) true]) := by
      simp only [Deployment.step, Deployment.clientEvent, Client.step,
        Client.tcpipHandler_topology hm hattest, o]
    refine ⟨_, _, hstep, .answered hn ?_ ?_ hd rfl, ?_⟩
    · exact ⟨_, List.mem_append_right _ (List.mem_singleton_self _), mpkt, rfl⟩
    · simp [ho]
    · intro a ha p hp
      rw [List.mem_singleton.1 ha, hT.packets_answer hq _ fun _ => ⟨_, hn⟩] at hp
      rw [List.mem_singleton.1 hp]
      exact ⟨hq, _, rfl, hd⟩
  | answered _ hasked _ _ _ => exact absurd hasked hnot
  | router hn' _ _ | collecting hn' _ _ _ _ _ _ | responded hn' _ _ _ _ =>
    rw [hn] at hn'
    cases hn'

theorem deliver_step (hT : TopologyTree D T links nodes) {p : Packet ι Datagram}
    {τ : NodeHistory ι} {v : NodeState} (hgood : GoodPacket D T nodes p)
    (hnew : p.src ∉ senders τ) (h : Status D T nodes p.dst τ v) :
    ∃ v' acts, D.step p.dst v (.recv p.src p.body) = .ok (v', acts) ∧
      Status D T nodes p.dst (τ ++ [(.recv p.src p.body, acts)]) v' ∧
      ∀ a ∈ acts, ∀ q ∈ D.network.packets p.dst a, GoodPacket D T nodes q := by
  obtain ⟨src, r, body⟩ := p
  obtain ⟨hparent, o, rfl, hd⟩ := hgood
  have hsnoc : ∀ acts, senders (τ ++ [(.recv src ⟨.checksum, .topology o⟩, acts)]) =
      senders τ ++ [src] := fun acts => by simp [senders]
  cases h with
  | router hn ho hv =>
    subst hv
    exact ⟨_, _, rfl, .router hn (by simp [ho]) rfl, by simp⟩
  | waiting hn _ _ _ | answered hn _ _ _ _ => exact absurd hparent (hT.client_leaf _ _ hn _)
  | responded hn hall _ _ _ => exact absurd ((hall src).2 hparent) hnew
  | @collecting rs s hn hnodup hhs _ ho hv hcol =>
    subst hv
    have hmem := ChildList.isChild_iff.1 (hcol.isChild src hparent)
    have hne : s.childList.ids ≠ [] := List.ne_nil_of_mem hmem
    have hh : Relay.heard s.childList.ids (.tcpip (D.addr src) (.topology o)) =
        some (getIdFromAddr (D.addr src), .topology o) := by simp [Relay.heard, hne]
    have hstep := Relay.step_topology (D.node r) D.buffers hh
    obtain ⟨s', sent, hrun, hcase⟩ := collect_step hT hn
      (Relay.Event.after D.buffers (.tcpip (D.addr src) (.topology o))) hnodup hhs hcol hparent
      hnew hd
    rw [hrun] at hstep
    refine ⟨.relay s', sent.map fun o => sendToParents (D.node r) (.topology o) false, ?_, ?_, ?_⟩
    · simp only [Deployment.step, Deployment.relayEvent, hstep, Except.map]
    · rcases hcase with ⟨rfl, hlt, hcol'⟩ | ⟨resp, rfl, hall, hresp⟩
      · rw [List.map_nil]
        have hnodup' := nodup_snoc hnodup hnew
        refine .collecting hn ?_ ?_ ?_ (by simp [ho]) rfl ?_ <;> rw [hsnoc]
        · exact hnodup'
        · intro d hd'
          rcases List.mem_append.1 hd' with hd' | hd'
          · exact hhs d hd'
          · rw [List.mem_singleton.1 hd']
            exact hparent
        · exact hlt
        · exact hcol'
      · exact .responded hn (by rw [hsnoc]; exact hall) (by simp [ho]) hresp rfl
    · intro a ha q hq
      rcases hcase with ⟨rfl, -, -⟩ | ⟨resp, rfl, -, hresp⟩
      · cases ha
      · obtain ⟨up, hup⟩ := hT.parent_of_ne_router (n := r) (by rw [hn]; simp)
        rw [List.map_singleton, List.mem_singleton] at ha
        rw [ha, hT.packets_answer hup _ (by simp)] at hq
        rw [List.mem_singleton.1 hq]
        exact ⟨hup, _, rfl, hresp⟩

/-- One step of the round: it does not fault, and keeps the status of the node and the goodness of
the packets. -/
theorem round_step (hT : TopologyTree D T links nodes)
    {t : Network.History ι Datagram NodeEvent Action} {s : Network.State ι NodeState Datagram}
    {l : Network.Label ι Datagram NodeEvent}
    (hr : D.network.machine.RunIf (OneRequest nodes) (Deployment.start nodes) t s)
    (hc : OneRequest nodes t s l) (hI : ∀ n, Status D T nodes n (traceOf n t) (s.node n))
    (hQ : ∀ p ∈ s.flight, GoodPacket D T nodes p) (hmem : ∀ p ∈ l.packet?, p ∈ s.flight) :
    ∃ v acts, D.step l.target (s.node l.target) l.input = .ok (v, acts) ∧
      Status D T nodes l.target (traceOf l.target t ++ [(l.input, acts)]) v ∧
      ∀ a ∈ acts, ∀ p ∈ D.network.packets l.target a, GoodPacket D T nodes p := by
  cases l with
  | deliver p =>
    have hp : p ∈ s.flight := hmem p rfl
    refine deliver_step hT (hQ p hp) ?_ (hI p.dst)
    -- the sender posts one packet, so this is its first here
    refine Network.notMem_senders hr rfl hp ?_
    rcases (hI p.src).answer hT with h | ⟨q, o, a, -, h, hpost, -⟩
    · rw [h]
      simp [Network.link]
    · rw [h, List.flatMap_singleton, hpost]
      exact List.length_filter_le _ _
  | ext n e =>
    cases e with
    | request mpkt =>
      obtain ⟨hm, hcl, hnot⟩ := hc
      exact request_step hT hm hcl hnot (hI n)
    | periodicExpiry | pExpiry => exact hc.elim

theorem run_status (hT : TopologyTree D T links nodes)
    {t : Network.History ι Datagram NodeEvent Action} {s : Network.State ι NodeState Datagram}
    (hr : D.network.machine.RunIf (OneRequest nodes) (Deployment.start nodes) t s) :
    (∀ n, Status D T nodes n (traceOf n t) (s.node n)) ∧
      ∀ p ∈ s.flight, GoodPacket D T nodes p := by
  refine Network.nodewise (Status D T nodes) (GoodPacket D T nodes) hr hT.status_start
    (by simp [Deployment.start]) ?_
  intro t s l v acts hr hc hI hQ hmem hv
  obtain ⟨v', acts', hs, hstatus, hpost⟩ := round_step hT hr hc hI hQ hmem
  have hv' : D.step l.target (s.node l.target) l.input = .ok (v, acts) := hv
  rw [hs] at hv'
  cases hv'
  exact ⟨hstatus, hpost⟩

/-- With every client asked and nothing in flight, every node has answered: from the leaves up. -/
theorem all_answered (hT : TopologyTree D T links nodes)
    {t : Network.History ι Datagram NodeEvent Action} {s : Network.State ι NodeState Datagram}
    (hr : D.network.machine.RunIf (OneRequest nodes) (Deployment.start nodes) t s)
    (hasked : ∀ n, IsClient nodes n → Asked (traceOf n t)) (hquiet : s.flight = []) (n : ι) :
    nodes n ≠ .router → (traceOf n t).outputs ≠ [] := by
  obtain ⟨hI, -⟩ := run_status hT hr
  induction n using T.children_first with
  | h n ih =>
    intro hn hnone
    cases hI n with
    | router hn' _ _ => exact hn hn'
    | waiting hn' hnot _ _ => exact hnot (hasked n ⟨_, hn'⟩)
    | answered _ _ ho _ _ | responded _ _ ho _ _ => rw [ho] at hnone; cases hnone
    | collecting hn' hnodup hhs hlt _ _ _ =>
      have hall : ∀ c, T.parent c = some n → c ∈ senders (traceOf n t) := by
        intro c hc
        have hc' : nodes c ≠ .router := by
          intro he
          rw [(hT.router c).1 he] at hc
          cases hc
        rcases (hI c).answer hT with h | ⟨q, o, a, hq, h, hpost, -⟩
        · exact absurd h (ih c hc hc')
        · rw [hc] at hq
          cases hq
          refine Network.mem_senders (p := ⟨c, n, ⟨.checksum, .topology o⟩⟩) hr rfl hquiet ?_
          rw [h, List.flatMap_singleton, hpost]
          exact List.mem_singleton_self _
      have hsub : T.children n ⊆ (senders (traceOf n t)).toFinset := by
        intro c hc
        exact List.mem_toFinset.2 (hall c (Tree.mem_children.1 hc))
      have := Finset.card_le_card hsub
      rw [List.toFinset_card_of_nodup hnodup] at this
      omega

/-- A topology round on a tree, over every interleaving: no delivery and no request faults; every
relay sends at most one response, and it describes the relay's subtree; once every client was asked
and nothing is in flight, every relay has sent it. -/
theorem topology_round (hT : TopologyTree D T links nodes)
    {t : Network.History ι Datagram NodeEvent Action} {s : Network.State ι NodeState Datagram}
    (hr : D.network.machine.RunIf (OneRequest nodes) (Deployment.start nodes) t s) :
    (∀ l, OneRequest nodes t s l → (∀ p ∈ l.packet?, p ∈ s.flight) →
      ∃ r, D.network.machine.step s l = .ok r) ∧
    (∀ n rs, nodes n = .relay rs → (traceOf n t).outputs = [] ∨
      ∃ o, (traceOf n t).outputs = [sendToParents (D.node n) (.topology o) false] ∧
        Describes D T nodes n o) ∧
    ((∀ n, IsClient nodes n → Asked (traceOf n t)) → s.flight = [] →
      ∀ n rs, nodes n = .relay rs →
        ∃ o, (traceOf n t).outputs = [sendToParents (D.node n) (.topology o) false] ∧
          Describes D T nodes n o) := by
  obtain ⟨hI, hQ⟩ := run_status hT hr
  have hsent : ∀ n rs, nodes n = .relay rs → (traceOf n t).outputs = [] ∨
      ∃ o, (traceOf n t).outputs = [sendToParents (D.node n) (.topology o) false] ∧
        Describes D T nodes n o := by
    intro n rs hn
    cases hI n with
    | collecting _ _ _ _ ho _ _ => exact .inl ho
    | responded _ _ ho hd _ => exact .inr ⟨_, ho, hd⟩
    | router hn' _ _ | waiting hn' _ _ _ | answered hn' _ _ _ _ => rw [hn] at hn'; cases hn'
  refine ⟨fun l hc hmem => ?_, hsent, fun hasked hquiet n rs hn => ?_⟩
  · obtain ⟨v, acts, hs, -, -⟩ := round_step hT hr hc hI hQ hmem
    exact Network.step_of_node hmem hs
  · rcases hsent n rs hn with h | h
    · exact absurd h (all_answered hT hr hasked hquiet n (by rw [hn]; simp))
    · exact h

/-! ## A line of three nodes -/

abbrev lineRouter : Fin 3 := 0

abbrev lineRelay : Fin 3 := 1

abbrev lineClient : Fin 3 := 2

/-- Client 2 below relay 1 below border router 0. -/
def line : Deployment (Fin 3) where
  node
    | 0 => ⟨0, 256, [⟨1, 512⟩]⟩
    | 1 => ⟨1, 512, [⟨0, 256⟩, ⟨2, 768⟩]⟩
    | 2 => ⟨2, 768, [⟨1, 512⟩]⟩
  addr n := BitVec.ofNat 128 n
  resolve a := if h : a.toNat < 3 then some ⟨a.toNat, h⟩ else none
  resolve_addr := by decide
  hears
    | 0 => []
    | 1 => [0]
    | 2 => [1]
  attest n seed := attestMemory (BitVec.ofNat 16 n) seed
  buffers := .contiki

def lineTree : Tree (Fin 3) where
  parent
    | 0 => none
    | 1 => some 0
    | 2 => some 1
  rank n := n
  rank_lt := by decide

def lineLinks : Fin 3 → List (Fin 3)
  | 0 => [1]
  | 1 => [0, 2]
  | 2 => [1]

def lineNodes : Fin 3 → NodeState
  | 0 => .router
  | 1 => .relay (Relay.init (.single 2))
  | 2 => .client Client.init

theorem line_topologyTree : TopologyTree line lineTree lineLinks lineNodes where
  honest n seed := match n with
    | 0 | 1 | 2 => rfl
  id_addr := by decide
  id_inj := by decide
  table := by decide
  links_nodup := by decide
  lower := by decide
  higher := by decide
  router n := match n with
    | 0 => by simp [lineNodes, lineTree]
    | 1 | 2 => by simp [lineNodes, lineTree]
  client_leaf n s h := match n with
    | 0 | 1 => by cases h
    | 2 => by decide
  client_links n s h := match n with
    | 0 | 1 => by cases h
    | 2 => by decide
  relay_child n s h := match n with
    | 0 | 2 => by cases h
    | 1 => ⟨2, rfl⟩
  relay_small n s _ := (Finset.card_le_univ _).trans (by decide)
  relay_children n s h := match n with
    | 0 | 2 => by cases h
    | 1 => by cases h; rfl
  relay_start n s h := match n with
    | 0 | 2 => by cases h
    | 1 => by cases h; exact ⟨rfl, rfl, rfl⟩

/-! ## A relay with two clients -/

/-- The clients `left` and `right` below a relay below the border router. -/
inductive Fork where
  | router
  | relay
  | left
  | right
  deriving DecidableEq

instance : Fintype Fork where
  elems := {.router, .relay, .left, .right}
  complete n := by cases n <;> decide

def Fork.nodeId : Fork → NodeId
  | .router => 0
  | .relay => 1
  | .left => 2
  | .right => 3

def fork : Deployment Fork where
  node
    | .router => ⟨0, 256, [⟨1, 512⟩]⟩
    | .relay => ⟨1, 512, [⟨0, 256⟩, ⟨2, 768⟩, ⟨3, 768⟩]⟩
    | .left => ⟨2, 768, [⟨1, 512⟩]⟩
    | .right => ⟨3, 768, [⟨1, 512⟩]⟩
  addr n := n.nodeId.setWidth 128
  resolve a :=
    if a = 0 then some .router
    else if a = 1 then some .relay
    else if a = 2 then some .left
    else if a = 3 then some .right
    else none
  resolve_addr := by decide
  hears
    | .router => []
    | .relay => [.router]
    | .left | .right => [.relay]
  attest n seed := attestMemory n.nodeId seed
  buffers := .contiki

def forkTree : Tree Fork where
  parent
    | .router => none
    | .relay => some .router
    | .left | .right => some .relay
  rank
    | .router => 0
    | .relay => 1
    | .left | .right => 2
  rank_lt := by decide

def forkLinks : Fork → List Fork
  | .router => [.relay]
  | .relay => [.router, .left, .right]
  | .left | .right => [.relay]

def forkNodes : Fork → NodeState
  | .router => .router
  | .relay => .relay (Relay.init (.pair 2 3))
  | .left | .right => .client Client.init

theorem fork_topologyTree : TopologyTree fork forkTree forkLinks forkNodes where
  honest n seed := by cases n <;> rfl
  id_addr := by decide
  id_inj := by decide
  table := by decide
  links_nodup := by decide
  lower := by decide
  higher := by decide
  router n := by cases n <;> simp [forkNodes, forkTree]
  client_leaf n s h := by
    cases n with
    | router | relay => cases h
    | left | right => decide
  client_links n s h := by
    cases n with
    | router | relay => cases h
    | left | right => decide
  relay_child n s h := by
    cases n with
    | router | left | right => cases h
    | relay => exact ⟨.left, rfl⟩
  relay_small n s _ := (Finset.card_le_univ _).trans (by decide)
  relay_children n s h := by
    cases n with
    | router | left | right => cases h
    | relay =>
      cases h
      rfl
  relay_start n s h := by
    cases n with
    | router | left | right => cases h
    | relay =>
      cases h
      exact ⟨rfl, rfl, rfl⟩

/-- Both clients are asked, and their packets reach the relay in one order and in the other. -/
theorem topology_round_fork : ∃ t t' s s',
    fork.network.machine.RunIf (OneRequest forkNodes) (Deployment.start forkNodes) t s ∧
      fork.network.machine.RunIf (OneRequest forkNodes) (Deployment.start forkNodes) t' s' ∧
      senders (traceOf .relay t) = [.left, .right] ∧
      senders (traceOf .relay t') = [.right, .left] ∧
      (∃ o, (traceOf .relay t).outputs =
          [sendToParents (fork.node .relay) (.topology o) false] ∧
        Describes fork forkTree forkNodes .relay o) ∧
      ∃ o, (traceOf .relay t').outputs =
          [sendToParents (fork.node .relay) (.topology o) false] ∧
        Describes fork forkTree forkNodes .relay o := by
  have hr : fork.network.machine.RunIf (OneRequest forkNodes) (Deployment.start forkNodes)
      [(.ext .left (.request ⟨topology, 0⟩), _), (.ext .right (.request ⟨topology, 0⟩), _),
        (.deliver ⟨.left, .relay, ⟨.checksum, .topology ⟨1, [2], 768, ownChecksum 2⟩⟩⟩, _),
        (.deliver ⟨.right, .relay, ⟨.checksum, .topology ⟨1, [3], 768, ownChecksum 3⟩⟩⟩, _),
        (.deliver ⟨.relay, .router, ⟨.checksum, .topology
          ⟨3, [2, 3, 1], 768, ownChecksum 2 ^^^ ownChecksum 3 ^^^ ownChecksum 1⟩⟩⟩, _)] _ :=
    .next (t := [_, _, _, _]) (.next (t := [_, _, _]) (.next (t := [_, _]) (.next (t := [_])
      (.next (t := []) .start ⟨rfl, ⟨_, rfl⟩, by simp [Asked]⟩ rfl)
      ⟨rfl, ⟨_, rfl⟩, by simp [Asked, traceOf, Network.Label.target]⟩ rfl)
      trivial rfl) trivial rfl) trivial rfl
  have hr' : fork.network.machine.RunIf (OneRequest forkNodes) (Deployment.start forkNodes)
      [(.ext .left (.request ⟨topology, 0⟩), _),
        (.ext .right (.request ⟨topology, 0⟩), _),
        (.deliver ⟨.right, .relay, ⟨.checksum, .topology ⟨1, [3], 768, ownChecksum 3⟩⟩⟩, _),
        (.deliver ⟨.left, .relay, ⟨.checksum, .topology ⟨1, [2], 768, ownChecksum 2⟩⟩⟩, _),
        (.deliver ⟨.relay, .router, ⟨.checksum, .topology
          ⟨3, [3, 2, 1], 768, ownChecksum 3 ^^^ ownChecksum 2 ^^^ ownChecksum 1⟩⟩⟩, _)] _ :=
    .next (t := [_, _, _, _]) (.next (t := [_, _, _]) (.next (t := [_, _]) (.next (t := [_])
      (.next (t := []) .start ⟨rfl, ⟨_, rfl⟩, by simp [Asked]⟩ rfl)
      ⟨rfl, ⟨_, rfl⟩, by simp [Asked, traceOf, Network.Label.target]⟩ rfl)
      trivial rfl) trivial rfl) trivial rfl
  refine ⟨_, _, _, _, hr, hr', rfl, rfl,
    (topology_round fork_topologyTree hr).2.2 (fun n hn => ?_) rfl .relay _ rfl,
    (topology_round fork_topologyTree hr').2.2 (fun n hn => ?_) rfl .relay _ rfl⟩
  all_goals
    cases n with
    | router | relay =>
      obtain ⟨cs, hcs⟩ := hn
      cases hcs
    | left | right => exact ⟨_, List.mem_cons_self .., _, rfl⟩

end TopologyTree

end Swarna
