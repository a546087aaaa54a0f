import Swarna.PathSplit

/-!
# Swarna.DistinctPaths

When the paths a relay reports name no node twice. `is_present_paths` compares with the ids below
`paths_loc`, which the loop moves only when the path is full, so it misses a repeat within one
packet; and nothing keeps the relay's own id out before `send_topology_resp` appends it.

* `NamesOnce`: a packet whose new ids are distinct, also those behind the one that fills the path.
  `NamesOnce.adds`: each of them is then new to the path when the loop copies it.
* `reported_paths_distinct`: in every run of such packets the ids waiting and those of every
  response are pairwise distinct. `repeated_in_packet`: a packet that names a node twice.
-/

namespace Swarna
namespace Relay

/-! ## The ids of a packet -/

/-- The new ids that go into the path are distinct, and the relay's own is not among them. When
they fill it, what follows goes into empty paths, eight ids each; if the packet is overwritten then,
the own id is the ninth in it, so the loop has to be past that. -/
def NamesOnce (own : NodeId) (overwrites : Bool) (s : State) (t : TopologyInfo) : Prop :=
  ((fresh s t.ids).take (maxPathNodes - 2 - s.pathsLoc)).Nodup ∧
    own ∉ (fresh s t.ids).take (maxPathNodes - 2 - s.pathsLoc) ∧
    (maxPathNodes - 2 - s.pathsLoc ≤ (fresh s t.ids).length →
      if overwrites then maxPathNodes - 2 + (afterFull s t).length < t.ids.length
      else own ∉ afterFull s t ∧ ∀ k,
        (((afterFull s t).drop ((maxPathNodes - 2) * k)).take (maxPathNodes - 2)).Nodup)

/-- Every id that is copied is missing from `paths[0..i)` and is not the relay's own. -/
def AddsNew (own : NodeId) (overwrites : Bool) : (j : Nat) → (seen waiting ids : List NodeId) → Prop
  | _, _, _, [] => True
  | j, seen, w, x :: xs =>
    if x ∈ seen then AddsNew own overwrites (j + 1) seen w xs
    else
      x ∉ w ∧ x ≠ own ∧
        if w.length < maxPathNodes - 3 then AddsNew own overwrites (j + 1) seen (w ++ [x]) xs
        else if overwrites then maxPathNodes - 2 ≤ j
        else AddsNew own overwrites (j + 1) [] [] xs

theorem addsNew_emptied {own : NodeId} {w ids : List NodeId} {j : Nat}
    (hw : w.length ≤ maxPathNodes - 3) (hown : own ∉ ids)
    (h : ∀ k, (((w ++ ids).drop ((maxPathNodes - 2) * k)).take (maxPathNodes - 2)).Nodup) :
    AddsNew own false j [] w ids := by
  have hmax : maxPathNodes - 2 = maxPathNodes - 3 + 1 := rfl
  induction ids generalizing w j with
  | nil => trivial
  | cons x ids ih =>
    obtain ⟨hx, hids⟩ := List.ne_and_not_mem_of_not_mem_cons hown
    have hlen : (w ++ [x]).length ≤ maxPathNodes - 2 := by
      rw [List.length_append, List.length_singleton]
      omega
    have hnew : x ∉ w := by
      have hfirst := h 0
      rw [Nat.mul_zero, List.drop_zero, List.append_cons, List.take_append,
        List.take_of_length_le hlen] at hfirst
      have hsnoc := (List.nodup_append.1 hfirst).1
      exact fun hxw => (List.nodup_append.1 hsnoc).2.2 x hxw x (List.mem_singleton_self x) rfl
    rw [AddsNew, if_neg List.not_mem_nil]
    refine ⟨hnew, hx.symm, ?_⟩
    by_cases hlt : w.length < maxPathNodes - 3
    · rw [if_pos hlt]
      refine ih (by simp; omega) hids fun k => ?_
      rw [← List.append_cons]
      exact h k
    · have hfull : (w ++ [x]).length = maxPathNodes - 2 := by
        rw [List.length_append, List.length_singleton]
        omega
      rw [if_neg hlt, if_neg Bool.false_ne_true]
      refine ih (Nat.zero_le _) hids fun k => ?_
      have hnext := h (k + 1)
      rwa [List.append_cons, Nat.mul_succ, Nat.add_comm, ← List.drop_drop,
        List.drop_left' hfull] at hnext

theorem addsNew_of_distinct {own : NodeId} {overwrites : Bool} {s : State} {w ids : List NodeId}
    {j n : Nat} (hn : w.length + n = maxPathNodes - 2) (hpos : 0 < n)
    (hdistinct : (w ++ (fresh s ids).take n).Nodup) (hown : own ∉ (fresh s ids).take n)
    (hfull : n ≤ (fresh s ids).length →
      if overwrites then maxPathNodes - 2 + (behind s.ids n ids).length < j + ids.length
      else own ∉ behind s.ids n ids ∧ ∀ k,
        (((behind s.ids n ids).drop ((maxPathNodes - 2) * k)).take (maxPathNodes - 2)).Nodup) :
    AddsNew own overwrites j s.ids w ids := by
  induction ids generalizing w j n with
  | nil => trivial
  | cons x ids ih =>
    obtain ⟨n, rfl⟩ := Nat.exists_eq_succ_of_ne_zero hpos.ne'
    rw [AddsNew]
    rw [behind, List.length_cons] at hfull
    by_cases hx : x ∈ s.ids
    · rw [fresh_cons_present (isPresentPaths_iff.2 hx)] at hdistinct hown hfull
      rw [if_pos hx] at hfull ⊢
      exact ih hn hpos hdistinct hown (by rwa [Nat.add_right_comm, Nat.add_assoc])
    · rw [fresh_cons_new fun hx' => hx (isPresentPaths_iff.1 hx')] at hdistinct hown hfull
      rw [List.take_succ_cons] at hdistinct hown
      rw [List.append_cons] at hdistinct
      rw [List.length_cons, if_neg hx] at hfull
      obtain ⟨hne, hown⟩ := List.ne_and_not_mem_of_not_mem_cons hown
      have hsnoc := (List.nodup_append.1 hdistinct).1
      rw [if_neg hx]
      refine ⟨fun hxw => (List.nodup_append.1 hsnoc).2.2 x hxw x (List.mem_singleton_self x) rfl,
        hne.symm, ?_⟩
      cases n with
      | zero =>
        have hrest := hfull (by omega)
        rw [behind] at hrest
        rw [if_neg (by omega)]
        cases overwrites with
        | true =>
          have hpast : maxPathNodes - 2 + ids.length < j + (ids.length + 1) := hrest
          show maxPathNodes - 2 ≤ j
          omega
        | false => exact addsNew_emptied (Nat.zero_le _) hrest.1 hrest.2
      | succ n =>
        rw [if_pos (by omega)]
        refine ih (by simp; omega) (Nat.succ_pos n) hdistinct hown fun h => ?_
        rw [Nat.add_right_comm, Nat.add_assoc]
        exact hfull (by omega)

theorem NamesOnce.adds {own : NodeId} {overwrites : Bool} {s : State} {t : TopologyInfo}
    (h : NamesOnce own overwrites s t) (hloc : s.pathsLoc ≤ maxPathNodes - 3) (hs : s.ids.Nodup) :
    AddsNew own overwrites 0 s.ids s.ids t.ids := by
  have hmax : maxPathNodes = maxPathNodes - 3 + 3 := rfl
  obtain ⟨hnew, hown, hfull⟩ := h
  have hlen : s.ids.length = s.pathsLoc := by
    simp only [State.ids, List.length_take, Vector.length_toList]
    omega
  refine addsNew_of_distinct (by omega) (by omega) ?_ hown (by rwa [Nat.zero_add])
  refine List.nodup_append.2 ⟨hs, hnew, ?_⟩
  rintro a ha b hb rfl
  have hb' := List.of_mem_filter (List.mem_of_mem_take hb)
  rw [isPresentPaths_iff.2 ha] at hb'
  exact absurd hb' (by decide)

theorem nodup_snoc_own {w : List NodeId} {x own : NodeId} (h : (w ++ [own]).Nodup) (hx : x ∉ w)
    (ho : x ≠ own) : (w ++ [x] ++ [own]).Nodup := by
  simp only [List.nodup_append, List.nodup_singleton, List.mem_singleton, List.mem_append] at h ⊢
  obtain ⟨hw, -, hown⟩ := h
  refine ⟨⟨hw, trivial, ?_⟩, trivial, ?_⟩
  · rintro a ha b rfl rfl
    exact hx ha
  · rintro a (ha | rfl) b rfl
    · exact hown a ha b rfl
    · exact ho

/-! ## One packet -/

section Packet

variable {nd : Node} {after : TopologyInfo → TopologyInfo → TopologyInfo} {overwrites : Bool}

/-- The loop before round `j`. -/
structure Clean (nd : Node) (overwrites : Bool) (j : Nat) (v : Copy) : Prop where
  waiting : (v.waiting ++ [nd.id]).Nodup
  sent : ∀ o ∈ v.sent, o.ids.Nodup
  rest : AddsNew nd.id overwrites j v.seen v.waiting (v.resp.ids.drop j)

theorem Clean.step (hafter : ∀ t o, (if parents nd false = [] then t else after t o) =
      if overwrites then o else t) {v v' : Copy} {j : Nat} (hv : v.Sane)
    (h : Clean nd overwrites j v)
    (hj : j < v.resp.pathindex.toNat) (hcs : CopyStep nd after v (v.resp.path.getD j 0) v') :
    Clean nd overwrites (j + 1) v' := by
  have hlen := hv.waiting_length
  have hrest := h.rest
  rw [ids_drop hj, AddsNew] at hrest
  cases hcs with
  | skip hx =>
    rw [if_pos hx] at hrest
    exact ⟨h.waiting, h.sent, hrest⟩
  | append hx hi _ hw hseen _ hp hs =>
    rw [if_neg hx, if_pos (by omega)] at hrest
    obtain ⟨hnew, hown, hrest⟩ := hrest
    refine ⟨?_, by rw [hs]; exact h.sent, by rw [hseen, hw, hp]; exact hrest⟩
    rw [hw]
    exact nodup_snoc_own h.waiting hnew hown
  | @full _ o hx hi ho _ hw hseen _ hp hs =>
    rw [if_neg hx, if_neg (by omega)] at hrest
    obtain ⟨hnew, hown, hrest⟩ := hrest
    refine ⟨by simp [hw], ?_, ?_⟩
    · intro o' ho'
      rw [hs] at ho'
      rcases List.mem_append.1 ho' with ho' | ho'
      · exact h.sent o' ho'
      · rw [List.mem_singleton.1 ho', ho]
        exact nodup_snoc_own h.waiting hnew hown
    · rw [hseen, hw, hp, hafter]
      cases overwrites with
      | false => exact hrest
      | true =>
        have hend : o.ids.length ≤ j + 1 := by
          have hj' : maxPathNodes - 2 ≤ j := hrest
          rw [ho]
          simp only [List.length_append, List.length_singleton]
          unfold maxPathNodes at *
          omega
        rw [if_pos rfl, List.drop_eq_nil_of_le hend]
        trivial

variable {s s' : State} {t : TopologyInfo} {cid : NodeId} {sent : List TopologyInfo}

theorem processTopologyReq_distinct
    (hafter : ∀ t o, (if parents nd false = [] then t else after t o) = if overwrites then o else t)
    (hloc : s.pathsLoc ≤ maxPathNodes - 3) (hc : s.childList.isChild cid = true)
    (hids : (s.ids ++ [nd.id]).Nodup) (hnew : AddsNew nd.id overwrites 0 s.ids s.ids t.ids)
    (h : processTopologyReq nd after s t cid = .ok (s', sent)) :
    (s'.ids ++ [nd.id]).Nodup ∧ ∀ o ∈ sent, o.ids.Nodup := by
  have hcur : s.curLoc < maxChild := by
    by_contra hfull
    rw [processTopologyReq_overflow hc hfull] at h
    cases h
  obtain ⟨a, l, -, hcopy, hacc, hl, -⟩ :=
    acceptTopologyReq_copy nd after t cid hloc hcur
  obtain ⟨l', j, hcopy', -, hclean, -⟩ := copyPaths_invariant (P := Clean nd overwrites)
    (fun _ _ _ hv hP hj hcs => hP.step hafter hv hj hcs)
    256 0 (copyStart_sane t cid a hloc hcur)
    ⟨hids, nofun, hnew⟩ (by omega)
  rw [hcopy] at hcopy'
  cases hcopy'
  have hresp : (topologyResp nd l.taken).ids = l.waiting ++ [nd.id] :=
    topologyResp_ids (show l.i ≤ _ by have := hl.i_le; omega)
  simp only [processTopologyReq, hc, Bool.not_true, Bool.false_eq_true, if_false, hacc,
    finishTopologyReq] at h
  split at h
  · rw [sendTopologyResp_eq nd (show l.taken.curLoc ≤ _ from hl.curLoc_le)
      (show l.i ≤ _ by have := hl.i_le; omega)] at h
    cases h
    refine ⟨by simp, fun o ho => ?_⟩
    rcases List.mem_append.1 ho with ho | ho
    · exact hclean.sent o ho
    · rw [List.mem_singleton.1 ho, hresp]
      exact hclean.waiting
  · cases h
    exact ⟨hclean.waiting, hclean.sent⟩

end Packet

/-! ## Runs -/

/-- Whether the packet of an event is overwritten when a full path goes out. -/
def overwritten (nd : Node) : Event → Bool
  | .tcpip _ _ => !(parents nd false).isEmpty
  | _ => false

theorem after_overwritten (nd : Node) (e : Event) (t o : TopologyInfo) :
    (if parents nd false = [] then t else e.after .contiki t o) =
      if overwritten nd e then o else t := by
  cases e with
  | tcpip src pkt =>
    cases h : parents nd false with
    | nil => simp [overwritten, h]
    | cons a as => simp [overwritten, h, Event.after, Buffers.contiki]
  | broadcast | mcast | secReq | periodicExpiry | pExpiry => exact ite_self _

/-- The packets of children name no node twice. -/
def BringsDistinct (nd : Node) (children : List NodeId) (_ : History) (s : State) (e : Event) :
    Prop :=
  ∀ cid t, heard children e = some (cid, .topology t) → cid ∈ children →
    NamesOnce nd.id (overwritten nd e) s t

theorem mcastTcpipHandler_distinct (nd : Node) (s : State) (mpkt : RequestPacket) :
    ∀ o ∈ sentTopology (mcastTcpipHandler nd s mpkt).2, o.ids.Nodup := by
  intro o ho
  rw [sentTopology_mcast ho]
  exact List.nodup_singleton nd.id

theorem distinct_step {nd : Node} {s s' : State} {e : Event} {t : History} {out : List Action}
    (hb : Bounded s) (hids : (s.ids ++ [nd.id]).Nodup)
    (hnew : BringsDistinct nd s.childList.ids t s e)
    (hs : step nd .contiki s e = .ok (s', out)) :
    (s'.ids ++ [nd.id]).Nodup ∧ ∀ o ∈ sentTopology out, o.ids.Nodup := by
  have hloc : s.pathsLoc ≤ maxPathNodes - 2 := by have := hb.pathsLoc_le; omega
  cases outcome_of_step hb hs with
  | ignored _ _ | attestation _ _ _ | periodicIdle _ | periodicZero _ _ | pIdle _ | pBroadcast _ =>
    exact ⟨hids, by simp [sentTopology]⟩
  | request mpkt _ _ _ =>
    obtain ⟨r, hr⟩ := mcastTcpipHandler_state nd s mpkt
    rw [hr]
    exact ⟨hids, mcastTcpipHandler_distinct nd s mpkt⟩
  | topology hh hmem _ _ =>
    obtain ⟨sent, hreq, hout⟩ := step_topology_ok hh hs
    rw [hout, sentTopology_map]
    exact processTopologyReq_distinct (after_overwritten nd e) hb.pathsLoc_le
      (ChildList.isChild_iff.2 hmem) hids
      ((hnew _ _ hh hmem).adds hb.pathsLoc_le (List.nodup_append.1 hids).1) hreq
  | secReq secreq =>
    refine ⟨hids, fun o ho => ?_⟩
    obtain ⟨a, ha, hao⟩ := List.mem_filterMap.1 ho
    obtain ⟨-, resp, rfl⟩ := mem_udpSecreqCallback ha
    cases hao
  | periodicTopology _ =>
    refine ⟨by simp, fun o ho => ?_⟩
    have hone : sentTopology [sendToParents nd (.topology (topologyResp nd s)) false] =
        [topologyResp nd s] := rfl
    rw [hone] at ho
    rw [List.mem_singleton.1 ho, topologyResp_ids hloc]
    exact hids
  | periodicAttestation _ _ => exact ⟨by simp, by simp [sentTopology]⟩

theorem reported_paths_distinct {nd : Node} {c : ChildList} {t : History} {s : State}
    (hr : (machine nd .contiki).RunIf (BringsDistinct nd c.ids) (init c) t s) :
    s.ids.Nodup ∧ ∀ o ∈ sentTopology t.outputs, o.ids.Nodup := by
  have hinv : Good c.ids t s ∧ (s.ids ++ [nd.id]).Nodup ∧
      ∀ o ∈ sentTopology t.outputs, o.ids.Nodup := by
    refine hr.invariant (P := fun t s => Good c.ids t s ∧ (s.ids ++ [nd.id]).Nodup ∧
      ∀ o ∈ sentTopology t.outputs, o.ids.Nodup)
      ⟨good_init c, by simp [init, State.ids], by simp [sentTopology]⟩ ?_
    rintro t s e s' out ⟨hg, hids, hsent⟩ hnew hs
    rw [← hg.children_eq] at hnew
    obtain ⟨hids', hout⟩ := distinct_step hg.bounded hids hnew hs
    refine ⟨good_step hg (outcome_of_step hg.bounded hs), hids', fun o ho => ?_⟩
    rw [Trace.outputs_snoc, sentTopology, List.filterMap_append] at ho
    rcases List.mem_append.1 ho with ho | ho
    · exact hsent o ho
    · exact hout o ho
  exact ⟨(List.nodup_append.1 hinv.2.1).1, hinv.2.2⟩

/-- Packets of two children with the node 7 in both. -/
theorem reported_paths_distinct_shared :
    ∃ t s, sampleMachine.RunIf (BringsDistinct sampleNode twoChildren.ids) (init twoChildren) t s ∧
      sentTopology t.outputs = [⟨4, [7, 2, 3, 1], 0, 7 ^^^ (8 ^^^ ownChecksum 1)⟩] ∧
      s.ids.Nodup ∧ ∀ o ∈ sentTopology t.outputs, o.ids.Nodup := by
  have honce : ∀ {u : History} {s : State} {src : Addr} {t : TopologyInfo}, NamesOnce 1 true s t →
      BringsDistinct sampleNode twoChildren.ids u s (.tcpip src (.topology t)) := by
    rintro u s src t h cid t' ⟨⟩ -
    exact h
  have hr : sampleMachine.RunIf (BringsDistinct sampleNode twoChildren.ids) (init twoChildren)
      [(.tcpip 2 (.topology ⟨2, [7, 2], 0, 7⟩), _),
        (.tcpip 3 (.topology ⟨2, [7, 3], 0, 8⟩), _)] _ :=
    .next (t := [_]) (.next (t := []) .start
        (honce ⟨by decide, by decide, fun h => absurd h (by decide)⟩) rfl)
      (honce ⟨by decide, by decide, fun h => absurd h (by decide)⟩) rfl
  exact ⟨_, _, hr, rfl, reported_paths_distinct hr⟩

/-- A packet that names node 5 twice. -/
theorem repeated_in_packet :
    ∃ t s, sampleMachine.Run (init twoChildren) t s ∧
      t.map Prod.fst = [.tcpip 2 (.topology ⟨2, [5, 5], 0, 7⟩)] ∧ s.ids = [5, 5] ∧
      ¬ s.ids.Nodup := by
  have hr : sampleMachine.Run (init twoChildren) [(.tcpip 2 (.topology ⟨2, [5, 5], 0, 7⟩), _)] _ :=
    .next (t := []) .start trivial rfl
  exact ⟨_, _, hr, rfl, rfl, by decide⟩

end Relay
end Swarna
