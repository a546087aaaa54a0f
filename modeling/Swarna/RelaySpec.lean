import Swarna.Relay
import Swarna.Xor

/-!
# Swarna.RelaySpec

What each function of the relay does, in terms of the two buffers' contents: `State.checksums`, the
checksums stored since the last reset, and `State.ids`, the ids of `paths[0..paths_loc)`.

* `getCombinedChecksum_eq`, `sendTopologyResp_eq`: the responses, from the buffers' contents.
* `copyPaths_fits`: the copying loop on a packet whose new ids fit the path.
* `copyPaths_cases`: the loop on any packet. Either nothing was sent, or the first packet sent
  took all checksums with it and the state is a reset one.
* `processTopologyReq_cases`: the whole handler, for a packet of a child.
-/

namespace Swarna

theorem take_succ_set {α : Type} {l : List α} {n : Nat} {x : α} (h : n < l.length) :
    (l.set n x).take (n + 1) = l.take n ++ [x] := by
  rw [List.take_succ_eq_append_getElem (by simpa using h)]
  simp [List.take_set_of_le (Nat.le_refl n)]

namespace Relay

/-- The checksums stored since the last reset. -/
def State.checksums (s : State) : List Checksum := s.checksumChildren.toList.take s.curLoc

/-- The ids waiting in `paths`. -/
def State.ids (s : State) : List NodeId := s.paths.toList.take s.pathsLoc

/-- The bounds every reachable state keeps. -/
structure Bounded (s : State) : Prop where
  curLoc_le : s.curLoc ≤ maxChild
  pathsLoc_le : s.pathsLoc ≤ maxPathNodes - 3

theorem Bounded.checksums_length {s : State} (h : Bounded s) : s.checksums.length = s.curLoc := by
  simp [State.checksums, h.curLoc_le]

theorem Bounded.ids_length {s : State} (h : Bounded s) : s.ids.length = s.pathsLoc := by
  have := h.pathsLoc_le
  simp only [State.ids, List.length_take, Vector.length_toList]
  unfold maxPathNodes at *
  omega

/-! ## Reset and store -/

section Reset

variable (s : State)

@[simp] theorem resetVariable_checksums : (resetVariable s).checksums = [] := by
  simp [resetVariable, State.checksums]

@[simp] theorem resetVariable_ids : (resetVariable s).ids = [] := by
  simp [resetVariable, State.ids]

@[simp] theorem resetVariable_curLoc : (resetVariable s).curLoc = 0 := rfl
@[simp] theorem resetVariable_pathsLoc : (resetVariable s).pathsLoc = 0 := rfl
@[simp] theorem resetVariable_firstChild : (resetVariable s).firstChild = true := rfl
@[simp] theorem resetVariable_periodicTimer :
    (resetVariable s).periodicTimer = s.periodicTimer := rfl
@[simp] theorem resetVariable_pTimer : (resetVariable s).pTimer = s.pTimer := rfl
@[simp] theorem resetVariable_ctimerResp : (resetVariable s).ctimerResp = s.ctimerResp := rfl
@[simp] theorem resetVariable_maxLeafRank : (resetVariable s).maxLeafRank = s.maxLeafRank := rfl
@[simp] theorem resetVariable_childList :
    (resetVariable s).childList = s.childList.restChildList := rfl

theorem resetVariable_bounded : Bounded (resetVariable s) := ⟨by simp, by simp⟩

end Reset

theorem storeChecksum_eq {s : State} {c : Checksum} (h : s.curLoc < maxChild) :
    ∃ a, storeChecksum s c = .ok { s with checksumChildren := a, curLoc := s.curLoc + 1 } ∧
      a.toList.take (s.curLoc + 1) = s.checksums ++ [c] := by
  refine ⟨s.checksumChildren.set s.curLoc c h, by simp [storeChecksum, h], ?_⟩
  rw [Vector.toList_set, take_succ_set (by simpa using h)]
  rfl

theorem storeChecksum_overflow {s : State} {c : Checksum} (h : ¬ s.curLoc < maxChild) :
    storeChecksum s c = .error .checksumOverflow := by
  simp [storeChecksum, h]

/-! ## The responses -/

theorem combine_eq {a : Vector Checksum maxChild} :
    ∀ (n i : Nat) (x : Checksum), i + n ≤ maxChild →
      combine a n i x = .ok (x ^^^ xorAll ((a.toList.drop i).take n)) := by
  intro n
  induction n with
  | zero => intro i x _; simp [combine]
  | succ n ih =>
    intro i x h
    have hi : i < maxChild := by omega
    have hd : a.toList.drop i = a[i] :: a.toList.drop (i + 1) := by
      rw [List.drop_eq_getElem_cons (by simpa using hi)]
      simp
    rw [combine, dif_pos hi, ih _ _ (by omega), hd]
    simp [BitVec.xor_assoc]

/-- The combined checksum is the XOR of what was stored and the own checksum. -/
theorem getCombinedChecksum_eq {nd : Node} {s : State} (h : s.curLoc ≤ maxChild) :
    getCombinedChecksum nd s =
      .ok (xorAll s.checksums ^^^ ownChecksum nd.id,
        { s with myChecksum := ownChecksum nd.id }) := by
  rw [getCombinedChecksum, combine_eq _ _ _ (by omega)]
  simp [State.checksums]

theorem sendAttestationResp_eq {nd : Node} {s : State} (h : s.curLoc ≤ maxChild)
    (hne : xorAll s.checksums ^^^ ownChecksum nd.id ≠ 0) :
    sendAttestationResp nd s =
      .ok (resetVariable
        { s with
          myChecksum := ownChecksum nd.id
          ctimerResp := .attestation (xorAll s.checksums ^^^ ownChecksum nd.id)
          pTimer := s.pTimer.set .broadcastToParents },
        [.storeBroadcast (.attestation (xorAll s.checksums ^^^ ownChecksum nd.id))]) := by
  rw [sendAttestationResp, getCombinedChecksum_eq h]
  exact if_pos hne

/-- A combined checksum of 0 is not sent, and nothing is reset. -/
theorem sendAttestationResp_zero {nd : Node} {s : State} (h : s.curLoc ≤ maxChild)
    (hz : xorAll s.checksums ^^^ ownChecksum nd.id = 0) :
    sendAttestationResp nd s = .ok ({ s with myChecksum := ownChecksum nd.id }, []) := by
  rw [sendAttestationResp, getCombinedChecksum_eq h]
  simp [hz]

/-- The topology response of a relay in state `s`. -/
def topologyResp (nd : Node) (s : State) : TopologyInfo where
  pathindex := BitVec.ofNat 8 (s.pathsLoc + 1)
  path := s.ids ++ [nd.id]
  maxLeafRank := s.maxLeafRank
  checksum := xorAll s.checksums ^^^ ownChecksum nd.id

theorem sendTopologyResp_eq (nd : Node) {s : State} (h : s.curLoc ≤ maxChild)
    (hp : s.pathsLoc ≤ maxPathNodes - 2) :
    sendTopologyResp nd s =
      .ok (resetVariable { s with myChecksum := ownChecksum nd.id }, topologyResp nd s) := by
  have h1 : ¬ maxPathNodes < s.pathsLoc := by unfold maxPathNodes at *; omega
  have h2 : ¬ maxPathNodes - 1 ≤ s.pathsLoc := by unfold maxPathNodes at *; omega
  rw [sendTopologyResp, getCombinedChecksum_eq h]
  simp [buildTopologyResp, h1, h2, topologyResp, State.ids]

theorem topologyResp_ids {nd : Node} {s : State} (hp : s.pathsLoc ≤ maxPathNodes - 2) :
    (topologyResp nd s).ids = s.ids ++ [nd.id] := by
  have hlen : (s.ids ++ [nd.id]).length = s.pathsLoc + 1 := by
    simp only [State.ids, List.length_append, List.length_take, Vector.length_toList,
      List.length_singleton]
    unfold maxPathNodes at *
    omega
  have hlt : s.pathsLoc + 1 < 256 := by unfold maxPathNodes at *; omega
  apply List.ext_getElem
  · simp [TopologyInfo.ids, topologyResp, hlen, Nat.mod_eq_of_lt hlt]
  · intro j h1 h2
    simp only [TopologyInfo.ids, topologyResp, List.getElem_map, List.getElem_range,
      List.getD_eq_getElem?_getD]
    rw [List.getElem?_eq_getElem h2, Option.getD_some]

/-! ## The copying loop -/

/-- The ids of a packet that are not in `paths` yet. -/
def fresh (s : State) (ids : List NodeId) : List NodeId :=
  ids.filter fun x => !isPresentPaths s x

theorem fresh_cons_present {s : State} {x : NodeId} {ids : List NodeId}
    (h : isPresentPaths s x = true) : fresh s (x :: ids) = fresh s ids := by
  simp [fresh, h]

theorem fresh_cons_new {s : State} {x : NodeId} {ids : List NodeId}
    (h : ¬ isPresentPaths s x = true) : fresh s (x :: ids) = x :: fresh s ids := by
  simp [fresh, h]

theorem ids_drop {t : TopologyInfo} {j : Nat} (h : j < t.pathindex.toNat) :
    t.ids.drop j = t.path.getD j 0 :: t.ids.drop (j + 1) := by
  have hlen : j < t.ids.length := by simpa [TopologyInfo.ids] using h
  rw [List.drop_eq_getElem_cons hlen]
  simp [TopologyInfo.ids]

/-- Writing an entry at or past `paths_loc` changes no id that `is_present_paths` looks at. -/
theorem take_set_paths {p : Vector NodeId maxPathNodes} {i n : Nat} {x : NodeId}
    (hi : i < maxPathNodes) (h : n ≤ i) : (p.set i x hi).toList.take n = p.toList.take n := by
  rw [Vector.toList_set, List.take_set_of_le h]

theorem copyId_fits (nd : Node) (after : TopologyInfo → TopologyInfo → TopologyInfo) {l : Copy}
    {x : NodeId} (hi : l.i < maxPathNodes - 3) :
    ∃ p, copyId nd after l x = .ok { l with s := { l.s with paths := p }, i := l.i + 1 } ∧
      p.toList.take (l.i + 1) = l.s.paths.toList.take l.i ++ [x] ∧
      ∀ n ≤ l.i, p.toList.take n = l.s.paths.toList.take n := by
  have h1 : l.i < maxPathNodes := by unfold maxPathNodes at *; omega
  have h2 : ¬ maxPathNodes - 2 ≤ l.i + 1 := by unfold maxPathNodes at *; omega
  refine ⟨l.s.paths.set l.i x h1, by simp [copyId, h1, h2], ?_, fun n hn => take_set_paths h1 hn⟩
  rw [Vector.toList_set, take_succ_set (by simpa using h1)]

/-- The loop on a packet whose new ids fit: it appends them and sends nothing. The induction is on
the fuel; the ids below `paths_loc` stay, so what is present does not change on the way. -/
theorem copyPaths_fits (nd : Node) (after : TopologyInfo → TopologyInfo → TopologyInfo) :
    ∀ (fuel j : Nat) (l : Copy), l.resp.pathindex.toNat ≤ j + fuel → l.s.pathsLoc ≤ l.i →
      l.i + (fresh l.s (l.resp.ids.drop j)).length ≤ maxPathNodes - 3 →
      ∃ p, copyPaths nd after fuel j l =
          .ok { l with
            s := { l.s with paths := p }
            i := l.i + (fresh l.s (l.resp.ids.drop j)).length } ∧
        p.toList.take (l.i + (fresh l.s (l.resp.ids.drop j)).length) =
          l.s.paths.toList.take l.i ++ fresh l.s (l.resp.ids.drop j) := by
  intro fuel
  induction fuel with
  | zero =>
    intro j l hj _ _
    have hd : l.resp.ids.drop j = [] := by
      apply List.drop_eq_nil_of_le
      simpa [TopologyInfo.ids] using hj
    exact ⟨l.s.paths, by simp [copyPaths, hd, fresh], by simp [hd, fresh]⟩
  | succ fuel ih =>
    intro j l hj hloc hfit
    by_cases hlt : j < l.resp.pathindex.toNat
    · rw [ids_drop hlt] at hfit ⊢
      rw [copyPaths, if_pos hlt]
      by_cases hpres : isPresentPaths l.s (l.resp.path.getD j 0) = true
      · have hf : fresh l.s (l.resp.path.getD j 0 :: l.resp.ids.drop (j + 1)) =
            fresh l.s (l.resp.ids.drop (j + 1)) := fresh_cons_present hpres
        rw [if_pos hpres, hf]
        exact ih (j + 1) l (by omega) hloc (by rwa [hf] at hfit)
      · have hf : fresh l.s (l.resp.path.getD j 0 :: l.resp.ids.drop (j + 1)) =
            l.resp.path.getD j 0 :: fresh l.s (l.resp.ids.drop (j + 1)) := fresh_cons_new hpres
        rw [if_neg hpres]
        rw [hf, List.length_cons] at hfit
        obtain ⟨p, hp, htake, hsame⟩ :=
          copyId_fits nd after (x := l.resp.path.getD j 0) (l := l) (by omega)
        have hf' : fresh { l.s with paths := p } (l.resp.ids.drop (j + 1)) =
            fresh l.s (l.resp.ids.drop (j + 1)) := by
          simp [fresh, isPresentPaths, hsame _ hloc]
        obtain ⟨p', hp', htake'⟩ := ih (j + 1)
          { l with s := { l.s with paths := p }, i := l.i + 1 } (by simp; omega) (by simp; omega)
          (by simp only [hf']; omega)
        simp only [hf'] at hp' htake'
        refine ⟨p', ?_, ?_⟩
        · rw [hp]
          simp only [hp', hf, List.length_cons]
          congr 2
          omega
        · rw [hf, List.length_cons,
            show l.i + ((fresh l.s (l.resp.ids.drop (j + 1))).length + 1) =
              l.i + 1 + (fresh l.s (l.resp.ids.drop (j + 1))).length by omega, htake', htake]
          simp
    · have hd : l.resp.ids.drop j = [] := by
        apply List.drop_eq_nil_of_le
        simpa [TopologyInfo.ids] using hlt
      rw [copyPaths, if_neg hlt]
      exact ⟨l.s.paths, by simp [hd, fresh], by simp [hd, fresh]⟩

/-- `s'` is `s` after a reset, up to the path entries and what a second-round request reports. -/
def Flushed (s s' : State) : Prop :=
  ∃ p sec mi mc, s' =
    { resetVariable s with
      paths := p, secChecksumChildren := sec, maxIndex := mi, myChecksum := mc }

theorem Flushed.checksums {s s' : State} (h : Flushed s s') : s'.checksums = [] := by
  obtain ⟨p, sec, mi, mc, rfl⟩ := h
  simp [State.checksums]

theorem Flushed.trans {s s' s'' : State} (h : Flushed s s') (h' : Flushed s' s'') :
    Flushed s s'' := by
  obtain ⟨p, sec, mi, mc, rfl⟩ := h
  obtain ⟨p', sec', mi', mc', rfl⟩ := h'
  exact ⟨p', sec', mi', mc', by simp [resetVariable, ChildList.restChildList_idem]⟩

theorem Flushed.of_paths {s s' : State} {p : Vector NodeId maxPathNodes}
    (h : Flushed { s with paths := p } s') : Flushed s s' := by
  obtain ⟨p', sec, mi, mc, rfl⟩ := h
  exact ⟨p', sec, mi, mc, rfl⟩

theorem Flushed.set_paths {s s' : State} (h : Flushed s s') (p : Vector NodeId maxPathNodes) :
    Flushed s { s' with paths := p } := by
  obtain ⟨p', sec, mi, mc, rfl⟩ := h
  exact ⟨p, sec, mi, mc, rfl⟩

/-- The state the loop leaves when it sends a full path: `send_topology_resp` has reset the
variables, and they are reset again. -/
theorem flushed_reset {s : State} {p : Vector NodeId maxPathNodes} {n : Nat} {c : Checksum} :
    Flushed s (resetVariable (resetVariable
      { s with paths := p, pathsLoc := n, myChecksum := c })) :=
  ⟨Vector.replicate maxPathNodes 0, s.checksumChildren, 0, c,
    by simp [resetVariable, ChildList.restChildList_idem]⟩

/-- The ids the copying loop writes into `paths` from index `j` on. -/
def copiedIds (nd : Node) (after : TopologyInfo → TopologyInfo → TopologyInfo) :
    (fuel : Nat) → (j : Nat) → Copy → List NodeId
  | 0, _, _ => []
  | fuel + 1, j, l =>
    if j < l.resp.pathindex.toNat then
      if isPresentPaths l.s (l.resp.path.getD j 0) then copiedIds nd after fuel (j + 1) l
      else
        match copyId nd after l (l.resp.path.getD j 0) with
        | .error _ => []
        | .ok l' => l.resp.path.getD j 0 :: copiedIds nd after fuel (j + 1) l'
    else []

/-- What a stretch of the copying loop does, copying `new` and sending the packets `out`: ids in
`paths` stay there or go out, and either nothing is sent and only `paths` changes, or the first
packet takes all checksums with it. -/
structure Progress (nd : Node) (l l' : Copy) (new : List NodeId) (out : List TopologyInfo) :
    Prop where
  sent : l'.sent = l.sent ++ out
  i_le : l'.i ≤ maxPathNodes - 3
  pathsLoc_le : l'.s.pathsLoc ≤ l'.i
  kept : ∀ x ∈ l.s.paths.toList.take l.i ++ new,
    x ∈ l'.s.paths.toList.take l'.i ∨ ∃ o ∈ out, x ∈ o.path
  built : ∀ o ∈ out, ∃ s, s.pathsLoc ≤ maxPathNodes - 2 ∧ o = topologyResp nd s
  change : (out = [] ∧ l'.resp = l.resp ∧ ∃ p, l'.s = { l.s with paths := p }) ∨
    ∃ o os, out = o :: os ∧ o.checksum = xorAll l.s.checksums ^^^ ownChecksum nd.id ∧
      (∀ o' ∈ os, o'.checksum = ownChecksum nd.id) ∧ Flushed l.s l'.s

theorem Progress.refl {nd : Node} {l : Copy} (hi : l.i ≤ maxPathNodes - 3)
    (hloc : l.s.pathsLoc ≤ l.i) : Progress nd l l [] [] where
  sent := by simp
  i_le := hi
  pathsLoc_le := hloc
  kept := fun _ hx => .inl (by simpa using hx)
  built := by simp
  change := .inl ⟨rfl, rfl, l.s.paths, rfl⟩

theorem Progress.trans {nd : Node} {l l' l'' : Copy} {new new' : List NodeId}
    {out out' : List TopologyInfo} (h : Progress nd l l' new out)
    (h' : Progress nd l' l'' new' out') : Progress nd l l'' (new ++ new') (out ++ out') where
  sent := by rw [h'.sent, h.sent, List.append_assoc]
  i_le := h'.i_le
  pathsLoc_le := h'.pathsLoc_le
  kept := by
    intro x hx
    have later : x ∈ l'.s.paths.toList.take l'.i ++ new' →
        x ∈ l''.s.paths.toList.take l''.i ∨ ∃ o ∈ out ++ out', x ∈ o.path := by
      intro hx'
      rcases h'.kept x hx' with hx'' | ⟨o, ho, hxo⟩
      · exact .inl hx''
      · exact .inr ⟨o, List.mem_append_right _ ho, hxo⟩
    rw [← List.append_assoc] at hx
    rcases List.mem_append.1 hx with hx | hx
    · rcases h.kept x hx with hx' | ⟨o, ho, hxo⟩
      · exact later (List.mem_append_left _ hx')
      · exact .inr ⟨o, List.mem_append_left _ ho, hxo⟩
    · exact later (List.mem_append_right _ hx)
  built := by
    intro o ho
    rcases List.mem_append.1 ho with ho | ho
    · exact h.built o ho
    · exact h'.built o ho
  change := by
    rcases h.change with ⟨rfl, hr, p, hp⟩ | ⟨o, os, rfl, ho, hos, hf⟩ <;>
      rcases h'.change with ⟨rfl, hr', p', hp'⟩ | ⟨o', os', rfl, ho', hos', hf'⟩
    · exact .inl ⟨rfl, hr'.trans hr, p', by rw [hp', hp]⟩
    · rw [hp] at ho' hf'
      exact .inr ⟨o', os', rfl, ho', hos', hf'.of_paths⟩
    · exact .inr ⟨o, os, by simp, ho, hos, hp' ▸ hf.set_paths p'⟩
    · refine .inr ⟨o, os ++ o' :: os', by simp, ho, ?_, hf.trans hf'⟩
      -- after the first packet no checksum is left, so later packets carry the own one only
      intro x hx
      rw [hf.checksums] at ho'
      simp only [List.mem_append, List.mem_cons] at hx
      rcases hx with hx | rfl | hx
      · exact hos x hx
      · simpa using ho'
      · exact hos' x hx

/-- The id that fills the path: it goes out with everything waiting, and the variables are reset. -/
theorem copyId_full (nd : Node) (after : TopologyInfo → TopologyInfo → TopologyInfo) {l : Copy}
    (x : NodeId) (hcur : l.s.curLoc ≤ maxChild) (hi : l.i = maxPathNodes - 3) :
    ∃ p s₁, s₁ = { l.s with paths := p, pathsLoc := l.i + 1 } ∧
      s₁.ids = l.s.paths.toList.take l.i ++ [x] ∧
      copyId nd after l x = .ok
        { s := resetVariable (resetVariable { s₁ with myChecksum := ownChecksum nd.id })
          resp := if parents nd false = [] then l.resp else after l.resp (topologyResp nd s₁)
          i := 0
          sent := l.sent ++ [topologyResp nd s₁] } := by
  have h1 : l.i < maxPathNodes := by rw [hi]; decide
  let s₁ : State := { l.s with paths := l.s.paths.set l.i x h1, pathsLoc := l.i + 1 }
  have hsend : sendTopologyResp nd s₁ =
      .ok (resetVariable { s₁ with myChecksum := ownChecksum nd.id }, topologyResp nd s₁) :=
    sendTopologyResp_eq nd hcur (by simp only [s₁, hi]; decide)
  have hfull : maxPathNodes - 2 ≤ l.i + 1 := by rw [hi]; decide
  refine ⟨_, s₁, rfl, ?_, ?_⟩
  · simp only [State.ids, s₁]
    rw [Vector.toList_set, take_succ_set (by simpa using h1)]
  · simp only [copyId, h1, dif_pos, hfull, if_true]
    rw [hsend]

theorem copyId_progress (nd : Node) (after : TopologyInfo → TopologyInfo → TopologyInfo)
    {l : Copy} (x : NodeId) (hcur : l.s.curLoc ≤ maxChild) (hi : l.i ≤ maxPathNodes - 3)
    (hloc : l.s.pathsLoc ≤ l.i) :
    ∃ l' out, copyId nd after l x = .ok l' ∧ Progress nd l l' [x] out ∧
      l'.s.curLoc ≤ maxChild ∧ (l.i = maxPathNodes - 3 → out ≠ []) := by
  by_cases hlt : l.i < maxPathNodes - 3
  · obtain ⟨p, hp, htake, hsame⟩ := copyId_fits nd after (x := x) hlt
    refine ⟨_, [], hp, ⟨by simp, by simp; omega, by simp; omega, ?_, by simp, ?_⟩, hcur, by omega⟩
    · intro y hy
      left
      simpa only [htake] using hy
    · exact .inl ⟨rfl, rfl, p, rfl⟩
  · -- the path is full: everything in it goes out
    have h7 : l.i = maxPathNodes - 3 := by omega
    obtain ⟨p, s₁, rfl, hids, h⟩ := copyId_full nd after x hcur h7
    refine ⟨_, _, h, ⟨rfl, by simp, by simp, ?_, ?_, ?_⟩, by simp, by simp⟩
    · intro y hy
      refine .inr ⟨_, List.mem_singleton_self _, ?_⟩
      rw [topologyResp, hids]
      exact List.mem_append_left _ hy
    · intro o ho
      exact ⟨_, by simp only [h7]; decide, List.mem_singleton.1 ho⟩
    · exact .inr ⟨_, [], rfl, rfl, by simp, flushed_reset⟩

theorem copyPaths_progress (nd : Node) (after : TopologyInfo → TopologyInfo → TopologyInfo) :
    ∀ (fuel j : Nat) (l : Copy), l.s.curLoc ≤ maxChild → l.i ≤ maxPathNodes - 3 →
      l.s.pathsLoc ≤ l.i →
      ∃ l' out, copyPaths nd after fuel j l = .ok l' ∧
        Progress nd l l' (copiedIds nd after fuel j l) out ∧ l'.s.curLoc ≤ maxChild := by
  intro fuel
  induction fuel with
  | zero => intro j l hcur hi hloc; exact ⟨l, [], rfl, .refl hi hloc, hcur⟩
  | succ fuel ih =>
    intro j l hcur hi hloc
    by_cases hlt : j < l.resp.pathindex.toNat
    · rw [copyPaths, copiedIds, if_pos hlt, if_pos hlt]
      by_cases hpres : isPresentPaths l.s (l.resp.path.getD j 0) = true
      · rw [if_pos hpres, if_pos hpres]
        exact ih (j + 1) l hcur hi hloc
      · obtain ⟨l₁, out, h₁, hp₁, hc₁, _⟩ :=
          copyId_progress nd after (l.resp.path.getD j 0) hcur hi hloc
        obtain ⟨l₂, out', h₂, hp₂, hc₂⟩ := ih (j + 1) l₁ hc₁ hp₁.i_le hp₁.pathsLoc_le
        rw [if_neg hpres, if_neg hpres, h₁]
        exact ⟨l₂, out ++ out', h₂, hp₁.trans hp₂, hc₂⟩
    · rw [copyPaths, copiedIds, if_neg hlt, if_neg hlt]
      exact ⟨l, [], rfl, .refl hi hloc, hcur⟩

/-- The loop on a packet whose new ids do not fit sends at least once. -/
theorem copyPaths_overfull (nd : Node) (after : TopologyInfo → TopologyInfo → TopologyInfo) :
    ∀ (fuel j : Nat) (l l' : Copy), l.resp.pathindex.toNat ≤ j + fuel →
      l.s.curLoc ≤ maxChild → l.i ≤ maxPathNodes - 3 → l.s.pathsLoc ≤ l.i →
      maxPathNodes - 3 < l.i + (fresh l.s (l.resp.ids.drop j)).length →
      copyPaths nd after fuel j l = .ok l' → l.sent.length < l'.sent.length := by
  intro fuel
  induction fuel with
  | zero =>
    intro j l l' hj _ hi _ hover _
    have hd : l.resp.ids.drop j = [] := by
      apply List.drop_eq_nil_of_le
      simpa [TopologyInfo.ids] using hj
    rw [hd] at hover
    simp [fresh] at hover
    omega
  | succ fuel ih =>
    intro j l l' hj hcur hi hloc hover h
    by_cases hlt : j < l.resp.pathindex.toNat
    · rw [ids_drop hlt] at hover
      rw [copyPaths, if_pos hlt] at h
      by_cases hpres : isPresentPaths l.s (l.resp.path.getD j 0) = true
      · rw [if_pos hpres] at h
        rw [fresh_cons_present hpres] at hover
        exact ih (j + 1) l l' (by omega) hcur hi hloc hover h
      · rw [if_neg hpres] at h
        rw [fresh_cons_new hpres, List.length_cons] at hover
        by_cases hroom : l.i < maxPathNodes - 3
        · obtain ⟨p, hp, _, hsame⟩ :=
            copyId_fits nd after (x := l.resp.path.getD j 0) hroom
          have hf : fresh { l.s with paths := p } (l.resp.ids.drop (j + 1)) =
              fresh l.s (l.resp.ids.drop (j + 1)) := by
            simp [fresh, isPresentPaths, hsame _ hloc]
          simp only [hp] at h
          exact ih (j + 1) { l with s := { l.s with paths := p }, i := l.i + 1 } l' (by simp; omega)
            hcur (by simp; omega) (by simp; omega) (by simp only [hf]; omega) h
        · -- the first id that does not fit sends the full path
          obtain ⟨l₁, out, h₁, hprog, hc₁, hfull⟩ := copyId_progress nd after
            (l.resp.path.getD j 0) hcur hi hloc
          obtain ⟨l₂, out₂, h₂, hprog₂, _⟩ := copyPaths_progress nd after fuel
            (j + 1) l₁ hc₁ hprog.i_le hprog.pathsLoc_le
          simp only [h₁, h₂] at h
          cases h
          have hne := hfull (by omega)
          have : 0 < out.length := List.length_pos_iff.2 hne
          rw [hprog₂.sent, hprog.sent]
          simp only [List.length_append]
          omega
    · have hd : l.resp.ids.drop j = [] := by
        apply List.drop_eq_nil_of_le
        simpa [TopologyInfo.ids] using hlt
      rw [hd] at hover
      simp [fresh] at hover
      omega

/-! ## `process_topology_req` -/

theorem processTopologyReq_stranger {nd : Node}
    {after : TopologyInfo → TopologyInfo → TopologyInfo} {s : State} {t : TopologyInfo}
    {cid : NodeId} (h : s.childList.isChild cid = false) :
    processTopologyReq nd after s t cid = .ok (s, []) := by
  simp [processTopologyReq, h]

theorem acceptTopologyReq_overflow {nd : Node}
    {after : TopologyInfo → TopologyInfo → TopologyInfo} {s : State} {t : TopologyInfo}
    {cid : NodeId} (hcur : ¬ s.curLoc < maxChild) :
    acceptTopologyReq nd after s t cid = .error .checksumOverflow := by
  simp [acceptTopologyReq, storeChecksum, hcur]

theorem processTopologyReq_overflow {nd : Node}
    {after : TopologyInfo → TopologyInfo → TopologyInfo} {s : State} {t : TopologyInfo}
    {cid : NodeId} (hc : s.childList.isChild cid = true) (hcur : ¬ s.curLoc < maxChild) :
    processTopologyReq nd after s t cid = .error .checksumOverflow := by
  simp [processTopologyReq, hc, acceptTopologyReq_overflow hcur]

/-- The ids `process_topology_req` accepts into `paths` from a packet of a child. -/
def acceptedIds (nd : Node) (after : TopologyInfo → TopologyInfo → TopologyInfo) (s : State)
    (resp : TopologyInfo) (childId : NodeId) : List NodeId :=
  match storeChecksum
    { s with
      periodicTimer := s.periodicTimer.reset
      childList := (s.childList.childSetPktReceived childId).2 } resp.checksum with
  | .error _ => []
  | .ok s => copiedIds nd after 256 0 ⟨s, resp, s.pathsLoc, []⟩

/-- `s₂` is `s` with packet `t` of child `cid` taken in and its ids `new` accepted, before the
handler decides whether to respond. -/
structure Accepted (s : State) (t : TopologyInfo) (cid : NodeId) (new : List NodeId)
    (s₂ : State) : Prop where
  frame : ∃ a p n, s₂ =
    { s with
      checksumChildren := a
      curLoc := s.curLoc + 1
      paths := p
      pathsLoc := n
      maxLeafRank := if s.maxLeafRank < t.maxLeafRank then t.maxLeafRank else s.maxLeafRank
      childList := (s.childList.childSetPktReceived cid).2
      periodicTimer := s.periodicTimer.reset }
  checksums : s₂.checksums = s.checksums ++ [t.checksum]
  bounded : Bounded s₂
  kept : ∀ x ∈ s.ids ++ new, x ∈ s₂.ids

/-- What `process_topology_req` makes of a packet of a child: the next state and the responses. -/
inductive TopologyOutcome (nd : Node) (s : State) (t : TopologyInfo) (cid : NodeId)
    (new : List NodeId) : State → List TopologyInfo → Prop where
  /-- Other children are outstanding: the timer is set. -/
  | waits {s₂ : State} : Accepted s t cid new s₂ → s.curLoc + 1 ≠ s.childList.getChildCount →
      TopologyOutcome nd s t cid new
        { s₂ with periodicTimer := s₂.periodicTimer.set .sendTopologyResp } []
  /-- The packet count reached the number of children: respond. -/
  | completes {s₂ : State} : Accepted s t cid new s₂ → s.curLoc + 1 = s.childList.getChildCount →
      TopologyOutcome nd s t cid new
        (resetVariable { s₂ with myChecksum := ownChecksum nd.id }) [topologyResp nd s₂]
  /-- The path filled up: the aggregate went out in the middle of the packet, the rest waits. -/
  | splits {o : TopologyInfo} {os : List TopologyInfo} {p : Vector NodeId maxPathNodes} {n : Nat}
      {a sec : Vector Checksum maxChild} {mi : BitVec 8} {mc : Checksum} {r : Rank} :
      o.checksum = xorAll (s.checksums ++ [t.checksum]) ^^^ ownChecksum nd.id →
      (∀ o' ∈ os, o'.checksum = ownChecksum nd.id) →
      (∀ o' ∈ o :: os, ∃ s, s.pathsLoc ≤ maxPathNodes - 2 ∧ o' = topologyResp nd s) →
      n ≤ maxPathNodes - 3 →
      (∀ x ∈ s.ids ++ new, x ∈ p.toList.take n ∨ ∃ o' ∈ o :: os, x ∈ o'.path) →
      TopologyOutcome nd s t cid new
        { resetVariable s with
          checksumChildren := a
          paths := p
          pathsLoc := n
          secChecksumChildren := sec
          maxIndex := mi
          myChecksum := mc
          maxLeafRank := r
          periodicTimer := s.periodicTimer.set .sendTopologyResp } (o :: os)

theorem finishTopologyReq_accepted (nd : Node) {s s₂ : State} {t : TopologyInfo} {cid : NodeId}
    {new : List NodeId} (hacc : Accepted s t cid new s₂) :
    (s.curLoc + 1 = s.childList.getChildCount ∧ finishTopologyReq nd s₂ [] =
        .ok (resetVariable { s₂ with myChecksum := ownChecksum nd.id }, [topologyResp nd s₂])) ∨
      (s.curLoc + 1 ≠ s.childList.getChildCount ∧ finishTopologyReq nd s₂ [] =
        .ok ({ s₂ with periodicTimer := s₂.periodicTimer.set .sendTopologyResp }, [])) := by
  obtain ⟨a, p, n, hf⟩ := hacc.frame
  have hcur : s₂.curLoc = s.curLoc + 1 := by rw [hf]
  have hcnt : s₂.childList.getChildCount = s.childList.getChildCount := by rw [hf]; simp
  by_cases hcount : s.curLoc + 1 = s.childList.getChildCount
  · left
    have hsend := sendTopologyResp_eq nd hacc.bounded.curLoc_le
      (by have := hacc.bounded.pathsLoc_le; omega)
    rw [finishTopologyReq, if_pos (by rw [hcur, hcnt, hcount]), hsend]
    exact ⟨hcount, rfl⟩
  · right
    rw [finishTopologyReq, if_neg (by rw [hcur, hcnt]; exact hcount)]
    exact ⟨hcount, rfl⟩

/-- Accepting a packet whose new ids fit appends them in the packet's order. -/
theorem acceptTopologyReq_fits (nd : Node)
    (after : TopologyInfo → TopologyInfo → TopologyInfo) {s : State} {t : TopologyInfo}
    (cid : NodeId) (hcur : s.curLoc < maxChild)
    (hfit : s.pathsLoc + (fresh s t.ids).length ≤ maxPathNodes - 3) :
    ∃ s₂, acceptTopologyReq nd after s t cid = .ok (s₂, []) ∧
      Accepted s t cid (fresh s t.ids) s₂ ∧ s₂.ids = s.ids ++ fresh s t.ids := by
  obtain ⟨a, ha, htake⟩ := storeChecksum_eq (c := t.checksum)
    (s := { s with
      periodicTimer := s.periodicTimer.reset
      childList := (s.childList.childSetPktReceived cid).2 }) hcur
  let s₁ : State := { s with
    periodicTimer := s.periodicTimer.reset
    childList := (s.childList.childSetPktReceived cid).2
    checksumChildren := a
    curLoc := s.curLoc + 1 }
  have hfresh : fresh s₁ t.ids = fresh s t.ids := rfl
  obtain ⟨p, hp, hids⟩ := copyPaths_fits nd after 256 0 ⟨s₁, t, s.pathsLoc, []⟩
    (by have := t.pathindex.isLt; simp; omega) (by simp [s₁]) (by simpa [hfresh] using hfit)
  simp only [List.drop_zero, hfresh] at hp hids
  let l : Copy := ⟨{ s₁ with paths := p }, t, s.pathsLoc + (fresh s t.ids).length, []⟩
  have hids' : l.taken.ids = s.ids ++ fresh s t.ids := hids
  refine ⟨l.taken, by simp only [acceptTopologyReq, ha]; rw [hp], ?_, hids'⟩
  exact ⟨⟨a, p, _, rfl⟩, htake, ⟨hcur, hfit⟩, fun x hx => by rwa [hids']⟩

/-- Accepting a packet whose new ids do not fit sends a response on the way. -/
theorem acceptTopologyReq_overfull {nd : Node}
    {after : TopologyInfo → TopologyInfo → TopologyInfo} {s s₂ : State} {t : TopologyInfo}
    {cid : NodeId} {out : List TopologyInfo} (hb : Bounded s) (hcur : s.curLoc < maxChild)
    (hover : maxPathNodes - 3 < s.pathsLoc + (fresh s t.ids).length)
    (h : acceptTopologyReq nd after s t cid = .ok (s₂, out)) : out ≠ [] := by
  obtain ⟨a, ha, _⟩ := storeChecksum_eq (c := t.checksum)
    (s := { s with
      periodicTimer := s.periodicTimer.reset
      childList := (s.childList.childSetPktReceived cid).2 }) hcur
  simp only [acceptTopologyReq, ha] at h
  split at h
  · cases h
  · rename_i l hl
    cases h
    have hlen := copyPaths_overfull nd after 256 0 _ l (by have := t.pathindex.isLt; simp; omega)
      (by simp; omega) hb.pathsLoc_le (by simp) (by simpa [fresh, isPresentPaths] using hover) hl
    intro hnil
    simp [hnil] at hlen

theorem acceptTopologyReq_cases (nd : Node)
    (after : TopologyInfo → TopologyInfo → TopologyInfo) {s : State} (t : TopologyInfo)
    (cid : NodeId) (hb : Bounded s) (hcur : s.curLoc < maxChild) :
    ∃ s₂ out, acceptTopologyReq nd after s t cid = .ok (s₂, out) ∧
      ((out = [] ∧ Accepted s t cid (acceptedIds nd after s t cid) s₂) ∨
        ∃ o os, out = o :: os ∧
          o.checksum = xorAll (s.checksums ++ [t.checksum]) ^^^ ownChecksum nd.id ∧
          (∀ o' ∈ os, o'.checksum = ownChecksum nd.id) ∧
          (∀ o' ∈ o :: os, ∃ s, s.pathsLoc ≤ maxPathNodes - 2 ∧ o' = topologyResp nd s) ∧
          (∀ x ∈ s.ids ++ acceptedIds nd after s t cid,
            x ∈ s₂.ids ∨ ∃ o' ∈ o :: os, x ∈ o'.path) ∧
          s₂.pathsLoc ≤ maxPathNodes - 3 ∧
          ∃ a p n sec mi mc r, s₂ =
            { resetVariable s with
              checksumChildren := a
              paths := p
              pathsLoc := n
              secChecksumChildren := sec
              maxIndex := mi
              myChecksum := mc
              maxLeafRank := r
              periodicTimer := s.periodicTimer.reset }) := by
  obtain ⟨a, ha, htake⟩ := storeChecksum_eq (c := t.checksum)
    (s := { s with
      periodicTimer := s.periodicTimer.reset
      childList := (s.childList.childSetPktReceived cid).2 }) hcur
  obtain ⟨l, out, hl, hp, _⟩ := copyPaths_progress nd after 256 0
    ⟨{ s with
        periodicTimer := s.periodicTimer.reset
        childList := (s.childList.childSetPktReceived cid).2
        checksumChildren := a
        curLoc := s.curLoc + 1 }, t, s.pathsLoc, []⟩ (by simp; omega) hb.pathsLoc_le (by simp)
  have hsent : l.sent = out := by simpa using hp.sent
  have hnew : acceptedIds nd after s t cid = copiedIds nd after 256 0
      ⟨{ s with
          periodicTimer := s.periodicTimer.reset
          childList := (s.childList.childSetPktReceived cid).2
          checksumChildren := a
          curLoc := s.curLoc + 1 }, t, s.pathsLoc, []⟩ := by
    simp only [acceptedIds, ha]
  rw [hnew]
  refine ⟨l.taken, out, by simp only [acceptTopologyReq, ha, hl, hsent], ?_⟩
  rcases hp.change with ⟨rfl, hresp, p, hs⟩ | ⟨o, os, rfl, ho, hos, p, sec, mi, mc, hs⟩
  · left
    refine ⟨rfl, ⟨a, p, l.i, by simp [Copy.taken, hs, hresp]⟩, ?_,
      ⟨by simp [Copy.taken, hs]; omega, hp.i_le⟩, ?_⟩
    · simpa [State.checksums, Copy.taken, hs] using htake
    · intro x hx
      rcases hp.kept x hx with hx' | ⟨_, ho, _⟩
      · exact hx'
      · cases ho
  · right
    refine ⟨o, os, rfl, ?_, hos, hp.built, hp.kept, hp.i_le, a, l.s.paths, l.i,
      l.s.secChecksumChildren, l.s.maxIndex, l.s.myChecksum, l.taken.maxLeafRank,
      by simp [Copy.taken, hs, resetVariable]⟩
    rw [ho]
    simp only [State.checksums] at htake ⊢
    rw [htake]

theorem processTopologyReq_cases (nd : Node)
    (after : TopologyInfo → TopologyInfo → TopologyInfo) {s : State} (t : TopologyInfo)
    {cid : NodeId} (hb : Bounded s) (hc : s.childList.isChild cid = true)
    (hcur : s.curLoc < maxChild) :
    ∃ s' out, processTopologyReq nd after s t cid = .ok (s', out) ∧
      TopologyOutcome nd s t cid (acceptedIds nd after s t cid) s' out := by
  obtain ⟨s₂, out, hacc, h⟩ := acceptTopologyReq_cases nd after t cid hb hcur
  have hrun : processTopologyReq nd after s t cid = finishTopologyReq nd s₂ out := by
    simp only [processTopologyReq, hc, Bool.not_true, Bool.false_eq_true, if_false, hacc]
  rw [hrun]
  rcases h with ⟨rfl, h⟩ | ⟨o, os, rfl, ho, hos, hbuilt, hkept, hn, a, p, n, sec, mi, mc, r, rfl⟩
  · rcases finishTopologyReq_accepted nd h with ⟨hcount, hf⟩ | ⟨hcount, hf⟩
    · exact ⟨_, _, hf, .completes h hcount⟩
    · exact ⟨_, _, hf, .waits h hcount⟩
  · let s₃ : State :=
      { resetVariable s with
        checksumChildren := a
        paths := p
        pathsLoc := n
        secChecksumChildren := sec
        maxIndex := mi
        myChecksum := mc
        maxLeafRank := r
        periodicTimer := s.periodicTimer.set .sendTopologyResp }
    refine ⟨s₃, o :: os, ?_, .splits ho hos hbuilt hn hkept⟩
    -- after a split `cur_loc` is 0, and a relay that accepts a packet has children
    have hne : ¬ (0 = s.childList.getChildCount) := by
      have := ChildList.getChildCount_pos hc
      omega
    rw [finishTopologyReq, if_neg (by simpa using hne)]
    rfl

/-- The handler on a packet of a child whose new ids fit: they are appended in the packet's order,
and the packet count decides between response and timer. -/
theorem processTopologyReq_fits (nd : Node)
    (after : TopologyInfo → TopologyInfo → TopologyInfo) {s : State} {t : TopologyInfo}
    {cid : NodeId} (hc : s.childList.isChild cid = true) (hcur : s.curLoc < maxChild)
    (hfit : s.pathsLoc + (fresh s t.ids).length ≤ maxPathNodes - 3) :
    ∃ s₂, Accepted s t cid (fresh s t.ids) s₂ ∧ s₂.ids = s.ids ++ fresh s t.ids ∧
      ((s.curLoc + 1 = s.childList.getChildCount ∧ processTopologyReq nd after s t cid =
          .ok (resetVariable { s₂ with myChecksum := ownChecksum nd.id }, [topologyResp nd s₂])) ∨
        (s.curLoc + 1 ≠ s.childList.getChildCount ∧ processTopologyReq nd after s t cid =
          .ok ({ s₂ with periodicTimer := s₂.periodicTimer.set .sendTopologyResp }, []))) := by
  obtain ⟨s₂, hacc, h₂, hids⟩ := acceptTopologyReq_fits nd after cid hcur hfit
  have hrun : processTopologyReq nd after s t cid = finishTopologyReq nd s₂ [] := by
    simp only [processTopologyReq, hc, Bool.not_true, Bool.false_eq_true, if_false, hacc]
  rw [hrun]
  exact ⟨s₂, h₂, hids, finishTopologyReq_accepted nd h₂⟩

/-- A packet of a child makes the relay respond when it completes the count or overfills the
path. -/
theorem processTopologyReq_responds {nd : Node}
    {after : TopologyInfo → TopologyInfo → TopologyInfo} {s s' : State} {t : TopologyInfo}
    {cid : NodeId} {out : List TopologyInfo} (hb : Bounded s)
    (hc : s.childList.isChild cid = true) (hcur : s.curLoc < maxChild)
    (h : processTopologyReq nd after s t cid = .ok (s', out)) :
    out ≠ [] ↔ s.curLoc + 1 = s.childList.getChildCount ∨
      maxPathNodes - 3 < s.pathsLoc + (fresh s t.ids).length := by
  by_cases hfit : s.pathsLoc + (fresh s t.ids).length ≤ maxPathNodes - 3
  · obtain ⟨s₂, -, -, ⟨hcount, hp⟩ | ⟨hcount, hp⟩⟩ := processTopologyReq_fits nd after hc hcur hfit
    · rw [hp] at h
      cases h
      simp [hcount]
    · rw [hp] at h
      cases h
      simp only [ne_eq, not_true_eq_false, hcount, false_or, false_iff]
      omega
  · obtain ⟨s₂, sent, hacc, hcases⟩ := acceptTopologyReq_cases nd after t cid hb hcur
    have hsent := acceptTopologyReq_overfull hb hcur (by omega) hacc
    refine iff_of_true ?_ (.inr (by omega))
    simp only [processTopologyReq, hc, Bool.not_true, Bool.false_eq_true, if_false, hacc,
      finishTopologyReq] at h
    split at h
    · split at h
      · cases h
      · cases h
        simp
    · cases h
      exact hsent

/-! ## The own checksum -/

theorem sendTopologyResp_myChecksum {nd : Node} {s s' : State} {o : TopologyInfo}
    (h : sendTopologyResp nd s = .ok (s', o)) : s'.myChecksum = ownChecksum nd.id := by
  unfold sendTopologyResp at h
  split at h
  · cases h
  · rename_i combined s₁ hcomb
    split at h
    · cases h
    · cases h
      show s₁.myChecksum = _
      unfold getCombinedChecksum at hcomb
      split at hcomb
      · cases hcomb
      · simp only [attestMemory_eq] at hcomb
        cases hcomb
        rfl

theorem copyId_myChecksum {nd : Node} {after : TopologyInfo → TopologyInfo → TopologyInfo}
    {l l' : Copy} {x : NodeId} (h : copyId nd after l x = .ok l') :
    (l'.sent = l.sent ∧ l'.s.myChecksum = l.s.myChecksum) ∨
      l'.s.myChecksum = ownChecksum nd.id := by
  unfold copyId at h
  split at h
  · simp only at h
    split at h
    · split at h
      · cases h
      · rename_i s₁ o hsend
        cases h
        right
        show s₁.myChecksum = _
        exact sendTopologyResp_myChecksum hsend
    · cases h
      exact .inl ⟨rfl, rfl⟩
  · cases h

/-- The copying loop sends nothing and keeps `my_checksum`, or sets it to the own checksum. -/
theorem copyPaths_myChecksum {nd : Node} {after : TopologyInfo → TopologyInfo → TopologyInfo} :
    ∀ {fuel j : Nat} {l l' : Copy}, copyPaths nd after fuel j l = .ok l' →
      (l'.sent = l.sent ∧ l'.s.myChecksum = l.s.myChecksum) ∨
        l'.s.myChecksum = ownChecksum nd.id := by
  intro fuel
  induction fuel with
  | zero =>
    intro j l l' h
    cases h
    exact .inl ⟨rfl, rfl⟩
  | succ fuel ih =>
    intro j l l' h
    unfold copyPaths at h
    split at h
    · split at h
      · exact ih h
      · split at h
        · cases h
        · rename_i l₁ h₁
          rcases ih h with ⟨hs, hm⟩ | hm
          · rcases copyId_myChecksum h₁ with ⟨hs₁, hm₁⟩ | hm₁
            · exact .inl ⟨hs.trans hs₁, hm.trans hm₁⟩
            · exact .inr (hm.trans hm₁)
          · exact .inr hm
    · cases h
      exact .inl ⟨rfl, rfl⟩

theorem acceptTopologyReq_myChecksum {nd : Node}
    {after : TopologyInfo → TopologyInfo → TopologyInfo} {s s' : State} {t : TopologyInfo}
    {cid : NodeId} {sent : List TopologyInfo}
    (h : acceptTopologyReq nd after s t cid = .ok (s', sent)) :
    (sent = [] ∧ s'.myChecksum = s.myChecksum) ∨ s'.myChecksum = ownChecksum nd.id := by
  unfold acceptTopologyReq storeChecksum at h
  by_cases hcur : s.curLoc < maxChild
  · simp only [hcur, dif_pos] at h
    split at h
    · cases h
    · rename_i l hl
      cases h
      exact copyPaths_myChecksum hl
  · simp [hcur] at h

theorem processTopologyReq_myChecksum {nd : Node}
    {after : TopologyInfo → TopologyInfo → TopologyInfo} {s s' : State} {t : TopologyInfo}
    {cid : NodeId} {out : List TopologyInfo}
    (h : processTopologyReq nd after s t cid = .ok (s', out)) :
    (out = [] ∧ s'.myChecksum = s.myChecksum) ∨ s'.myChecksum = ownChecksum nd.id := by
  unfold processTopologyReq at h
  split at h
  · cases h
    exact .inl ⟨rfl, rfl⟩
  · split at h
    · cases h
    · rename_i s₁ sent hacc
      unfold finishTopologyReq at h
      split at h
      · split at h
        · cases h
        · rename_i s₂ o hsend
          cases h
          exact .inr (sendTopologyResp_myChecksum hsend)
      · cases h
        have hm := acceptTopologyReq_myChecksum hacc
        exact hm

end Relay

end Swarna
