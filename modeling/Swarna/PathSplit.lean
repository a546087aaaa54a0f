import Swarna.Datagrams

/-!
# Swarna.PathSplit

What becomes of the ids of a packet when the path fills up in the middle of it. The copying loop
sends the full path, resets, and goes on with what its packet pointer reads then.

* `CopyStep`: what one round of the loop does; `copyPaths_invariant`: the rule for the loop.
* `leftWaiting_overfull`: of a packet that is not overwritten, what is left over when its ids fill
  path after path waits in the end. `copyPaths_overwritten`: of one that is, only ids sent already.
* `nothing_lost_iff`: when every id of the packet and its leaf rank are kept or sent on.
  `lost_behind_full_path`: the third id of a packet is lost, as the second fills the path.
-/

namespace Swarna
namespace Relay

/-! ## One round of the copying loop -/

/-- The ids the presence test looks at. -/
def Copy.seen (l : Copy) : List NodeId := l.s.ids

/-- The ids written so far, `paths[0..i)`. -/
def Copy.waiting (l : Copy) : List NodeId := l.s.paths.toList.take l.i

structure Copy.Sane (l : Copy) : Prop where
  curLoc_le : l.s.curLoc ≤ maxChild
  i_le : l.i ≤ maxPathNodes - 3
  pathsLoc_le : l.s.pathsLoc ≤ l.i

theorem Copy.Sane.waiting_length {l : Copy} (h : l.Sane) : l.waiting.length = l.i := by
  have := h.i_le
  simp only [Copy.waiting, List.length_take, Vector.length_toList]
  unfold maxPathNodes at *
  omega

theorem Copy.Sane.seen_subset {l : Copy} (h : l.Sane) : l.seen ⊆ l.waiting :=
  (List.take_prefix_take_left h.pathsLoc_le).subset

/-- What a round does with the id `x` it reads. -/
inductive CopyStep (nd : Node) (after : TopologyInfo → TopologyInfo → TopologyInfo) (l : Copy)
    (x : NodeId) : Copy → Prop where
  | skip : x ∈ l.seen → CopyStep nd after l x l
  | append {l' : Copy} : x ∉ l.seen → l.i < maxPathNodes - 3 → l'.i = l.i + 1 →
      l'.waiting = l.waiting ++ [x] → l'.seen = l.seen →
      l'.s.maxLeafRank = l.s.maxLeafRank → l'.resp = l.resp → l'.sent = l.sent →
      CopyStep nd after l x l'
  /-- The path is full: it goes out with the own id, and the variables are reset. -/
  | full {l' : Copy} {o : TopologyInfo} : x ∉ l.seen → l.i = maxPathNodes - 3 →
      o.ids = l.waiting ++ [x] ++ [nd.id] → o.maxLeafRank = l.s.maxLeafRank → l'.waiting = [] →
      l'.seen = [] → l'.s.maxLeafRank = l.s.maxLeafRank →
      l'.resp = (if parents nd false = [] then l.resp else after l.resp o) →
      l'.sent = l.sent ++ [o] → CopyStep nd after l x l'

/-- `x` is in the path, or has gone out. -/
def Copy.Holds (l : Copy) (x : NodeId) : Prop := x ∈ l.waiting ∨ ∃ o ∈ l.sent, x ∈ o.ids

theorem CopyStep.holds {nd : Node} {after : TopologyInfo → TopologyInfo → TopologyInfo}
    {l l' : Copy} {x : NodeId} (hl : l.Sane) (h : CopyStep nd after l x l') : l'.Holds x := by
  cases h with
  | skip hx => exact .inl (hl.seen_subset hx)
  | append _ _ _ hw _ _ _ _ => exact .inl (by simp [hw])
  | @full _ o _ _ ho _ _ _ _ _ hs => exact .inr ⟨o, by simp [hs], by simp [ho]⟩

theorem CopyStep.holds_mono {nd : Node} {after : TopologyInfo → TopologyInfo → TopologyInfo}
    {l l' : Copy} {x : NodeId} (h : CopyStep nd after l x l') : ∀ y, l.Holds y → l'.Holds y := by
  intro y hy
  cases h with
  | skip _ => exact hy
  | append _ _ _ hw _ _ _ hs =>
    unfold Copy.Holds
    rw [hw, hs]
    exact hy.imp_left (List.mem_append_left _)
  | @full l' o _ _ ho _ _ _ _ _ hs =>
    refine .inr ?_
    rw [hs]
    rcases hy with hy | ⟨o', ho', hy⟩
    · exact ⟨o, by simp, by simp [ho, hy]⟩
    · exact ⟨o', List.mem_append_left _ ho', hy⟩

theorem isPresentPaths_iff {s : State} {x : NodeId} : isPresentPaths s x = true ↔ x ∈ s.ids := by
  simp [isPresentPaths, State.ids]

theorem copyId_step (nd : Node) (after : TopologyInfo → TopologyInfo → TopologyInfo) {l : Copy}
    {x : NodeId} (h : l.Sane) (hx : x ∉ l.seen) :
    ∃ l', copyId nd after l x = .ok l' ∧ l'.Sane ∧ CopyStep nd after l x l' := by
  have hi := h.i_le
  have hloc := h.pathsLoc_le
  by_cases hlt : l.i < maxPathNodes - 3
  · obtain ⟨p, hp, htake, hsame⟩ := copyId_fits nd after (x := x) hlt
    exact ⟨_, hp, ⟨h.curLoc_le, hlt, by simp; omega⟩,
      .append hx hlt rfl htake (hsame _ hloc) rfl rfl rfl⟩
  · have hfull : l.i = maxPathNodes - 3 := by omega
    obtain ⟨p, s₁, rfl, hids, hp⟩ := copyId_full nd after x h.curLoc_le hfull
    refine ⟨_, hp, ⟨Nat.zero_le _, Nat.zero_le _, Nat.le_refl _⟩,
      .full hx hfull ?_ rfl rfl (resetVariable_ids _) rfl rfl rfl⟩
    rw [topologyResp_ids, hids]
    · rfl
    · show l.i + 1 ≤ _
      rw [hfull]
      decide

/-- An invariant of the rounds holds when the loop ends, and then the packet has been read. -/
theorem copyPaths_invariant {nd : Node} {after : TopologyInfo → TopologyInfo → TopologyInfo}
    {P : Nat → Copy → Prop}
    (hstep : ∀ j l l', l.Sane → P j l → j < l.resp.pathindex.toNat →
      CopyStep nd after l (l.resp.path.getD j 0) l' → P (j + 1) l') :
    ∀ (fuel j : Nat) {l : Copy}, l.Sane → P j l → 256 ≤ j + fuel →
      ∃ l' j', copyPaths nd after fuel j l = .ok l' ∧ l'.Sane ∧ P j' l' ∧
        l'.resp.pathindex.toNat ≤ j' := by
  intro fuel
  induction fuel with
  | zero =>
    intro j l hl hP hj
    have := l.resp.pathindex.isLt
    exact ⟨l, j, rfl, hl, hP, by omega⟩
  | succ fuel ih =>
    intro j l hl hP hj
    by_cases hlt : j < l.resp.pathindex.toNat
    · rw [copyPaths, if_pos hlt]
      by_cases hpres : isPresentPaths l.s (l.resp.path.getD j 0) = true
      · rw [if_pos hpres]
        have hP' := hstep j l l hl hP hlt (.skip (isPresentPaths_iff.1 hpres))
        exact ih (j + 1) hl hP' (by omega)
      · rw [if_neg hpres]
        obtain ⟨l', hcopy, hl', hcs⟩ :=
          copyId_step nd after hl fun hx => hpres (isPresentPaths_iff.2 hx)
        rw [hcopy]
        exact ih (j + 1) hl' (hstep j l l' hl hP hlt hcs) (by omega)
    · rw [copyPaths, if_neg hlt]
      exact ⟨l, j, rfl, hl, hP, by omega⟩

theorem getD_mem_ids {t : TopologyInfo} {j : Nat} (h : j < t.pathindex.toNat) :
    t.path.getD j 0 ∈ t.ids := by
  refine List.mem_of_mem_drop (i := j) ?_
  rw [ids_drop h]
  exact List.mem_cons_self

theorem ids_drop_all {t : TopologyInfo} {j : Nat} (h : t.pathindex.toNat ≤ j) :
    t.ids.drop j = [] := by
  apply List.drop_eq_nil_of_le
  simpa [TopologyInfo.ids] using h

theorem fresh_congr {s s' : State} (h : s'.ids = s.ids) (ids : List NodeId) :
    fresh s' ids = fresh s ids := by
  have hpres : ∀ x, isPresentPaths s' x = isPresentPaths s x := by
    intro x
    show s'.ids.contains x = s.ids.contains x
    rw [h]
  simp only [fresh, hpres]

/-! ## A packet that does not fit -/

section Overfull

variable {nd : Node} {after : TopologyInfo → TopologyInfo → TopologyInfo} {s : State}
  {t : TopologyInfo} {cid : NodeId}

/-- The loop before its first round: the packet's checksum is stored in `a`. -/
def copyStart (s : State) (t : TopologyInfo) (cid : NodeId) (a : Vector Checksum maxChild) :
    Copy where
  s := { s with
    periodicTimer := s.periodicTimer.reset
    childList := (s.childList.childSetPktReceived cid).2
    checksumChildren := a
    curLoc := s.curLoc + 1 }
  resp := t
  i := s.pathsLoc
  sent := []

variable (t cid) in
theorem copyStart_sane (a : Vector Checksum maxChild) (hloc : s.pathsLoc ≤ maxPathNodes - 3)
    (hcur : s.curLoc < maxChild) : (copyStart s t cid a).Sane :=
  ⟨hcur, hloc, Nat.le_refl _⟩

variable (nd after t cid) in
/-- Accepting a packet is running the loop. -/
theorem acceptTopologyReq_copy (hloc : s.pathsLoc ≤ maxPathNodes - 3) (hcur : s.curLoc < maxChild) :
    ∃ a l out, copyPaths nd after 256 0 (copyStart s t cid a) = .ok l ∧
      acceptTopologyReq nd after s t cid = .ok (l.taken, l.sent) ∧ l.Sane ∧
      Progress nd (copyStart s t cid a) l (copiedIds nd after 256 0 (copyStart s t cid a)) out := by
  obtain ⟨a, ha, -⟩ := storeChecksum_eq (c := t.checksum)
    (s := { s with
      periodicTimer := s.periodicTimer.reset
      childList := (s.childList.childSetPktReceived cid).2 }) hcur
  obtain ⟨l, out, hl, hp, hle⟩ := copyPaths_progress nd after 256 0 (copyStart s t cid a) hcur hloc
    (Nat.le_refl _)
  refine ⟨a, l, out, hl, ?_, ⟨hle, hp.i_le, hp.pathsLoc_le⟩, hp⟩
  simp only [acceptTopologyReq, ha]
  rw [show copyPaths nd after 256 0 ⟨_, t, s.pathsLoc, []⟩ = .ok l from hl]

variable (nd after) in
/-- The handler on a packet whose new ids do not fit: the loop decides what waits and what was
sent, and the timer is set for the rest. -/
theorem processTopologyReq_overfull (hloc : s.pathsLoc ≤ maxPathNodes - 3)
    (hc : s.childList.isChild cid = true) (hcur : s.curLoc < maxChild)
    (hover : maxPathNodes - 3 < s.pathsLoc + (fresh s t.ids).length) :
    ∃ a l s', copyPaths nd after 256 0 (copyStart s t cid a) = .ok l ∧
      processTopologyReq nd after s t cid = .ok (s', l.sent) ∧ s'.ids = l.waiting ∧
      s'.maxLeafRank = l.taken.maxLeafRank := by
  obtain ⟨a, l, out, hl, hacc, -, hp⟩ :=
    acceptTopologyReq_copy nd after t cid hloc hcur
  have hsent : l.sent = out := hp.sent
  have hne := acceptTopologyReq_overfull ⟨Nat.le_of_lt hcur, hloc⟩ hcur hover hacc
  have hlen := ChildList.getChildCount_pos hc
  refine ⟨a, l, { l.taken with periodicTimer := l.taken.periodicTimer.set .sendTopologyResp }, hl,
    ?_, rfl, rfl⟩
  rcases hp.change with ⟨rfl, -⟩ | ⟨o, os, -, -, -, p, sec, mi, mc, hs⟩
  · exact absurd hsent hne
  · -- after a split `cur_loc` is 0, and a relay that accepts a packet has children
    have hcount : ¬ l.taken.curLoc = l.taken.childList.getChildCount := by
      have hcur₀ : l.taken.curLoc = 0 := by simp [Copy.taken, hs]
      have hcnt : l.taken.childList.getChildCount = s.childList.getChildCount := by
        simp [Copy.taken, hs, copyStart]
      omega
    simp only [processTopologyReq, hc, Bool.not_true, Bool.false_eq_true, if_false, hacc,
      finishTopologyReq, hcount]

/-! ## The packet stays readable -/

/-- What the loop leaves in `paths` of ids it can read to the end. -/
def leftWaiting : (seen waiting ids : List NodeId) → List NodeId
  | _, w, [] => w
  | seen, w, x :: xs =>
    if x ∈ seen then leftWaiting seen w xs
    else if w.length < maxPathNodes - 3 then leftWaiting seen (w ++ [x]) xs
    else leftWaiting [] [] xs

/-- What `ids` has behind the `n`-th id that is not in `seen`. -/
def behind (seen : List NodeId) : (n : Nat) → (ids : List NodeId) → List NodeId
  | 0, ids => ids
  | _ + 1, [] => []
  | n + 1, x :: ids => if x ∈ seen then behind seen (n + 1) ids else behind seen n ids

variable (s t) in
/-- The ids behind the one that fills the path. -/
def afterFull : List NodeId := behind s.ids (maxPathNodes - 2 - s.pathsLoc) t.ids

/-- What ids that fill one path after the other have behind the last full one. -/
def leftOver (ids : List NodeId) : List NodeId :=
  ids.drop ((maxPathNodes - 2) * (ids.length / (maxPathNodes - 2)))

/-- Nothing is written where the pointer reads: no parent is sent to, or the pointer has a copy. -/
def Readable (nd : Node) (p : Pointer) : Prop := p = .databuffer ∨ parents nd false = []

theorem Readable.resp {p : Pointer} (h : Readable nd p) (t o : TopologyInfo) :
    (if parents nd false = [] then t else p.after t o) = t := by
  rcases h with rfl | h
  · exact ite_self _
  · exact if_pos h

/-- The loop on a readable packet, `l` before round 0 and `v` before round `j`. -/
structure Reading (l : Copy) (j : Nat) (v : Copy) : Prop where
  resp : v.resp = l.resp
  left : leftWaiting v.seen v.waiting (l.resp.ids.drop j) =
    leftWaiting l.seen l.waiting l.resp.ids
  holds : ∀ x ∈ l.resp.ids.take j, v.Holds x

theorem Reading.step {p : Pointer} (hp : Readable nd p) {l v v' : Copy} {j : Nat} (hv : v.Sane)
    (h : Reading l j v) (hj : j < l.resp.pathindex.toNat)
    (hcs : CopyStep nd p.after v (l.resp.path.getD j 0) v') : Reading l (j + 1) v' := by
  have hlen := hv.waiting_length
  have hleft := h.left
  rw [ids_drop hj, leftWaiting] at hleft
  refine ⟨?_, ?_, ?_⟩
  · cases hcs with
    | skip _ => exact h.resp
    | append _ _ _ _ _ _ hr _ => exact hr.trans h.resp
    | full _ _ _ _ _ _ _ hr _ => rw [hr, hp.resp, h.resp]
  · cases hcs with
    | skip hx => rwa [if_pos hx] at hleft
    | append hx hi _ hw hseen _ _ _ =>
      rw [if_neg hx, if_pos (by omega)] at hleft
      rwa [hw, hseen]
    | full hx hi _ _ hw hseen _ _ _ =>
      rw [if_neg hx, if_neg (by omega)] at hleft
      rwa [hw, hseen]
  · intro x hx
    have hlen : j < l.resp.ids.length := by simpa [TopologyInfo.ids] using hj
    rw [List.take_succ_eq_append_getElem hlen] at hx
    rcases List.mem_append.1 hx with hx | hx
    · exact hcs.holds_mono x (h.holds x hx)
    · have hid : x = l.resp.path.getD j 0 := by simpa [TopologyInfo.ids] using hx
      rw [hid]
      exact hcs.holds hv

/-- A readable packet: what is left waiting, and no id is lost. -/
theorem copyPaths_readable {p : Pointer} (hp : Readable nd p) {l : Copy} (h : l.Sane) :
    ∃ l', copyPaths nd p.after 256 0 l = .ok l' ∧ l'.resp = l.resp ∧
      l'.waiting = leftWaiting l.seen l.waiting l.resp.ids ∧ ∀ x ∈ l.resp.ids, l'.Holds x := by
  obtain ⟨l', j, hcopy, -, hr, hend⟩ := copyPaths_invariant (P := Reading l)
    (fun j v v' hv hr hj hcs => by
      rw [hr.resp] at hj hcs
      exact hr.step hp hv hj hcs)
    256 0 h ⟨rfl, rfl, by simp⟩ (by omega)
  rw [hr.resp] at hend
  have hleft := hr.left
  rw [ids_drop_all hend, leftWaiting] at hleft
  refine ⟨l', hcopy, hr.resp, hleft, fun x hx => hr.holds x ?_⟩
  rwa [List.take_of_length_le (by simpa [TopologyInfo.ids] using hend)]

/-! ## The packet is overwritten -/

/-- What the full path goes out with: the ids waiting, those of the packet that fill it, and the
relay's own. -/
def fullPath (nd : Node) (s : State) (t : TopologyInfo) : List NodeId :=
  s.ids ++ (fresh s t.ids).take (maxPathNodes - 2 - s.pathsLoc) ++ [nd.id]

/-- The loop before round `j`, when the pointer reads what is sent. Until the path is full it reads
packet `t`; from then on it has no other ids than those of the full path. -/
structure Overwriting (nd : Node) (s : State) (t : TopologyInfo) (j : Nat) (v : Copy) : Prop where
  rank : v.s.maxLeafRank = s.maxLeafRank
  phase : (v.resp = t ∧ maxPathNodes - 3 < v.i + (fresh v.s (t.ids.drop j)).length ∧
      v.waiting ++ (fresh v.s (t.ids.drop j)).take (maxPathNodes - 2 - v.i) ++ [nd.id] =
        fullPath nd s t ∧ v.sent = []) ∨
    (v.resp.maxLeafRank = s.maxLeafRank ∧ v.resp.ids ⊆ fullPath nd s t ∧
      v.waiting ⊆ fullPath nd s t ∧ (∀ o ∈ v.sent, o.ids ⊆ fullPath nd s t) ∧
      ∃ o ∈ v.sent, o.ids = fullPath nd s t)

theorem own_mem_fullPath (nd : Node) (s : State) (t : TopologyInfo) :
    nd.id ∈ fullPath nd s t := by
  simp [fullPath]

theorem Overwriting.step (hpar : parents nd false ≠ []) {v v' : Copy} {j : Nat} (hv : v.Sane)
    (h : Overwriting nd s t j v) (hj : j < v.resp.pathindex.toNat)
    (hcs : CopyStep nd Pointer.uipAppdata.after v (v.resp.path.getD j 0) v') :
    Overwriting nd s t (j + 1) v' := by
  have hi := hv.i_le
  rcases h.phase with ⟨hresp, hover, hpath, hsent⟩ | ⟨hrank, hids, hwait, hall, o₀, ho₀, hfull⟩
  · rw [hresp] at hj hcs
    rw [ids_drop hj] at hover hpath
    cases hcs with
    | skip hx =>
      rw [fresh_cons_present (isPresentPaths_iff.2 hx)] at hover hpath
      exact ⟨h.rank, .inl ⟨hresp, hover, hpath, hsent⟩⟩
    | append hx hi' hn hw hseen hr hp hs =>
      have hf := fresh_congr hseen (t.ids.drop (j + 1))
      rw [fresh_cons_new fun hx' => hx (isPresentPaths_iff.1 hx')] at hover hpath
      rw [List.length_cons] at hover
      have hroom : maxPathNodes - 2 - v.i = maxPathNodes - 2 - v'.i + 1 := by
        rw [hn]
        unfold maxPathNodes at *
        omega
      rw [hroom, List.take_succ_cons] at hpath
      refine ⟨hr.trans h.rank, .inl ⟨hp.trans hresp, by rw [hf, hn]; omega, ?_, hs.trans hsent⟩⟩
      rw [hf, hw, ← hpath]
      simp
    | @full _ o hx hi' ho hor hw hseen hr hp hs =>
      rw [fresh_cons_new fun hx' => hx (isPresentPaths_iff.1 hx')] at hover hpath
      have hofull : o.ids = fullPath nd s t := by
        rw [ho, ← hpath, hi']
        rfl
      rw [if_neg hpar] at hp
      have hpo : v'.resp = o := hp
      refine ⟨hr.trans h.rank, .inr ⟨?_, ?_, ?_, ?_, o, ?_, hofull⟩⟩
      · rw [hpo, hor, h.rank]
      · rw [hpo, hofull]
        exact List.Subset.refl _
      · simp [hw]
      · simp [hs, hsent, hofull]
      · simp [hs]
  · have hx := hids (getD_mem_ids hj)
    cases hcs with
    | skip _ => exact ⟨h.rank, .inr ⟨hrank, hids, hwait, hall, o₀, ho₀, hfull⟩⟩
    | append _ _ _ hw _ hr hp hs =>
      refine ⟨hr.trans h.rank, .inr ⟨by rw [hp]; exact hrank, by rw [hp]; exact hids, ?_,
        by rw [hs]; exact hall, o₀, by rw [hs]; exact ho₀, hfull⟩⟩
      rw [hw]
      exact List.append_subset.2 ⟨hwait, by simpa using hx⟩
    | @full _ o _ _ ho hor hw _ hr hp hs =>
      rw [if_neg hpar] at hp
      have hpo : v'.resp = o := hp
      have hosub : o.ids ⊆ fullPath nd s t := by
        rw [ho]
        refine List.append_subset.2 ⟨List.append_subset.2 ⟨hwait, by simpa using hx⟩, ?_⟩
        simpa using own_mem_fullPath nd s t
      refine ⟨hr.trans h.rank, .inr ⟨?_, ?_, ?_, ?_, o₀, ?_, hfull⟩⟩
      · rw [hpo, hor, h.rank]
      · rw [hpo]
        exact hosub
      · simp [hw]
      · intro o' ho'
        rw [hs] at ho'
        rcases List.mem_append.1 ho' with ho' | ho'
        · exact hall o' ho'
        · rw [List.mem_singleton.1 ho']
          exact hosub
      · rw [hs]
        exact List.mem_append_left _ ho₀

variable (cid) in
/-- A packet that is overwritten while its ids are copied: what waits or has gone out are the ids of
the full path. -/
theorem copyPaths_overwritten (a : Vector Checksum maxChild) (hpar : parents nd false ≠ [])
    (hloc : s.pathsLoc ≤ maxPathNodes - 3) (hcur : s.curLoc < maxChild)
    (hover : maxPathNodes - 3 < s.pathsLoc + (fresh s t.ids).length) :
    ∃ l, copyPaths nd Pointer.uipAppdata.after 256 0 (copyStart s t cid a) = .ok l ∧
      l.taken.maxLeafRank = s.maxLeafRank ∧ ∀ x, l.Holds x ↔ x ∈ fullPath nd s t := by
  obtain ⟨l, j, hcopy, hl, ⟨hrank, hphase⟩, hend⟩ := copyPaths_invariant
    (P := Overwriting nd s t) (fun _ _ _ hv h hj hcs => h.step hpar hv hj hcs)
    256 0 (copyStart_sane t cid a hloc hcur) ⟨rfl, .inl ⟨rfl, hover, rfl, rfl⟩⟩ (by omega)
  refine ⟨l, hcopy, ?_⟩
  rcases hphase with ⟨hresp, hmore, -⟩ | ⟨hrespRank, -, hwait, hall, o, ho, hfull⟩
  · -- the packet cannot end before the path is full
    rw [hresp] at hend
    rw [ids_drop_all hend] at hmore
    have := hl.i_le
    simp [fresh] at hmore
    omega
  · refine ⟨by simp [Copy.taken, hrank, hrespRank], fun x => ⟨?_, fun hx => ?_⟩⟩
    · rintro (hx | ⟨o', ho', hx⟩)
      · exact hwait hx
      · exact hall o' ho' hx
    · exact .inr ⟨o, ho, by rwa [hfull]⟩

/-! ## No id and no leaf rank is lost -/

theorem leftWaiting_emptied {w ids : List NodeId} (h : w.length ≤ maxPathNodes - 3) :
    leftWaiting [] w ids = leftOver (w ++ ids) := by
  have hmax : maxPathNodes - 2 = maxPathNodes - 3 + 1 := rfl
  induction ids generalizing w with
  | nil =>
    rw [leftWaiting, leftOver, List.append_nil, Nat.div_eq_of_lt (by omega)]
    rfl
  | cons x ids ih =>
    rw [leftWaiting, if_neg List.not_mem_nil]
    by_cases hlt : w.length < maxPathNodes - 3
    · rw [if_pos hlt, ih (by simp; omega), List.append_assoc, List.singleton_append]
    · have hfull : (w ++ [x]).length = maxPathNodes - 2 := by
        rw [List.length_append, List.length_singleton]
        omega
      rw [if_neg hlt, ih (Nat.zero_le _), List.append_cons, List.nil_append, leftOver, leftOver,
        List.length_append, hfull, Nat.add_div_left _ (by decide), Nat.mul_succ, Nat.add_comm,
        ← List.drop_drop, List.drop_left' hfull]

theorem leftWaiting_overfull {w ids : List NodeId} {n : Nat} (hn : w.length + n = maxPathNodes - 2)
    (hpos : 0 < n) (h : n ≤ (fresh s ids).length) :
    leftWaiting s.ids w ids = leftOver (behind s.ids n ids) := by
  induction ids generalizing w n with
  | nil => exact absurd h (Nat.not_le.2 hpos)
  | cons x ids ih =>
    obtain ⟨n, rfl⟩ := Nat.exists_eq_succ_of_ne_zero hpos.ne'
    rw [leftWaiting, behind]
    by_cases hx : x ∈ s.ids
    · rw [fresh_cons_present (isPresentPaths_iff.2 hx)] at h
      rw [if_pos hx, if_pos hx]
      exact ih hn hpos h
    · rw [fresh_cons_new fun hx' => hx (isPresentPaths_iff.1 hx'), List.length_cons] at h
      rw [if_neg hx, if_neg hx]
      cases n with
      | zero => rw [if_neg (by omega), leftWaiting_emptied (by simp), List.nil_append, behind]
      | succ n =>
        rw [if_pos (by omega)]
        exact ih (by simp; omega) (Nat.succ_pos n) (by omega)

theorem mem_ids_fresh {x : NodeId} {ids : List NodeId} (h : x ∈ ids) :
    x ∈ s.ids ++ fresh s ids := by
  by_cases hx : x ∈ s.ids
  · exact List.mem_append_left _ hx
  · refine List.mem_append_right _ (List.mem_filter.2 ⟨h, ?_⟩)
    simpa [isPresentPaths, State.ids] using hx

variable (nd s t cid) in
/-- The handler keeps every id of the packet or sends it to a parent, and it keeps the leaf rank. -/
def NothingLost (p : Pointer) : Prop :=
  ∃ s' sent, processTopologyReq nd p.after s t cid = .ok (s', sent) ∧
    (∀ x ∈ t.ids, x ∈ s'.ids ∨ (parents nd false ≠ [] ∧ ∃ o ∈ sent, x ∈ o.ids)) ∧
    t.maxLeafRank ≤ s'.maxLeafRank

variable (nd s t) in
/-- When it does. A packet that fits is safe, but a relay without parents must not end the round
with it. Of one that does not fit, a relay without parents keeps what is left over; with a parent it
is safe if it is not overwritten, or brings nothing behind the id that fills the path and no greater
leaf rank. -/
def SplitSafe (p : Pointer) : Prop :=
  s.curLoc < maxChild ∧
    if s.pathsLoc + (fresh s t.ids).length ≤ maxPathNodes - 3 then
      parents nd false = [] → s.curLoc + 1 = s.childList.getChildCount → t.ids = []
    else if parents nd false = [] then
      ∀ x ∈ t.ids, x ∈ leftOver (afterFull s t)
    else
      p = .databuffer ∨ ((∀ x ∈ t.ids, x ∈ fullPath nd s t) ∧ t.maxLeafRank ≤ s.maxLeafRank)

theorem nothingLost_of_run {p : Pointer} {s' : State} {sent : List TopologyInfo}
    (h : processTopologyReq nd p.after s t cid = .ok (s', sent)) :
    NothingLost nd s t cid p ↔
      (∀ x ∈ t.ids, x ∈ s'.ids ∨ (parents nd false ≠ [] ∧ ∃ o ∈ sent, x ∈ o.ids)) ∧
        t.maxLeafRank ≤ s'.maxLeafRank := by
  constructor
  · rintro ⟨s₁, sent₁, h₁, hkept⟩
    rw [h] at h₁
    cases h₁
    exact hkept
  · exact fun hkept => ⟨s', sent, h, hkept⟩

theorem le_raised (r r' : Rank) : r' ≤ if r < r' then r' else r := by
  split
  · exact BitVec.le_refl _
  · rename_i h
    exact BitVec.not_lt.1 h

theorem nothing_lost_fits {p : Pointer} (hc : s.childList.isChild cid = true)
    (hcur : s.curLoc < maxChild)
    (hfit : s.pathsLoc + (fresh s t.ids).length ≤ maxPathNodes - 3) :
    NothingLost nd s t cid p ↔ SplitSafe nd s t p := by
  obtain ⟨s₂, hacc, hids, hcase⟩ := processTopologyReq_fits nd p.after hc hcur hfit
  have hmem : ∀ x ∈ t.ids, x ∈ s₂.ids := fun x hx => by rw [hids]; exact mem_ids_fresh hx
  have hrank : t.maxLeafRank ≤ s₂.maxLeafRank := by
    obtain ⟨a, q, n, rfl⟩ := hacc.frame
    exact le_raised s.maxLeafRank t.maxLeafRank
  rw [SplitSafe, if_pos hfit]
  rcases hcase with ⟨hcount, hrun⟩ | ⟨hcount, hrun⟩
  · rw [nothingLost_of_run hrun]
    have hloc : s₂.pathsLoc ≤ maxPathNodes - 2 := by have := hacc.bounded.pathsLoc_le; omega
    by_cases hpar : parents nd false = []
    · simp only [hpar, hcur, hcount, resetVariable_ids]
      simpa [List.eq_nil_iff_forall_not_mem] using fun _ => hrank
    · refine iff_of_true ⟨fun x hx => .inr ⟨hpar, _, List.mem_singleton_self _, ?_⟩, hrank⟩
        ⟨hcur, fun h => absurd h hpar⟩
      rw [topologyResp_ids hloc]
      exact List.mem_append_left _ (hmem x hx)
  · rw [nothingLost_of_run hrun]
    exact iff_of_true ⟨fun x hx => .inl (hmem x hx), hrank⟩ ⟨hcur, fun _ h => absurd h hcount⟩

theorem nothing_lost_overfull {p : Pointer} (hloc : s.pathsLoc ≤ maxPathNodes - 3)
    (hc : s.childList.isChild cid = true) (hcur : s.curLoc < maxChild)
    (hover : maxPathNodes - 3 < s.pathsLoc + (fresh s t.ids).length) :
    NothingLost nd s t cid p ↔ SplitSafe nd s t p := by
  obtain ⟨a, l, s', hcopy, hrun, hids, hrank⟩ :=
    processTopologyReq_overfull nd p.after hloc hc hcur hover
  rw [nothingLost_of_run hrun, hids, hrank, SplitSafe, if_neg (Nat.not_le.2 hover)]
  by_cases hp : Readable nd p
  · obtain ⟨l', hcopy', hresp, hleft, hkept⟩ :=
      copyPaths_readable hp (copyStart_sane t cid a hloc hcur)
    rw [hcopy] at hcopy'
    cases hcopy'
    have hraised : t.maxLeafRank ≤ l.taken.maxLeafRank := by
      rw [Copy.taken, hresp]
      exact le_raised l.s.maxLeafRank t.maxLeafRank
    have hwait : l.waiting = leftOver (afterFull s t) := by
      have hleft : l.waiting = leftWaiting s.ids s.ids t.ids := hleft
      have hlen : s.ids.length = s.pathsLoc := (copyStart_sane t cid a hloc hcur).waiting_length
      have hmax : maxPathNodes - 2 = maxPathNodes - 3 + 1 := rfl
      rw [hleft, leftWaiting_overfull (n := maxPathNodes - 2 - s.pathsLoc) (by omega) (by omega)
        (by omega), afterFull]
    by_cases hpar : parents nd false = []
    · simp only [hpar, hcur, if_true, hwait]
      simpa using fun _ => hraised
    · refine iff_of_true ⟨fun x hx => (hkept x hx).imp_right fun h => ⟨hpar, h⟩, hraised⟩ ⟨hcur, ?_⟩
      rw [if_neg hpar]
      exact .inl (hp.resolve_right hpar)
  · simp only [Readable, not_or] at hp
    cases p with
    | databuffer => exact absurd rfl hp.1
    | uipAppdata =>
      obtain ⟨l', hcopy', htaken, hholds⟩ :=
        copyPaths_overwritten cid a hp.2 hloc hcur hover
      rw [hcopy] at hcopy'
      cases hcopy'
      have hout : ∀ x, (x ∈ l.waiting ∨ (parents nd false ≠ [] ∧ ∃ o ∈ l.sent, x ∈ o.ids)) ↔
          x ∈ fullPath nd s t := by
        intro x
        rw [← hholds x]
        exact or_congr_right (and_iff_right hp.2)
      simp only [hout, htaken, hcur, hp.2, if_false, true_and]
      simp

theorem nothing_lost_iff {p : Pointer} (hloc : s.pathsLoc ≤ maxPathNodes - 3)
    (hc : s.childList.isChild cid = true) : NothingLost nd s t cid p ↔ SplitSafe nd s t p := by
  by_cases hcur : s.curLoc < maxChild
  · by_cases hfit : s.pathsLoc + (fresh s t.ids).length ≤ maxPathNodes - 3
    · exact nothing_lost_fits hc hcur hfit
    · exact nothing_lost_overfull hloc hc hcur (by omega)
  · refine iff_of_false ?_ fun h => hcur h.1
    rintro ⟨s', sent, hrun, -⟩
    rw [processTopologyReq_overflow hc hcur] at hrun
    cases hrun

end Overfull

/-- Six ids wait, and a packet brings three, two of which fill the path. On the broadcast port the
pointer reads a copy. -/
theorem nothing_lost_split :
    ∃ t s, sampleMachine.Run (init twoChildren) t s ∧ s.ids = [11, 12, 13, 14, 15, 16] ∧
      maxPathNodes - 3 < s.pathsLoc + (fresh s [21, 22, 23]).length ∧
      NothingLost sampleNode s ⟨3, [21, 22, 23], 768, 9⟩ 3 .databuffer := by
  have hr : sampleMachine.Run (init twoChildren)
      [(.tcpip 2 (.topology ⟨6, [11, 12, 13, 14, 15, 16], 0, 7⟩), _)] _ :=
    .next (t := []) .start trivial rfl
  refine ⟨_, _, hr, rfl, by decide, (nothing_lost_iff (by decide) rfl).2 ⟨by decide, ?_⟩⟩
  rw [if_neg (by decide), if_neg (by decide)]
  exact .inl rfl

/-- On the checksum port the third id is overwritten before it is read, and the leaf rank with
it. -/
theorem lost_behind_full_path :
    ∃ t s, sampleMachine.Run (init twoChildren) t s ∧ s.ids = [11, 12, 13, 14, 15, 16] ∧
      (∃ s' sent, processTopologyReq sampleNode Pointer.uipAppdata.after s
          ⟨3, [21, 22, 23], 768, 9⟩ 3 = .ok (s', sent) ∧
        23 ∉ s'.ids ∧ (∀ o ∈ sent, 23 ∉ o.ids) ∧ s'.maxLeafRank = 0) ∧
      ¬ NothingLost sampleNode s ⟨3, [21, 22, 23], 768, 9⟩ 3 .uipAppdata := by
  have hr : sampleMachine.Run (init twoChildren)
      [(.tcpip 2 (.topology ⟨6, [11, 12, 13, 14, 15, 16], 0, 7⟩), _)] _ :=
    .next (t := []) .start trivial rfl
  refine ⟨_, _, hr, rfl, ⟨_, _, rfl, by decide, by decide, rfl⟩, ?_⟩
  rintro ⟨s', sent, hs, -, hrank⟩
  cases hs
  exact absurd hrank (by decide)

end Relay
end Swarna
