import Swarna.TopologyPackets

/-!
# Swarna.Datagrams

The response handlers on raw memory. `tcpip_handler` and `checksum_receiver` take what their pointer
points to for a `struct response_pkt`, whatever the length of the datagram was: a datagram of `len`
bytes fixes the first `len` bytes of that memory only.

* `bytesRead`: the bytes a handler reads, `pathReads`: the entries of `path` among them.
* `processTopologyReq_resp`: a handler that reads entries below `maxPathNodes` only makes the same
  of two packets that agree on these.
* `only_datagram_iff`: the handlers look at the datagram alone exactly when it has all fields its
  type byte promises, `checksum_children` has room, and the copying loop ends within the entries of
  `path`.
* `short_attestation`: a datagram of one byte.
-/

namespace Swarna
namespace Relay

/-! ## Memory -/

abbrev Memory := Nat → BitVec 8

def Memory.uint16 (m : Memory) (k : Nat) : BitVec 16 := m (k + 1) ++ m k

def Memory.uint64 (m : Memory) (k : Nat) : BitVec 64 :=
  m (k + 7) ++ m (k + 6) ++ m (k + 5) ++ m (k + 4) ++ m (k + 3) ++ m (k + 2) ++ m (k + 1) ++ m k

/-- `struct topology_info` from byte 1 on. `path` goes on as far as a `pathindex` can reach. -/
def topologyInfo (m : Memory) : TopologyInfo where
  pathindex := m 1
  path := (List.range 256).map fun j => m.uint16 (2 + 2 * j)
  maxLeafRank := m.uint16 22
  checksum := m.uint64 24

/-- `struct response_pkt`. -/
def responsePkt (m : Memory) : ResponsePkt :=
  if m 0 = topology then .topology (topologyInfo m)
  else if m 0 = attestation then .attestation (m.uint64 1)
  else .other (m 0)

/-- `sizeof(struct response_pkt)`. -/
def responseSize : Nat := 32

/-- What the packet pointer of a handler points into. -/
inductive Pointer where
  | uipAppdata
  | databuffer
  deriving DecidableEq, Repr

def Pointer.after : Pointer → TopologyInfo → TopologyInfo → TopologyInfo
  | .uipAppdata => Buffers.contiki.uipAppdata
  | .databuffer => Buffers.contiki.databuffer

def handleResponse (nd : Node) (p : Pointer) (s : State) (src : Addr) (m : Memory) :
    Except Fault (State × List Action) :=
  receive nd p.after s src (responsePkt m)

def tcpipHandler (nd : Node) (s : State) (src : Addr) (m : Memory) :
    Except Fault (State × List Action) :=
  handleResponse nd .uipAppdata s src m

def checksumReceiver (nd : Node) (s : State) (src : Addr) (m : Memory) :
    Except Fault (State × List Action) :=
  handleResponse nd .databuffer s src m

theorem step_broadcast (nd : Node) (s : State) (src : Addr) (m : Memory) :
    step nd .contiki s (.broadcast src (responsePkt m)) = checksumReceiver nd s src m := rfl

theorem step_tcpip (nd : Node) {s : State} (src : Addr) (m : Memory) (h : isLeaf s = false) :
    step nd .contiki s (.tcpip src (responsePkt m)) = tcpipHandler nd s src m := by
  unfold step
  rw [h]
  rfl

/-! ## What is read -/

def Access.read? : Access → Option Nat
  | .read j => some j
  | _ => none

/-- The entries of `path` a handler reads. -/
def pathReads (nd : Node) (p : Pointer) (s : State) (src : Addr) (m : Memory) : List Nat :=
  match responsePkt m with
  | .topology t =>
    if s.childList.isChild (getIdFromAddr src) then
      (topologyAccesses nd p.after s t (getIdFromAddr src)).filterMap Access.read?
    else []
  | _ => []

/-- The bytes a handler reads: the type, then the fields the branches taken look at. -/
def bytesRead (nd : Node) (p : Pointer) (s : State) (src : Addr) (m : Memory) : List Nat :=
  0 ::
    match responsePkt m with
    | .topology _ =>
      if s.childList.isChild (getIdFromAddr src) then
        List.range' 24 8 ++ [1] ++
          (pathReads nd p s src m).flatMap (fun j => List.range' (2 + 2 * j) 2) ++ List.range' 22 2
      else []
    | .attestation _ => List.range' 1 8
    | .other _ => []

/-- The handler, on a datagram of `len` bytes that lies in memory as `m`, looks at the datagram
alone: it reads nothing behind it and no entry behind `path`, and it comes to the same state and
sends the same, whatever else is in memory. -/
structure OnlyDatagram (nd : Node) (p : Pointer) (s : State) (src : Addr) (len : Nat)
    (m : Memory) : Prop where
  same : ∀ m' : Memory, (∀ k < len, m' k = m k) →
    ∃ r, handleResponse nd p s src m = .ok r ∧ handleResponse nd p s src m' = .ok r
  inside : ∀ k ∈ bytesRead nd p s src m, k < len
  entries : ∀ j ∈ pathReads nd p s src m, j < maxPathNodes

/-- The entries `path` has. -/
def TopologyInfo.entries (t : TopologyInfo) : List NodeId :=
  (List.range maxPathNodes).map fun j => t.path.getD j 0

/-- The copying loop ends within the entries: `pathindex` says so, or the path is full and goes out
before, and the pointer reads the packet just sent. -/
def EndsWithin (nd : Node) (p : Pointer) (s : State) (t : TopologyInfo) : Prop :=
  t.pathindex.toNat ≤ maxPathNodes ∨
    p = .uipAppdata ∧ parents nd false ≠ [] ∧
      maxPathNodes - 3 < s.pathsLoc + (fresh s (TopologyInfo.entries t)).length

/-- The datagram has the fields its type byte promises, and there is room for its checksum. -/
def Complete (nd : Node) (p : Pointer) (s : State) (src : Addr) (len : Nat) (m : Memory) : Prop :=
  0 < len ∧
    match responsePkt m with
    | .topology t =>
      s.childList.isChild (getIdFromAddr src) = true →
        responseSize ≤ len ∧ s.curLoc < maxChild ∧ EndsWithin nd p s t
    | .attestation _ => 9 ≤ len ∧ s.curLoc < maxChild
    | .other _ => True

/-! ## The copying loop on two packets -/

/-- Packets that agree on all fields, and on the entries of `path`. -/
structure SameFields (t t' : TopologyInfo) : Prop where
  pathindex : t'.pathindex = t.pathindex
  maxLeafRank : t'.maxLeafRank = t.maxLeafRank
  checksum : t'.checksum = t.checksum
  path : ∀ j < maxPathNodes, t'.path.getD j 0 = t.path.getD j 0

theorem SameFields.refl (t : TopologyInfo) : SameFields t t := ⟨rfl, rfl, rfl, fun _ _ => rfl⟩

theorem Pointer.after_same (p : Pointer) {t t' o : TopologyInfo} (h : SameFields t t') :
    SameFields (p.after t o) (p.after t' o) := by
  cases p with
  | uipAppdata => exact .refl o
  | databuffer => exact h

theorem copyId_resp {nd : Node} {p : Pointer} {l v : Copy} {t' : TopologyInfo} {x : NodeId}
    (ht : SameFields l.resp t') (h : copyId nd p.after l x = .ok v) :
    ∃ u, SameFields v.resp u ∧
      copyId nd p.after { l with resp := t' } x = .ok { v with resp := u } := by
  unfold copyId at h ⊢
  split at h
  · rename_i hi
    simp only [hi, dif_pos] at h ⊢
    split at h
    · rename_i hfull
      rw [if_pos hfull]
      split at h
      · cases h
      · rename_i s₁ o hsend
        cases h
        rw [hsend]
        refine ⟨if parents nd false = [] then t' else p.after t' o, ?_, rfl⟩
        show SameFields (if parents nd false = [] then l.resp else p.after l.resp o) _
        split
        · exact ht
        · exact p.after_same ht
    · rename_i hroom
      cases h
      rw [if_neg hroom]
      exact ⟨t', ht, rfl⟩
  · cases h

theorem copyPaths_resp {nd : Node} {p : Pointer} :
    ∀ {fuel j : Nat} {l v : Copy} {t' : TopologyInfo}, SameFields l.resp t' →
      (∀ k, .read k ∈ copyAccesses nd p.after fuel j l → k < maxPathNodes) →
      copyPaths nd p.after fuel j l = .ok v →
      ∃ u, SameFields v.resp u ∧
        copyPaths nd p.after fuel j { l with resp := t' } = .ok { v with resp := u } := by
  intro fuel
  induction fuel with
  | zero =>
    intro j l v t' ht _ h
    cases h
    exact ⟨t', ht, rfl⟩
  | succ fuel ih =>
    intro j l v t' ht hreads h
    by_cases hlt : j < l.resp.pathindex.toNat
    · rw [copyAccesses, if_pos hlt] at hreads
      rw [copyPaths, if_pos hlt] at h
      have hj : j < maxPathNodes := by
        refine hreads j ?_
        split <;> exact List.mem_cons_self
      have hlt' : j < t'.pathindex.toNat := by rw [ht.pathindex]; exact hlt
      rw [copyPaths, if_pos hlt', ht.path j hj]
      by_cases hpres : isPresentPaths l.s (l.resp.path.getD j 0) = true
      · rw [if_pos hpres] at h hreads
        rw [if_pos hpres]
        exact ih ht (fun k hk => hreads k (List.mem_cons_of_mem _ hk)) h
      · rw [if_neg hpres] at h hreads
        rw [if_neg hpres]
        cases hcopy : copyId nd p.after l (l.resp.path.getD j 0) with
        | error f =>
          rw [hcopy] at h
          cases h
        | ok v₁ =>
          rw [hcopy] at h hreads
          obtain ⟨u, hu, hcopy'⟩ := copyId_resp ht hcopy
          rw [hcopy']
          refine ih hu (fun k hk => hreads k ?_) h
          exact List.mem_cons_of_mem _ (List.mem_cons_of_mem _ (List.mem_append_right _ hk))
    · rw [copyPaths, if_neg hlt] at h
      cases h
      have hlt' : ¬ j < t'.pathindex.toNat := by rw [ht.pathindex]; exact hlt
      rw [copyPaths, if_neg hlt']
      exact ⟨t', ht, rfl⟩

/-- What the handler makes of a packet depends on the fields, and on the entries it reads. -/
theorem processTopologyReq_resp {nd : Node} {p : Pointer} {s : State} {t t' : TopologyInfo}
    {cid : NodeId} {r : State × List TopologyInfo} (hc : s.childList.isChild cid = true)
    (ht : SameFields t t')
    (hreads : ∀ k, .read k ∈ topologyAccesses nd p.after s t cid → k < maxPathNodes)
    (h : processTopologyReq nd p.after s t cid = .ok r) :
    processTopologyReq nd p.after s t' cid = .ok r := by
  simp only [processTopologyReq, hc, Bool.not_true, Bool.false_eq_true, if_false] at h ⊢
  have hacc : ∀ r, acceptTopologyReq nd p.after s t cid = .ok r →
      acceptTopologyReq nd p.after s t' cid = .ok r := by
    intro r hr
    unfold acceptTopologyReq at hr ⊢
    unfold topologyAccesses at hreads
    rw [ht.checksum]
    split at hr
    · cases hr
    · rename_i s₁ hstore
      rw [hstore] at hreads
      split at hr
      · cases hr
      · rename_i l hl
        cases hr
        obtain ⟨u, hu, hl'⟩ := copyPaths_resp (l := ⟨s₁, t, s₁.pathsLoc, []⟩) ht
          (fun k hk => hreads k (List.mem_append_left _ hk)) hl
        simp only at hl' ⊢
        rw [hl']
        simp only [Copy.taken, hu.maxLeafRank]
  split at h
  · cases h
  · rename_i s₂ sent hok
    rw [hacc _ hok]
    exact h

/-! ## Which entries are read -/

/-- The packet is overwritten only when a full path goes out from under the pointer. -/
theorem copyId_keeps {nd : Node} {p : Pointer} {l v : Copy} {x : NodeId}
    (hcur : l.s.curLoc ≤ maxChild) (hi : l.i ≤ maxPathNodes - 3)
    (hkeep : l.i < maxPathNodes - 3 ∨ p = .databuffer ∨ parents nd false = [])
    (h : copyId nd p.after l x = .ok v) : v.resp = l.resp := by
  by_cases hlt : l.i < maxPathNodes - 3
  · obtain ⟨q, hq, -⟩ := copyId_fits nd p.after (x := x) hlt
    rw [hq] at h
    cases h
    rfl
  · obtain ⟨q, s₁, -, -, hq⟩ := copyId_full nd p.after x hcur (by omega)
    rw [hq] at h
    cases h
    rcases hkeep with hroom | rfl | hpar
    · exact absurd hroom hlt
    · exact ite_self _
    · exact if_pos hpar

/-- The packet it is overwritten with has nine ids. -/
theorem copyId_overwrites {nd : Node} {l v : Copy} {x : NodeId} (hpar : parents nd false ≠ [])
    (hcur : l.s.curLoc ≤ maxChild) (hi : l.i = maxPathNodes - 3)
    (h : copyId nd Pointer.uipAppdata.after l x = .ok v) :
    v.resp.pathindex.toNat = maxPathNodes - 1 := by
  obtain ⟨q, s₁, hs₁, -, hq⟩ := copyId_full nd Pointer.uipAppdata.after x hcur hi
  rw [hq] at h
  cases h
  have hloc : s₁.pathsLoc = maxPathNodes - 2 := by
    rw [hs₁]
    show l.i + 1 = _
    unfold maxPathNodes at *
    omega
  show (if parents nd false = [] then l.resp else topologyResp nd s₁).pathindex.toNat = _
  rw [if_neg hpar, topologyResp_pathindex nd (by omega), hloc]
  rfl

/-- A packet of at most ten ids, or one that is overwritten by a packet of nine, is read within the
entries of `path`. -/
theorem reads_small {nd : Node} {p : Pointer} :
    ∀ (fuel j : Nat) {l : Copy}, l.resp.pathindex.toNat ≤ maxPathNodes →
      l.s.curLoc ≤ maxChild → l.i ≤ maxPathNodes - 3 → l.s.pathsLoc ≤ l.i →
      ∀ k, .read k ∈ copyAccesses nd p.after fuel j l → k < maxPathNodes := by
  intro fuel
  induction fuel with
  | zero => intro j l _ _ _ _ k hk; cases hk
  | succ fuel ih =>
    intro j l hidx hcur hi hloc k hk
    by_cases hlt : j < l.resp.pathindex.toNat
    · rw [copyAccesses, if_pos hlt] at hk
      by_cases hpres : isPresentPaths l.s (l.resp.path.getD j 0) = true
      · rw [if_pos hpres] at hk
        rcases List.mem_cons.1 hk with hk | hk
        · cases hk
          omega
        · exact ih (j + 1) hidx hcur hi hloc k hk
      · rw [if_neg hpres] at hk
        obtain ⟨v, out, hv, hprog, hcur', -⟩ :=
          copyId_progress nd p.after (l.resp.path.getD j 0) hcur hi hloc
        have hidx' : v.resp.pathindex.toNat ≤ maxPathNodes := by
          by_cases hkeep : l.i < maxPathNodes - 3 ∨ p = .databuffer ∨ parents nd false = []
          · rw [copyId_keeps hcur hi hkeep hv]
            exact hidx
          · simp only [not_or] at hkeep
            obtain ⟨hfull, hp, hpar⟩ := hkeep
            cases p with
            | databuffer => exact absurd rfl hp
            | uipAppdata =>
              have hnine := copyId_overwrites hpar hcur (by omega) hv
              omega
        simp only [hv, List.mem_cons, List.mem_append] at hk
        rcases hk with hk | hk | hk | hk
        · cases hk
          omega
        · cases hk
        · split at hk <;> simp at hk
        · exact ih (j + 1) hidx' hcur' hprog.i_le hprog.pathsLoc_le k hk
    · rw [copyAccesses, if_neg hlt] at hk
      cases hk

theorem entries_drop {t : TopologyInfo} {j : Nat} (h : j < maxPathNodes) :
    (TopologyInfo.entries t).drop j =
      t.path.getD j 0 :: (TopologyInfo.entries t).drop (j + 1) := by
  have hlen : j < (TopologyInfo.entries t).length := by simpa [TopologyInfo.entries] using h
  rw [List.drop_eq_getElem_cons hlen]
  simp [TopologyInfo.entries]

theorem entries_drop_all (t : TopologyInfo) {j : Nat} (h : maxPathNodes ≤ j) :
    (TopologyInfo.entries t).drop j = [] := by
  apply List.drop_eq_nil_of_le
  simpa [TopologyInfo.entries] using h

/-- When the entries fill the path, it goes out before the loop leaves them. -/
theorem reads_overwritten {nd : Node} (hpar : parents nd false ≠ []) :
    ∀ (fuel j : Nat) {l : Copy}, l.s.curLoc ≤ maxChild → l.i ≤ maxPathNodes - 3 →
      l.s.pathsLoc ≤ l.i →
      maxPathNodes - 3 < l.i + (fresh l.s ((TopologyInfo.entries l.resp).drop j)).length →
      ∀ k, .read k ∈ copyAccesses nd Pointer.uipAppdata.after fuel j l → k < maxPathNodes := by
  intro fuel
  induction fuel with
  | zero => intro j l _ _ _ _ k hk; cases hk
  | succ fuel ih =>
    intro j l hcur hi hloc hover k hk
    have hj : j < maxPathNodes := by
      by_contra hge
      rw [entries_drop_all l.resp (by omega)] at hover
      simp [fresh] at hover
      omega
    rw [entries_drop hj] at hover
    by_cases hlt : j < l.resp.pathindex.toNat
    · rw [copyAccesses, if_pos hlt] at hk
      by_cases hpres : isPresentPaths l.s (l.resp.path.getD j 0) = true
      · rw [if_pos hpres] at hk
        rw [fresh_cons_present hpres] at hover
        rcases List.mem_cons.1 hk with hk | hk
        · cases hk
          exact hj
        · exact ih (j + 1) hcur hi hloc hover k hk
      · rw [if_neg hpres] at hk
        rw [fresh_cons_new hpres, List.length_cons] at hover
        obtain ⟨v, out, hv, hprog, hcur', -⟩ :=
          copyId_progress nd Pointer.uipAppdata.after (l.resp.path.getD j 0) hcur hi hloc
        have hrest : ∀ k, .read k ∈ copyAccesses nd Pointer.uipAppdata.after fuel (j + 1) v →
            k < maxPathNodes := by
          by_cases hroom : l.i < maxPathNodes - 3
          · obtain ⟨q, hq, -, hsame⟩ :=
              copyId_fits nd Pointer.uipAppdata.after (x := l.resp.path.getD j 0) hroom
            rw [hq] at hv
            cases hv
            have hf : fresh { l.s with paths := q } ((TopologyInfo.entries l.resp).drop (j + 1)) =
                fresh l.s ((TopologyInfo.entries l.resp).drop (j + 1)) := by
              simp [fresh, isPresentPaths, hsame _ hloc]
            exact ih (j + 1) hcur hprog.i_le hprog.pathsLoc_le (by simp only [hf]; omega)
          · have hidx : v.resp.pathindex.toNat ≤ maxPathNodes := by
              have hnine := copyId_overwrites hpar hcur (by omega) hv
              omega
            exact reads_small fuel (j + 1) hidx hcur' hprog.i_le hprog.pathsLoc_le
        simp only [hv, List.mem_cons, List.mem_append] at hk
        rcases hk with hk | hk | hk | hk
        · cases hk
          exact hj
        · cases hk
        · split at hk <;> simp at hk
        · exact hrest k hk
    · rw [copyAccesses, if_neg hlt] at hk
      cases hk

/-- Otherwise a packet of more than ten ids is read behind `path`. -/
theorem reads_behind {nd : Node} {p : Pointer} :
    ∀ (fuel j : Nat) {l : Copy}, maxPathNodes < l.resp.pathindex.toNat → j ≤ maxPathNodes →
      maxPathNodes < j + fuel → l.s.curLoc ≤ maxChild → l.i ≤ maxPathNodes - 3 →
      l.s.pathsLoc ≤ l.i →
      (p = .databuffer ∨ parents nd false = [] ∨
        l.i + (fresh l.s ((TopologyInfo.entries l.resp).drop j)).length ≤ maxPathNodes - 3) →
      .read maxPathNodes ∈ copyAccesses nd p.after fuel j l := by
  intro fuel
  induction fuel with
  | zero => intro j l _ hj hfuel; omega
  | succ fuel ih =>
    intro j l hidx hj hfuel hcur hi hloc hkeep
    rw [copyAccesses, if_pos (by omega)]
    by_cases hten : j = maxPathNodes
    · subst hten
      split <;> exact List.mem_cons_self
    · have hj' : j < maxPathNodes := by omega
      rw [entries_drop hj'] at hkeep
      by_cases hpres : isPresentPaths l.s (l.resp.path.getD j 0) = true
      · rw [if_pos hpres]
        rw [fresh_cons_present hpres] at hkeep
        exact List.mem_cons_of_mem _ (ih (j + 1) hidx hj' (by omega) hcur hi hloc hkeep)
      · rw [if_neg hpres]
        rw [fresh_cons_new hpres, List.length_cons] at hkeep
        obtain ⟨v, out, hv, hprog, hcur', -⟩ :=
          copyId_progress nd p.after (l.resp.path.getD j 0) hcur hi hloc
        have hsame : v.resp = l.resp := by
          refine copyId_keeps hcur hi ?_ hv
          rcases hkeep with hp | hpar | hfit
          · exact .inr (.inl hp)
          · exact .inr (.inr hpar)
          · exact .inl (by omega)
        have hrest : .read maxPathNodes ∈ copyAccesses nd p.after fuel (j + 1) v := by
          refine ih (j + 1) (by rw [hsame]; exact hidx) hj' (by omega) hcur' hprog.i_le
            hprog.pathsLoc_le ?_
          rcases hkeep with hp | hpar | hfit
          · exact .inl hp
          · exact .inr (.inl hpar)
          · obtain ⟨q, hq, -, hpaths⟩ :=
              copyId_fits nd p.after (x := l.resp.path.getD j 0) (l := l) (by omega)
            rw [hq] at hv
            cases hv
            have hf : fresh { l.s with paths := q } ((TopologyInfo.entries l.resp).drop (j + 1)) =
                fresh l.s ((TopologyInfo.entries l.resp).drop (j + 1)) := by
              simp [fresh, isPresentPaths, hpaths _ hloc]
            exact .inr (.inr (by simp only [hf]; omega))
        rw [hv]
        exact List.mem_cons_of_mem _ (List.mem_cons_of_mem _ (List.mem_append_right _ hrest))

/-- The handler reads no entry behind `path` exactly when the loop ends within the entries. -/
theorem reads_within_iff {nd : Node} {p : Pointer} {s : State} {t : TopologyInfo} {cid : NodeId}
    (hb : Bounded s) (hcur : s.curLoc < maxChild) :
    (∀ k, .read k ∈ topologyAccesses nd p.after s t cid → k < maxPathNodes) ↔
      EndsWithin nd p s t := by
  obtain ⟨a, ha, -⟩ := storeChecksum_eq (c := t.checksum)
    (s := { s with
      periodicTimer := s.periodicTimer.reset
      childList := (s.childList.childSetPktReceived cid).2 }) hcur
  let s₁ : State := { s with
    periodicTimer := s.periodicTimer.reset
    childList := (s.childList.childSetPktReceived cid).2
    checksumChildren := a
    curLoc := s.curLoc + 1 }
  have hmem : ∀ k, .read k ∈ topologyAccesses nd p.after s t cid ↔
      .read k ∈ copyAccesses nd p.after 256 0 ⟨s₁, t, s.pathsLoc, []⟩ := by
    intro k
    simp only [topologyAccesses, ha]
    rw [List.mem_append]
    refine ⟨fun h => h.resolve_right fun hk => ?_, .inl⟩
    split at hk
    · cases hk
    · split at hk <;> simp at hk
  have hidx : t.pathindex.toNat < 256 := t.pathindex.isLt
  constructor
  · intro h
    by_contra hnot
    simp only [EndsWithin, not_or, not_and, not_lt, not_le] at hnot
    have hread : .read maxPathNodes ∈ copyAccesses nd p.after 256 0 ⟨s₁, t, s.pathsLoc, []⟩ := by
      refine reads_behind 256 0 hnot.1 (Nat.zero_le _) (by decide) hcur hb.pathsLoc_le
        (Nat.le_refl _) ?_
      cases p with
      | databuffer => exact .inl rfl
      | uipAppdata =>
        by_cases hpar : parents nd false = []
        · exact .inr (.inl hpar)
        · exact .inr (.inr (hnot.2 rfl hpar))
    exact absurd (h _ ((hmem _).2 hread)) (Nat.lt_irrefl _)
  · rintro (hsmall | ⟨rfl, hpar, hover⟩) k hk
    · exact reads_small 256 0 (l := ⟨s₁, t, s.pathsLoc, []⟩) hsmall hcur hb.pathsLoc_le
        (Nat.le_refl _) k ((hmem k).1 hk)
    · exact reads_overwritten hpar 256 0 (l := ⟨s₁, t, s.pathsLoc, []⟩) hcur hb.pathsLoc_le
        (Nat.le_refl _) hover k ((hmem k).1 hk)

/-! ## Packets in memory -/

theorem responsePkt_topology {m : Memory} {t : TopologyInfo} :
    responsePkt m = .topology t ↔ m 0 = topology ∧ t = topologyInfo m := by
  unfold responsePkt
  split
  · rename_i h
    simp [h, eq_comm]
  · rename_i h
    split <;> simp [h]

theorem responsePkt_attestation {m : Memory} {c : Checksum} :
    responsePkt m = .attestation c ↔ m 0 = attestation ∧ c = m.uint64 1 := by
  unfold responsePkt
  split
  · rename_i h
    simp [h, topology, attestation]
  · split
    · rename_i h
      simp [h, eq_comm]
    · rename_i h
      simp [h]

theorem responsePkt_other {m : Memory} {ty : BitVec 8} :
    responsePkt m = .other ty ↔ m 0 ≠ topology ∧ m 0 ≠ attestation ∧ ty = m 0 := by
  unfold responsePkt
  split
  · rename_i h
    simp [h]
  · rename_i h
    split
    · rename_i h'
      simp [h']
    · rename_i h'
      simp [h, h', eq_comm]

theorem uint16_congr {m m' : Memory} {len k : Nat} (h : ∀ k < len, m' k = m k)
    (hk : k + 1 < len) : m'.uint16 k = m.uint16 k := by
  unfold Memory.uint16
  rw [h k (by omega), h (k + 1) hk]

theorem uint64_congr {m m' : Memory} {len k : Nat} (h : ∀ k < len, m' k = m k)
    (hk : k + 7 < len) : m'.uint64 k = m.uint64 k := by
  unfold Memory.uint64
  rw [h k (by omega), h (k + 1) (by omega), h (k + 2) (by omega), h (k + 3) (by omega),
    h (k + 4) (by omega), h (k + 5) (by omega), h (k + 6) (by omega), h (k + 7) hk]

/-- A whole packet fixes all fields, and the entries of `path`. -/
theorem topologyInfo_same {m m' : Memory} {len : Nat} (h : ∀ k < len, m' k = m k)
    (hlen : responseSize ≤ len) : SameFields (topologyInfo m) (topologyInfo m') where
  pathindex := h 1 (by unfold responseSize at hlen; omega)
  maxLeafRank := uint16_congr h (by unfold responseSize at hlen; omega)
  checksum := uint64_congr h (by unfold responseSize at hlen; omega)
  path := by
    intro j hj
    unfold responseSize at hlen
    unfold maxPathNodes at hj
    have hj' : j < 256 := by omega
    simp only [topologyInfo, List.getD_eq_getElem?_getD, List.getElem?_map, List.getElem?_range hj',
      Option.map_some, Option.getD_some]
    exact uint16_congr h (by omega)

/-! ## The handlers -/

section Handlers

variable {nd : Node} {p : Pointer} {s : State} {src : Addr} {len : Nat} {m : Memory}

theorem only_attestation {c : Checksum} (hm : responsePkt m = .attestation c) :
    OnlyDatagram nd p s src len m ↔ 9 ≤ len ∧ s.curLoc < maxChild := by
  obtain ⟨h0, rfl⟩ := responsePkt_attestation.1 hm
  constructor
  · intro h
    obtain ⟨r, hr, -⟩ := h.same m fun _ _ => rfl
    constructor
    · have hread : 8 ∈ bytesRead nd p s src m := by
        simp only [bytesRead, hm]
        exact List.mem_cons_of_mem _ (by decide)
      exact h.inside 8 hread
    · by_contra hfull
      simp [handleResponse, hm, receive, processAttestationReq, storeChecksum_overflow hfull] at hr
  · rintro ⟨hlen, hcur⟩
    refine ⟨fun m' h => ?_, ?_, ?_⟩
    · have hm' : responsePkt m' = .attestation (m.uint64 1) := by
        rw [responsePkt_attestation, h 0 (by omega)]
        exact ⟨h0, (uint64_congr h (by omega)).symm⟩
      obtain ⟨a, ha, -⟩ := processAttestationReq_eq (m.uint64 1) (getIdFromAddr src) hcur
      refine ⟨(attested s (getIdFromAddr src) a, []), ?_, ?_⟩
      · simp [handleResponse, hm, receive, ha]
      · simp [handleResponse, hm', receive, ha]
    · intro k hk
      simp only [bytesRead, hm, List.mem_cons, List.mem_range'_1] at hk
      omega
    · intro j hj
      simp only [pathReads, hm] at hj
      cases hj

theorem only_other {ty : BitVec 8} (hm : responsePkt m = .other ty) :
    OnlyDatagram nd p s src len m ↔ 0 < len := by
  obtain ⟨ht, ha, rfl⟩ := responsePkt_other.1 hm
  constructor
  · exact fun h => h.inside 0 List.mem_cons_self
  · intro hlen
    refine ⟨fun m' h => ?_, ?_, ?_⟩
    · have hm' : responsePkt m' = .other (m 0) := by
        rw [responsePkt_other, h 0 hlen]
        exact ⟨ht, ha, rfl⟩
      exact ⟨(s, []), by simp [handleResponse, hm, receive], by simp [handleResponse, hm', receive]⟩
    · intro k hk
      simp only [bytesRead, hm, List.mem_singleton] at hk
      omega
    · intro j hj
      simp only [pathReads, hm] at hj
      cases hj

theorem only_stranger {t : TopologyInfo} (hm : responsePkt m = .topology t)
    (hc : s.childList.isChild (getIdFromAddr src) = false) :
    OnlyDatagram nd p s src len m ↔ 0 < len := by
  obtain ⟨h0, rfl⟩ := responsePkt_topology.1 hm
  constructor
  · exact fun h => h.inside 0 List.mem_cons_self
  · intro hlen
    refine ⟨fun m' h => ?_, ?_, ?_⟩
    · have hm' : responsePkt m' = .topology (topologyInfo m') := by
        rw [responsePkt_topology, h 0 hlen]
        exact ⟨h0, rfl⟩
      refine ⟨(s, []), ?_, ?_⟩
      · simp [handleResponse, hm, receive, processTopologyReq_stranger hc]
      · simp [handleResponse, hm', receive, processTopologyReq_stranger hc]
    · intro k hk
      simp only [bytesRead, hm, hc, Bool.false_eq_true, if_false, List.mem_singleton] at hk
      omega
    · intro j hj
      simp only [pathReads, hm, hc, Bool.false_eq_true, if_false] at hj
      cases hj

theorem mem_pathReads {t : TopologyInfo} (hm : responsePkt m = .topology t)
    (hc : s.childList.isChild (getIdFromAddr src) = true) {j : Nat} :
    j ∈ pathReads nd p s src m ↔
      .read j ∈ topologyAccesses nd p.after s t (getIdFromAddr src) := by
  simp only [pathReads, hm, hc, if_true, List.mem_filterMap]
  constructor
  · rintro ⟨a, ha, hj⟩
    cases a with
    | read i =>
      cases hj
      exact ha
    | write | send => cases hj
  · exact fun h => ⟨_, h, rfl⟩

theorem only_child {t : TopologyInfo} (hb : Bounded s) (hm : responsePkt m = .topology t)
    (hc : s.childList.isChild (getIdFromAddr src) = true) :
    OnlyDatagram nd p s src len m ↔
      responseSize ≤ len ∧ s.curLoc < maxChild ∧ EndsWithin nd p s t := by
  obtain ⟨h0, rfl⟩ := responsePkt_topology.1 hm
  have hwithin (hcur : s.curLoc < maxChild) :
      (∀ k, .read k ∈ topologyAccesses nd p.after s (topologyInfo m) (getIdFromAddr src) →
        k < maxPathNodes) ↔ EndsWithin nd p s (topologyInfo m) := reads_within_iff hb hcur
  constructor
  · intro h
    obtain ⟨r, hr, -⟩ := h.same m fun _ _ => rfl
    have hcur : s.curLoc < maxChild := by
      by_contra hfull
      simp [handleResponse, hm, receive, processTopologyReq_overflow hc hfull] at hr
    refine ⟨?_, hcur, (hwithin hcur).1 fun k hk => ?_⟩
    · have hread : 31 ∈ bytesRead nd p s src m := by
        simp only [bytesRead, hm, hc, if_true, List.mem_cons, List.mem_append, List.mem_range'_1]
        omega
      exact h.inside 31 hread
    · exact h.entries k ((mem_pathReads hm hc).2 hk)
  · rintro ⟨hlen, hcur, hends⟩
    have hreads := (hwithin hcur).2 hends
    have hentries : ∀ j ∈ pathReads nd p s src m, j < maxPathNodes :=
      fun j hj => hreads j ((mem_pathReads hm hc).1 hj)
    refine ⟨fun m' h => ?_, ?_, hentries⟩
    · have hm' : responsePkt m' = .topology (topologyInfo m') := by
        rw [responsePkt_topology, h 0 (by unfold responseSize at hlen; omega)]
        exact ⟨h0, rfl⟩
      obtain ⟨s', out, hp, -⟩ := processTopologyReq_cases nd p.after (topologyInfo m) hb hc hcur
      have hp' := processTopologyReq_resp hc (topologyInfo_same h hlen) hreads hp
      refine ⟨(s', out.map fun o => sendToParents nd (.topology o) false), ?_, ?_⟩
      · simp [handleResponse, hm, receive, hp]
      · simp [handleResponse, hm', receive, hp']
    · intro k hk
      unfold responseSize at hlen
      simp only [bytesRead, hm, hc, if_true, List.mem_cons, List.mem_append, List.mem_range'_1,
        List.mem_flatMap, List.not_mem_nil, or_false] at hk
      rcases hk with rfl | (((hk | rfl) | ⟨j, hj, hk⟩) | hk)
      · omega
      · omega
      · omega
      · have hj' := hentries j hj
        unfold maxPathNodes at hj'
        omega
      · omega

end Handlers

theorem only_datagram_iff {nd : Node} {b : Buffers} {c : ChildList} {t : History} {s : State}
    (h : (machine nd b).Run (init c) t s) (p : Pointer) (src : Addr) (len : Nat) (m : Memory) :
    OnlyDatagram nd p s src len m ↔ Complete nd p s src len m := by
  have hb := (run_good h).bounded
  unfold Complete
  cases hm : responsePkt m with
  | attestation c =>
    rw [only_attestation hm]
    simp only [iff_and_self]
    omega
  | other ty =>
    rw [only_other hm]
    simp
  | topology t =>
    cases hc : s.childList.isChild (getIdFromAddr src) with
    | false =>
      rw [only_stranger hm hc]
      simp
    | true =>
      rw [only_child hb hm hc]
      simp only [forall_const, iff_and_self]
      unfold responseSize
      omega

/-- A datagram, with zeros behind it. -/
def datagram (bytes : List (BitVec 8)) : Memory := fun k => bytes.getD k 0

/-- A whole packet of child 2 with one id, on the checksum port. -/
theorem only_datagram_whole : OnlyDatagram sampleNode .uipAppdata (init oneChild) 2 responseSize
    (datagram [30, 1, 2]) := by
  refine (only_datagram_iff (b := .contiki) .start .uipAppdata 2 _ _).2 ?_
  have hm : responsePkt (datagram [30, 1, 2]) = .topology (topologyInfo (datagram [30, 1, 2])) :=
    responsePkt_topology.2 ⟨rfl, rfl⟩
  unfold Complete
  rw [hm]
  exact ⟨by decide, fun _ => ⟨Nat.le_refl _, by decide, .inl (by decide)⟩⟩

/-- A datagram of the type byte alone: the checksum stored is what happens to lie behind it. -/
theorem short_attestation : ∃ m m' : Memory, (∀ k < 1, m' k = m k) ∧
    checksumReceiver sampleNode (init oneChild) 7 m ≠
      checksumReceiver sampleNode (init oneChild) 7 m' := by
  obtain ⟨r, r', hr, hr', hcs, hcs'⟩ : ∃ r r',
      checksumReceiver sampleNode (init oneChild) 7 (datagram [40]) = .ok r ∧
      checksumReceiver sampleNode (init oneChild) 7 (datagram [40, 1]) = .ok r' ∧
      r.1.checksums = [0] ∧ r'.1.checksums = [1] := ⟨_, _, rfl, rfl, rfl, rfl⟩
  refine ⟨datagram [40], datagram [40, 1], ?_, fun h => ?_⟩
  · intro k hk
    obtain rfl : k = 0 := by omega
    rfl
  · rw [hr, hr'] at h
    rw [Except.ok.inj h, hcs'] at hcs
    cases hcs

end Relay
end Swarna
