import Mathlib.Order.Interval.Set.LinearOrder
import Swarna.Datagrams

/-!
# Swarna.StackBytes

The bytes of a response. `send_topology_resp` and `send_attestation_resp` build their packet on the
stack, set the fields they need, and hand over all of `struct response_pkt`.

* `Writes`: a function on memory that sets some places and keeps the others.
* `topologyRespBytes_reads`, `attestationRespBytes_reads`: the fields of the packet.
* `sentBytes_eq_iff`: the bytes of the stack that go out with a response are those not written.
* `response_reveals_stack`: there are some in every response.
-/

namespace Swarna

/-! ## Setting places -/

/-- `f` sets the places of `W`, whatever was there, and keeps all others. -/
structure Writes {ι β : Type} (f : (ι → β) → ι → β) (W : Set ι) : Prop where
  same : ∀ i ∈ W, ∀ m m', f m i = f m' i
  frame : ∀ i, i ∉ W → ∀ m, f m i = m i

namespace Writes

variable {ι β : Type} {f g : (ι → β) → ι → β} {W V : Set ι}

theorem nothing : Writes (fun m : ι → β => m) ∅ := ⟨nofun, fun _ _ _ => rfl⟩

/-- One after the other. -/
theorem comp (hf : Writes f W) (hg : Writes g V) : Writes (fun m => g (f m)) (W ∪ V) where
  same := by
    intro i hi m m'
    by_cases hv : i ∈ V
    · exact hg.same i hv _ _
    · show g (f m) i = g (f m') i
      rw [hg.frame i hv, hg.frame i hv]
      exact hf.same i (hi.resolve_right hv) m m'
  frame := by
    intro i hi m
    show g (f m) i = m i
    rw [hg.frame i fun hv => hi (.inr hv), hf.frame i fun hw => hi (.inl hw)]

theorem congr (h : Writes f W) (hV : ∀ i, i ∈ V ↔ i ∈ W) : Writes f V := by
  rwa [Set.ext hV]

/-- What is left of the places before. -/
theorem agree_iff (h : Writes f W) (S : Set ι) (m m' : ι → β) :
    (∀ i ∈ S, f m i = f m' i) ↔ ∀ i ∈ S, i ∉ W → m i = m' i := by
  constructor
  · intro hs i hi hw
    rw [← h.frame i hw m, ← h.frame i hw m']
    exact hs i hi
  · intro hs i hi
    by_cases hw : i ∈ W
    · exact h.same i hw m m'
    · rw [h.frame i hw, h.frame i hw]
      exact hs i hi hw

end Writes

namespace Relay

/-! ## The packet on the stack -/

/-- The `n` bytes of a field at `k`, the lowest first. -/
def Memory.store {w : Nat} (m : Memory) (k n : Nat) (x : BitVec w) : Memory :=
  fun i => if k ≤ i ∧ i < k + n then x.extractLsb' (8 * (i - k)) 8 else m i

/-- `resp.pkt.topology.path[i] = paths[i]`, from entry `k` on. -/
def storePath : (k : Nat) → List NodeId → Memory → Memory
  | _, [], m => m
  | k, id :: ids, m => storePath (k + 1) ids (m.store (2 + 2 * k) 2 id)

/-- The fields `send_topology_resp` sets before the path. -/
def storeFields (s : State) (combined : Checksum) (resp : Memory) : Memory :=
  ((resp.store 0 1 topology).store 24 8 combined).store 22 2 s.maxLeafRank

/-- The own id, behind the path, and `pathindex`. -/
def storeOwn (nd : Node) (s : State) (resp : Memory) : Memory :=
  (resp.store (2 + 2 * s.pathsLoc) 2 nd.id).store 1 1 (BitVec.ofNat 8 (s.pathsLoc + 1))

/-- `struct response_pkt resp` of `send_topology_resp`, on a stack that held `stack`. -/
def topologyRespBytes (nd : Node) (s : State) (combined : Checksum) (stack : Memory) : Memory :=
  let resp := storeFields s combined stack
  let resp := storePath 0 (s.paths.toList.take s.pathsLoc) resp
  if maxPathNodes - 1 ≤ s.pathsLoc then resp else storeOwn nd s resp

/-- `struct response_pkt resp` of `send_attestation_resp`. -/
def attestationRespBytes (combined : Checksum) (stack : Memory) : Memory :=
  let resp := stack.store 0 1 attestation
  resp.store 1 8 combined

/-- The functions that build a response of an inner relay. -/
inductive Response where
  | topology
  | attestation
  deriving DecidableEq, Repr

/-- The bytes handed to the network, `none` if nothing is sent. The response of an attestation
round is stored first, as a whole. -/
def sentBytes (nd : Node) (s : State) (stack : Memory) :
    Response → Except Fault (Option (List (BitVec 8)))
  | .topology =>
    match getCombinedChecksum nd s with
    | .error f => .error f
    | .ok (combined, s) =>
      if maxPathNodes < s.pathsLoc then .error .pathOverflow
      else .ok (some ((List.range responseSize).map (topologyRespBytes nd s combined stack)))
  | .attestation =>
    match getCombinedChecksum nd s with
    | .error f => .error f
    | .ok (combined, _) =>
      if combined ≠ 0 then
        .ok (some ((List.range responseSize).map (attestationRespBytes combined stack)))
      else .ok none

/-- The bytes of the response do not depend on the stack. -/
def StateOnly (nd : Node) (s : State) (r : Response) : Prop :=
  ∀ stack stack', sentBytes nd s stack r = sentBytes nd s stack' r

/-! ## The fields -/

theorem store_at {w : Nat} (m : Memory) {k n : Nat} (x : BitVec w) {i : Nat} (h : i < n) :
    m.store k n x (k + i) = x.extractLsb' (8 * i) 8 := by
  rw [Memory.store, if_pos (by omega), Nat.add_sub_cancel_left]

theorem store_byte (m : Memory) (k : Nat) (x : BitVec 8) : m.store k 1 x k = x := by
  have h := store_at m (k := k) x (Nat.zero_lt_one)
  rwa [Nat.add_zero, BitVec.extractLsb'_eq_self] at h

/-- Byte `i` behind the bits above it. -/
theorem join_byte {w : Nat} (x : BitVec w) (i n : Nat) :
    x.extractLsb' (8 * (i + 1)) n ++ x.extractLsb' (8 * i) 8 = x.extractLsb' (8 * i) (n + 8) :=
  BitVec.extractLsb'_append_extractLsb'_eq_extractLsb' rfl

theorem uint16_store (m : Memory) (k : Nat) (x : BitVec 16) : (m.store k 2 x).uint16 k = x := by
  have h₀ := store_at m (k := k) x (show 0 < 2 by omega)
  rw [Nat.add_zero] at h₀
  rw [Memory.uint16, h₀, store_at m x (show 1 < 2 by omega), join_byte x 0]
  exact BitVec.extractLsb'_eq_self

theorem uint64_store (m : Memory) (k : Nat) (x : BitVec 64) : (m.store k 8 x).uint64 k = x := by
  have h : ∀ i, i < 8 → m.store k 8 x (k + i) = x.extractLsb' (8 * i) 8 :=
    fun i hi => store_at m x hi
  have h₀ := h 0 (by omega)
  rw [Nat.add_zero] at h₀
  rw [Memory.uint64, h 7 (by omega), h 6 (by omega), h 5 (by omega), h 4 (by omega),
    h 3 (by omega), h 2 (by omega), h 1 (by omega), h₀, join_byte x 6, join_byte x 5,
    join_byte x 4, join_byte x 3, join_byte x 2, join_byte x 1, join_byte x 0]
  exact BitVec.extractLsb'_eq_self

theorem writes_store {w : Nat} (k n : Nat) (x : BitVec w) :
    Writes (fun m : Memory => m.store k n x) (Set.Ico k (k + n)) where
  same _ hi _ _ := (if_pos hi).trans (if_pos hi).symm
  frame _ hi _ := if_neg hi

theorem uint16_frame {f : Memory → Memory} {W : Set Nat} (hf : Writes f W) {i : Nat}
    (h : ∀ j < 2, i + j ∉ W) (m : Memory) : Memory.uint16 (f m) i = m.uint16 i := by
  rw [Memory.uint16, hf.frame i (h 0 (by omega)), hf.frame _ (h 1 (by omega)), Memory.uint16]

theorem uint64_frame {f : Memory → Memory} {W : Set Nat} (hf : Writes f W) {i : Nat}
    (h : ∀ j < 8, i + j ∉ W) (m : Memory) : Memory.uint64 (f m) i = m.uint64 i := by
  rw [Memory.uint64, hf.frame _ (h 7 (by omega)), hf.frame _ (h 6 (by omega)),
    hf.frame _ (h 5 (by omega)), hf.frame _ (h 4 (by omega)), hf.frame _ (h 3 (by omega)),
    hf.frame _ (h 2 (by omega)), hf.frame _ (h 1 (by omega)), hf.frame i (h 0 (by omega)),
    Memory.uint64]

theorem writes_storePath (k : Nat) (ids : List NodeId) :
    Writes (storePath k ids) (Set.Ico (2 + 2 * k) (2 + 2 * (k + ids.length))) := by
  induction ids generalizing k with
  | nil =>
    rw [List.length_nil, Nat.add_zero, Set.Ico_self]
    exact Writes.nothing
  | cons id ids ih =>
    refine ((writes_store (2 + 2 * k) 2 id).comp (ih (k + 1))).congr fun i => ?_
    simp only [List.length_cons, Set.mem_union, Set.mem_Ico]
    omega

theorem uint16_storePath (m : Memory) (k : Nat) (ids : List NodeId) (j : Nat)
    (h : j < ids.length) : (storePath k ids m).uint16 (2 + 2 * (k + j)) = ids[j] := by
  induction ids generalizing k j m with
  | nil => exact absurd h (Nat.not_lt_zero j)
  | cons id ids ih =>
    cases j with
    | zero =>
      have hbehind : ∀ i < 2, 2 + 2 * k + i ∉
          Set.Ico (2 + 2 * (k + 1)) (2 + 2 * (k + 1 + ids.length)) := by
        intro i hi
        rw [Set.mem_Ico]
        omega
      show (storePath (k + 1) ids (m.store (2 + 2 * k) 2 id)).uint16 (2 + 2 * k) = id
      rw [uint16_frame (writes_storePath (k + 1) ids) hbehind, uint16_store]
    | succ j =>
      have hnext := ih (m.store (2 + 2 * k) 2 id) (k + 1) j (Nat.lt_of_succ_lt_succ h)
      rw [show k + 1 + j = k + (j + 1) by omega] at hnext
      exact hnext

theorem writes_storeFields (s : State) (combined : Checksum) :
    Writes (storeFields s combined) {k | k = 0 ∨ (22 ≤ k ∧ k < 32)} := by
  refine (((writes_store 0 1 topology).comp (writes_store 24 8 combined)).comp
    (writes_store 22 2 s.maxLeafRank)).congr fun k => ?_
  simp only [Set.mem_ofPred_eq, Set.mem_union, Set.mem_Ico]
  omega

theorem writes_storeOwn (nd : Node) (s : State) : Writes (storeOwn nd s)
    {k | k = 1 ∨ (2 + 2 * s.pathsLoc ≤ k ∧ k < 4 + 2 * s.pathsLoc)} := by
  refine ((writes_store (2 + 2 * s.pathsLoc) 2 nd.id).comp
    (writes_store 1 1 (BitVec.ofNat 8 (s.pathsLoc + 1)))).congr fun k => ?_
  simp only [Set.mem_ofPred_eq, Set.mem_union, Set.mem_Ico]
  omega

theorem storeFields_reads (s : State) (combined : Checksum) (resp : Memory) :
    storeFields s combined resp 0 = topology ∧
      (storeFields s combined resp).uint16 22 = s.maxLeafRank ∧
      (storeFields s combined resp).uint64 24 = combined := by
  refine ⟨?_, uint16_store _ 22 _, ?_⟩
  · rw [storeFields, (writes_store 22 2 _).frame 0 (by simp),
      (writes_store 24 8 _).frame 0 (by simp), store_byte]
  · rw [storeFields, uint64_frame (writes_store 22 2 _) (by simp), uint64_store]

theorem storeOwn_reads (nd : Node) (s : State) (resp : Memory) :
    storeOwn nd s resp 1 = BitVec.ofNat 8 (s.pathsLoc + 1) ∧
      (storeOwn nd s resp).uint16 (2 + 2 * s.pathsLoc) = nd.id := by
  refine ⟨store_byte _ 1 _, ?_⟩
  have hapart : ∀ j < 2, 2 + 2 * s.pathsLoc + j ∉ Set.Ico 1 (1 + 1) := by
    intro j hj
    rw [Set.mem_Ico]
    omega
  rw [storeOwn, uint16_frame (writes_store 1 1 _) hapart, uint16_store]

theorem length_take_paths {s : State} (hp : s.pathsLoc ≤ maxPathNodes) :
    (s.paths.toList.take s.pathsLoc).length = s.pathsLoc := by
  rw [List.length_take, Vector.length_toList, Nat.min_eq_left hp]

theorem writes_pathAndOwn (nd : Node) {s : State} (hp : s.pathsLoc ≤ maxPathNodes) :
    Writes (fun m => storeOwn nd s (storePath 0 (s.paths.toList.take s.pathsLoc) m))
      {k | 1 ≤ k ∧ k < 4 + 2 * s.pathsLoc} := by
  have hpath := writes_storePath 0 (s.paths.toList.take s.pathsLoc)
  rw [length_take_paths hp, Nat.zero_add] at hpath
  refine (hpath.comp (writes_storeOwn nd s)).congr fun k => ?_
  simp only [Set.mem_ofPred_eq, Set.mem_union, Set.mem_Ico]
  omega

/-- The entries of `path` up to the own id. -/
theorem uint16_pathAndOwn (nd : Node) {s : State} (hp : s.pathsLoc ≤ maxPathNodes) (m : Memory)
    {j : Nat} (hj : j < s.pathsLoc + 1) :
    (storeOwn nd s (storePath 0 (s.paths.toList.take s.pathsLoc) m)).uint16 (2 + 2 * j) =
      (s.paths.toList.take s.pathsLoc ++ [nd.id]).getD j 0 := by
  have hlen := length_take_paths hp
  rw [List.getD_eq_getElem?_getD]
  by_cases hlast : j = s.pathsLoc
  · rw [hlast, (storeOwn_reads nd s _).2, List.getElem?_append_right (by omega), hlen, Nat.sub_self]
    rfl
  · have hlt : j < (s.paths.toList.take s.pathsLoc).length := by omega
    have hread := uint16_storePath m 0 (s.paths.toList.take s.pathsLoc) j hlt
    rw [Nat.zero_add] at hread
    have hapart : ∀ i < 2, 2 + 2 * j + i ∉
        {k | k = 1 ∨ (2 + 2 * s.pathsLoc ≤ k ∧ k < 4 + 2 * s.pathsLoc)} := by
      intro i hi
      simp only [Set.mem_ofPred_eq]
      omega
    rw [uint16_frame (writes_storeOwn nd s) hapart, hread, List.getElem?_append_left hlt,
      List.getElem?_eq_getElem hlt]
    rfl

/-- The packet on the stack is the one the model sends, as far as a receiver reads it. -/
theorem topologyRespBytes_reads {nd : Node} {s : State} {combined : Checksum} {out : TopologyInfo}
    (stack : Memory) (h : buildTopologyResp nd s combined = .ok out) :
    ∃ t, responsePkt (topologyRespBytes nd s combined stack) = .topology t ∧
      t.pathindex = out.pathindex ∧ t.ids = out.ids ∧ t.maxLeafRank = out.maxLeafRank ∧
      t.checksum = out.checksum := by
  have hmax : maxPathNodes = 10 := rfl
  simp only [buildTopologyResp] at h
  split at h
  · cases h
  split at h
  · cases h
  rename_i hle hlt
  cases h
  have hp : s.pathsLoc ≤ maxPathNodes := by omega
  have hframe := writes_pathAndOwn nd hp
  obtain ⟨htype, hrank, hsum⟩ := storeFields_reads s combined stack
  let m := storeOwn nd s
    (storePath 0 (s.paths.toList.take s.pathsLoc) (storeFields s combined stack))
  have hbytes : topologyRespBytes nd s combined stack = m := if_neg hlt
  have hzero : m 0 = topology := (hframe.frame 0 (by simp) _).trans htype
  have hindex : m 1 = BitVec.ofNat 8 (s.pathsLoc + 1) := (storeOwn_reads nd s _).1
  refine ⟨topologyInfo m, ?_, hindex, ?_, ?_, ?_⟩
  · rw [hbytes, responsePkt, if_pos hzero]
  · rw [TopologyInfo.ids, TopologyInfo.ids]
    show (List.range (m 1).toNat).map _ = (List.range (BitVec.ofNat 8 (s.pathsLoc + 1)).toNat).map _
    rw [hindex]
    refine List.map_congr_left fun j hj => ?_
    rw [List.mem_range, BitVec.toNat_ofNat, Nat.mod_eq_of_lt (by omega)] at hj
    have hread : (topologyInfo m).path.getD j 0 = m.uint16 (2 + 2 * j) := by
      rw [topologyInfo, List.getD_eq_getElem?_getD, List.getElem?_map,
        List.getElem?_range (by omega)]
      rfl
    exact hread.trans (uint16_pathAndOwn nd hp _ hj)
  · exact (uint16_frame hframe (by simp only [Set.mem_ofPred_eq]; omega) _).trans hrank
  · exact (uint64_frame hframe (by simp only [Set.mem_ofPred_eq]; omega) _).trans hsum

theorem attestationRespBytes_reads (combined : Checksum) (stack : Memory) :
    responsePkt (attestationRespBytes combined stack) = .attestation combined := by
  have htype : attestationRespBytes combined stack 0 = attestation := by
    rw [attestationRespBytes, (writes_store 1 8 combined).frame 0 (by simp), store_byte]
  have hne : attestation ≠ topology := by decide
  rw [responsePkt, htype, if_neg hne, if_pos rfl, attestationRespBytes, uint64_store]

/-! ## What goes out of the stack -/

/-- The entries of `path` that are set. -/
def entriesSet (s : State) : Nat :=
  if maxPathNodes - 1 ≤ s.pathsLoc then s.pathsLoc else s.pathsLoc + 1

/-- The bytes that are set. -/
def written (s : State) : Response → Set Nat
  | .topology => {k | k = 0 ∨ (k = 1 ∧ s.pathsLoc < maxPathNodes - 1) ∨
      (2 ≤ k ∧ k < 2 + 2 * entriesSet s) ∨ (22 ≤ k ∧ k < responseSize)}
  | .attestation => {k | k < 9}

theorem writes_topologyRespBytes (nd : Node) {s : State} (combined : Checksum)
    (hp : s.pathsLoc ≤ maxPathNodes) :
    Writes (topologyRespBytes nd s combined) (written s .topology) := by
  have hsize : responseSize = 32 := rfl
  have hpath := (writes_storeFields s combined).comp
    (writes_storePath 0 (s.paths.toList.take s.pathsLoc))
  rw [length_take_paths hp, Nat.zero_add] at hpath
  by_cases hfull : maxPathNodes - 1 ≤ s.pathsLoc
  · have hbytes : topologyRespBytes nd s combined = _ := funext fun stack => if_pos hfull
    rw [hbytes]
    refine hpath.congr fun k => ?_
    simp only [written, entriesSet, if_pos hfull, Set.mem_ofPred_eq, Set.mem_union, Set.mem_Ico]
    omega
  · have hbytes : topologyRespBytes nd s combined = _ := funext fun stack => if_neg hfull
    rw [hbytes]
    refine (hpath.comp (writes_storeOwn nd s)).congr fun k => ?_
    simp only [written, entriesSet, if_neg hfull, Set.mem_ofPred_eq, Set.mem_union, Set.mem_Ico]
    omega

theorem writes_attestationRespBytes (s : State) (combined : Checksum) :
    Writes (attestationRespBytes combined) (written s .attestation) := by
  refine ((writes_store 0 1 attestation).comp (writes_store 1 8 combined)).congr fun k => ?_
  simp only [written, Set.mem_ofPred_eq, Set.mem_union, Set.mem_Ico]
  omega

/-- There is a response to send. -/
def Responds (nd : Node) (s : State) (r : Response) : Prop :=
  ∃ stack bytes, sentBytes nd s stack r = .ok (some bytes)

theorem getCombinedChecksum_frame {nd : Node} {s s' : State} {combined : Checksum}
    (h : getCombinedChecksum nd s = .ok (combined, s')) : ∃ c, s' = { s with myChecksum := c } := by
  simp only [getCombinedChecksum, attestMemory_eq] at h
  split at h
  · cases h
  · cases h
    exact ⟨_, rfl⟩

/-- The bytes of a response, as a function of the stack. -/
theorem Responds.bytes {nd : Node} {s : State} {r : Response} (h : Responds nd s r) :
    ∃ f, Writes f (written s r) ∧
      ∀ stack, sentBytes nd s stack r = .ok (some ((List.range responseSize).map (f stack))) := by
  obtain ⟨stack, bytes, hsent⟩ := h
  cases hc : getCombinedChecksum nd s with
  | error f => cases r <;> simp [sentBytes, hc] at hsent
  | ok x =>
    obtain ⟨combined, s'⟩ := x
    obtain ⟨c, rfl⟩ := getCombinedChecksum_frame hc
    cases r with
    | topology =>
      simp only [sentBytes, hc] at hsent ⊢
      split at hsent
      · cases hsent
      · rename_i hp
        have hwrites := writes_topologyRespBytes nd (s := { s with myChecksum := c }) combined
          (Nat.not_lt.1 hp)
        exact ⟨_, hwrites, fun stack => if_neg hp⟩
    | attestation =>
      simp only [sentBytes, hc] at hsent ⊢
      split at hsent
      · rename_i hne
        exact ⟨_, writes_attestationRespBytes s combined, fun stack => if_pos hne⟩
      · cases hsent

/-- Two stacks lead to the same bytes if they agree where nothing is set. -/
theorem sentBytes_eq_iff {nd : Node} {s : State} {r : Response} (h : Responds nd s r)
    (stack stack' : Memory) : sentBytes nd s stack r = sentBytes nd s stack' r ↔
      ∀ k < responseSize, k ∉ written s r → stack k = stack' k := by
  obtain ⟨f, hf, hbytes⟩ := h.bytes
  have hagree := hf.agree_iff {k | k < responseSize} stack stack'
  rw [hbytes, hbytes]
  simp only [Except.ok.injEq, Option.some.injEq, List.map_inj_left, List.mem_range]
  exact hagree

/-- A topology packet lacks the last entry of `path`, or `pathindex`; an attestation packet all
behind its checksum. -/
theorem exists_not_written (s : State) (r : Response) : ∃ k < responseSize, k ∉ written s r := by
  have hsize : responseSize = 32 := rfl
  have hmax : maxPathNodes = 10 := rfl
  cases r with
  | topology =>
    by_cases hlast : s.pathsLoc < maxPathNodes
    · refine ⟨20, by omega, ?_⟩
      simp only [written, entriesSet, Set.mem_ofPred_eq]
      split <;> omega
    · refine ⟨1, by omega, ?_⟩
      simp only [written, Set.mem_ofPred_eq]
      omega
  | attestation =>
    refine ⟨9, by omega, ?_⟩
    simp [written]

theorem response_reveals_stack {nd : Node} {s : State} {r : Response} (h : Responds nd s r) :
    ¬ StateOnly nd s r := by
  obtain ⟨k, hk, hnot⟩ := exists_not_written s r
  intro hsame
  have hstack := (sentBytes_eq_iff h (fun _ => 0) fun _ => 1).1 (hsame _ _) k hk hnot
  exact absurd hstack (by decide)

theorem response_reveals_stack_start :
    Responds sampleNode (init twoChildren) .attestation ∧
      ¬ StateOnly sampleNode (init twoChildren) .attestation := by
  have h : Responds sampleNode (init twoChildren) .attestation := ⟨fun _ => 0, _, rfl⟩
  exact ⟨h, response_reveals_stack h⟩

/-- One child has answered, and the timer asks for the response: byte 8, of `path[3]`, is whatever
the stack held. -/
theorem topologyResp_two_stacks :
    ∃ t s, sampleMachine.Run (init twoChildren) t s ∧
      s.periodicTimer.expire.1 = some .sendTopologyResp ∧
      ∃ stack stack' bytes bytes', sentBytes sampleNode s stack .topology = .ok (some bytes) ∧
        sentBytes sampleNode s stack' .topology = .ok (some bytes') ∧
        bytes.getD 8 0 = 0 ∧ bytes'.getD 8 0 = 1 ∧ ¬ StateOnly sampleNode s .topology := by
  have hr : sampleMachine.Run (init twoChildren)
      [(.tcpip 2 (.topology ⟨1, [2], 768, 7⟩), [])] _ := .next (t := []) .start trivial rfl
  refine ⟨_, _, hr, rfl, fun _ => 0, fun _ => 1, _, _, rfl, rfl, rfl, rfl, fun hsame => ?_⟩
  have hbytes := Option.some.inj (Except.ok.inj (hsame (fun _ => 0) fun _ => 1))
  have hbyte := congrArg (fun bytes => bytes.getD 8 0) hbytes
  exact absurd hbyte (by decide)

end Relay
end Swarna
