import Swarna.RelayHistory

/-!
# Swarna.Attestation

What `process_attestation_req` stores, and what comes of it. The handler stores the checksum before
it asks whether the sender is a child, and it keeps no record of who was heard.

* `checksum_buffer_safe_iff`: the buffer stays inside `checksum_children` exactly as long as no
  more than `maxChild` packets that store a checksum arrive between two responses.
  `checksum_buffer_overflow`: eleven broadcasts of one stranger run past it.
* `attestation_children_once`: when only children are heard, each once between two responses, the
  aggregate is the own checksum and one checksum per child heard.
  `stranger_aggregated`: a stranger's broadcast enters the aggregate.
* `attestation_timer_iff`: the timer answers and starts a new round unless the checksums waiting
  combine to the relay's own. `attestation_timer_stuck`: three honest children of relay 1.
-/

namespace Swarna
namespace Relay

/-- The next event leaves `checksum_children` alone outside its bounds, and what a response would
combine was stored since the last reset. -/
structure BufferSafe (nd : Node) (b : Buffers) (children : List NodeId) (t : History) (s : State)
    (e : Event) : Prop where
  write : step nd b s e ≠ .error .checksumOverflow
  read : step nd b s e ≠ .error .checksumOverread
  curLoc_le : s.curLoc ≤ maxChild
  current : s.checksums = (pending children t).map Taken.checksum

theorem checksum_buffer_safe_iff {nd : Node} {b : Buffers} {c : ChildList} {t : History}
    {s : State} (hr : (machine nd b).Run (init c) t s) (e : Event) :
    BufferSafe nd b c.ids t s e ↔
      (taken c.ids e ≠ none → (pending c.ids t).length < maxChild) := by
  have hg := run_good hr
  have hcur := hg.curLoc
  constructor
  · intro h htaken
    -- otherwise the event would store at `cur_loc = maxChild`
    by_contra hlt
    have hle := hg.bounded.curLoc_le
    refine h.write ?_
    have hfull : ¬ s.curLoc < maxChild := by omega
    have hne : taken s.childList.ids e ≠ none := by rwa [hg.children_eq]
    rcases step_outcome nd b e hg.bounded with ⟨herr, _⟩ | ⟨s', out, _, ho⟩
    · exact herr
    · cases ho with
      | ignored _ he => exact absurd he hne
      | request _ _ _ he => exact absurd he hne
      | topology _ _ hlt' _ => exact absurd hlt' hfull
      | attestation _ hlt' _ => exact absurd hlt' hfull
      | secReq | periodicIdle | periodicTopology | periodicAttestation | periodicZero | pIdle
        | pBroadcast => exact absurd rfl hne
  · intro h
    have hok : ∃ r, step nd b s e = .ok r := by
      rcases step_outcome nd b e hg.bounded with
        ⟨_, hsome, hmax⟩ | ⟨s', out, hok, _⟩
      · rw [hg.children_eq] at hsome
        have := h (by intro hn; rw [hn] at hsome; cases hsome)
        omega
      · exact ⟨_, hok⟩
    obtain ⟨r, hr'⟩ := hok
    exact ⟨by simp [hr'], by simp [hr'], hg.bounded.curLoc_le, hg.checksums⟩

theorem checksum_buffer_safe_second :
    ∃ t s, sampleMachine.Run (init oneChild) t s ∧ t.length = 1 ∧
      BufferSafe sampleNode .contiki oneChild.ids t s (.broadcast 7 (.attestation 1)) := by
  have hr : sampleMachine.Run (init oneChild) [(.broadcast 7 (.attestation 1), [])] _ :=
    .next (t := []) .start trivial rfl
  exact ⟨_, _, hr, rfl, (checksum_buffer_safe_iff hr _).2 (by decide)⟩

/-- Eleven broadcasts of a stranger, before any response, store past the array. -/
theorem checksum_buffer_overflow :
    sampleMachine.exec (init oneChild) (List.replicate 11 (.broadcast 7 (.attestation 1))) =
      .error .checksumOverflow := by
  rfl

/-! ## Children, each once -/

/-- The events of an attestation round: broadcasts of one kind and timers. The broadcast comes from
a child that was not heard since the last response. -/
def HeardOnce (children : List NodeId) (t : History) (_ : State) : Event → Prop
  | .broadcast src (.attestation _) =>
    getIdFromAddr src ∈ children ∧ getIdFromAddr src ∉ (pending children t).map Taken.sender
  | .periodicExpiry => True
  | .pExpiry => True
  | _ => False

/-- The distinct children heard since the last response. -/
def heardChildren (children : List NodeId) (t : History) : Finset NodeId :=
  ((pending children t).map Taken.sender).toFinset.filter (· ∈ children)

/-- `combined` is the own checksum and one attestation checksum for each child heard. -/
def AggregatesChildren (nd : Node) (children : List NodeId) (t : History) (combined : Checksum) :
    Prop :=
  ∃ pick : NodeId → Checksum,
    (∀ i ∈ heardChildren children t, ⟨.attestation, i, pick i⟩ ∈ pending children t) ∧
    combined = ownChecksum nd.id ^^^ xorOver (heardChildren children t) pick

/-- What holds while only children are heard, each once. -/
structure EachOnce (children : List NodeId) (t : History) : Prop where
  senders_nodup : ((pending children t).map Taken.sender).Nodup
  senders_mem : ∀ p ∈ pending children t, p.sender ∈ children
  phase : ∀ p ∈ pending children t, p.phase = .attestation

theorem EachOnce.nil (children : List NodeId) : EachOnce children [] :=
  ⟨by simp, by simp, by simp⟩

theorem EachOnce.snoc {children : List NodeId} {t : History} {s : State} {e : Event}
    (h : EachOnce children t) (he : HeardOnce children t s e) (out : List Action) :
    EachOnce children (t ++ [(e, out)]) := by
  by_cases hout : responded out = true
  · have hp : pending children (t ++ [(e, out)]) = [] := by simp [pending_snoc, hout]
    exact ⟨by simp [hp], by simp [hp], by simp [hp]⟩
  · have hp : pending children (t ++ [(e, out)]) =
        pending children t ++ (taken children e).toList := by simp [pending_snoc, hout]
    cases e with
    | broadcast src pkt =>
      cases pkt with
      | attestation c =>
        obtain ⟨hmem, hnew⟩ := he
        have ht : taken children (.broadcast src (.attestation c)) =
            some ⟨.attestation, getIdFromAddr src, c⟩ := rfl
        rw [ht] at hp
        refine ⟨?_, ?_, ?_⟩ <;> rw [hp]
        · rw [List.map_append, List.nodup_append]
          refine ⟨h.senders_nodup, by simp, ?_⟩
          intro i hi j hj hij
          simp only [Option.toList_some, List.map_cons, List.map_nil, List.mem_singleton] at hj
          exact hnew (hj ▸ hij ▸ hi)
        · intro p hp'
          rcases List.mem_append.1 hp' with hp' | hp'
          · exact h.senders_mem p hp'
          · simp only [Option.toList_some, List.mem_singleton] at hp'
            subst hp'
            exact hmem
        · intro p hp'
          rcases List.mem_append.1 hp' with hp' | hp'
          · exact h.phase p hp'
          · simp only [Option.toList_some, List.mem_singleton] at hp'
            subst hp'
            rfl
      | topology | other => exact he.elim
    | periodicExpiry | pExpiry =>
      have hp' : pending children t ++ [] = pending children t := List.append_nil _
      refine ⟨?_, ?_, ?_⟩ <;> rw [hp] <;> simp only [taken, heard, Option.toList_none, hp']
      · exact h.senders_nodup
      · exact h.senders_mem
      · exact h.phase
    | tcpip | mcast | secReq => exact he.elim

/-- Entries with distinct senders have one checksum for each sender. -/
theorem exists_pick {l : List Taken} (h : (l.map Taken.sender).Nodup) :
    ∃ pick : NodeId → Checksum, ∀ p ∈ l, pick p.sender = p.checksum := by
  induction l with
  | nil => exact ⟨fun _ => 0, by simp⟩
  | cons q l ih =>
    simp only [List.map_cons, List.nodup_cons] at h
    obtain ⟨pick, hpick⟩ := ih h.2
    refine ⟨Function.update pick q.sender q.checksum, ?_⟩
    intro p hp
    rcases List.mem_cons.1 hp with rfl | hp
    · simp
    · have hne : p.sender ≠ q.sender := fun he => h.1 (he ▸ List.mem_map_of_mem hp)
      rw [Function.update_of_ne hne, hpick p hp]

theorem EachOnce.aggregates {children : List NodeId} {t : History} (nd : Node)
    (h : EachOnce children t) :
    AggregatesChildren nd children t
      (xorAll ((pending children t).map Taken.checksum) ^^^ ownChecksum nd.id) := by
  obtain ⟨pick, hpick⟩ := exists_pick h.senders_nodup
  have hmem : ∀ i, i ∈ (pending children t).map Taken.sender ↔ i ∈ heardChildren children t := by
    intro i
    simp only [heardChildren, Finset.mem_filter, List.mem_toFinset, iff_self_and]
    intro hi
    obtain ⟨p, hp, rfl⟩ := List.mem_map.1 hi
    exact h.senders_mem p hp
  refine ⟨pick, ?_, ?_⟩
  · intro i hi
    obtain ⟨p, hp, rfl⟩ := List.mem_map.1 ((hmem i).2 hi)
    rw [hpick p hp, ← h.phase p hp]
    exact hp
  · have hmap : ((pending children t).map Taken.sender).map pick =
        (pending children t).map Taken.checksum := by
      rw [List.map_map]
      exact List.map_congr_left hpick
    rw [xorOver_eq h.senders_nodup hmem, hmap, BitVec.xor_comm]

/-- There is room for a child that was not heard yet. -/
theorem EachOnce.room {c : ChildList} {t : History} {i : NodeId} (h : EachOnce c.ids t)
    (hi : i ∈ c.ids) (hnew : i ∉ (pending c.ids t).map Taken.sender) :
    (pending c.ids t).length < maxChild := by
  have hnodup : (i :: (pending c.ids t).map Taken.sender).Nodup :=
    List.nodup_cons.2 ⟨hnew, h.senders_nodup⟩
  have hsub : (i :: (pending c.ids t).map Taken.sender) ⊆ c.ids := by
    intro j hj
    rcases List.mem_cons.1 hj with rfl | hj
    · exact hi
    · obtain ⟨p, hp, rfl⟩ := List.mem_map.1 hj
      exact h.senders_mem p hp
  have hle := (List.subperm_of_subset hnodup hsub).length_le
  have := c.ids_length_le
  simp only [List.length_cons, List.length_map] at hle
  omega

/-- While only children are heard, each once between two responses: no event faults, and what the
expiry of the periodic timer sends is the aggregate of the children heard. -/
theorem attestation_children_once {nd : Node} {b : Buffers} {c : ChildList} {t : History}
    {s : State} (hr : (machine nd b).RunIf (HeardOnce c.ids) (init c) t s) :
    (∀ e, HeardOnce c.ids t s e → ∃ r, step nd b s e = .ok r) ∧
    ∃ combined s', getCombinedChecksum nd s = .ok (combined, s') ∧
      AggregatesChildren nd c.ids t combined ∧
      (s.periodicTimer.expire.1 = some .sendAttestationResp → combined ≠ 0 →
        ∃ s'', step nd b s .periodicExpiry =
          .ok (s'', [.storeBroadcast (.attestation combined)])) := by
  have hg := run_good hr
  have hone : EachOnce c.ids t :=
    hr.invariant (P := fun t _ => EachOnce c.ids t) (EachOnce.nil c.ids)
      fun _ _ _ _ out h he _ => h.snoc he out
  constructor
  · intro e he
    rcases step_outcome nd b e hg.bounded with
      ⟨_, hsome, hmax⟩ | ⟨s', out, hok, _⟩
    · exfalso
      rw [hg.children_eq] at hsome
      cases e with
      | broadcast src pkt =>
        cases pkt with
        | attestation x =>
          have := hone.room he.1 he.2
          rw [← hg.curLoc] at this
          omega
        | topology | other => exact he.elim
      | periodicExpiry | pExpiry => cases hsome
      | tcpip | mcast | secReq => exact he.elim
    · exact ⟨_, hok⟩
  · refine ⟨_, _, getCombinedChecksum_eq hg.bounded.curLoc_le, ?_, ?_⟩
    · rw [hg.checksums]
      exact hone.aggregates nd
    · intro hx hne
      exact ⟨_, step_periodicAttestation hg.bounded.curLoc_le hx hne⟩

/-- Two children are heard in a round and again in the next, and the timer is due. -/
theorem attestation_children_once_second :
    ∃ t s, sampleMachine.RunIf (HeardOnce twoChildren.ids) (init twoChildren) t s ∧
      heardChildren twoChildren.ids t = {2, 3} ∧
      AggregatesChildren sampleNode twoChildren.ids t (7 ^^^ 8 ^^^ ownChecksum 1) ∧
      ∃ s', step sampleNode .contiki s .periodicExpiry =
        .ok (s', [.storeBroadcast (.attestation (7 ^^^ 8 ^^^ ownChecksum 1))]) := by
  have hr : sampleMachine.RunIf (HeardOnce twoChildren.ids) (init twoChildren)
      [(.broadcast 2 (.attestation 9), _), (.broadcast 3 (.attestation 4), _),
        (.periodicExpiry, _), (.broadcast 3 (.attestation 7), _),
        (.broadcast 2 (.attestation 8), _)] _ :=
    .next (t := [_, _, _, _]) (.next (t := [_, _, _]) (.next (t := [_, _]) (.next (t := [_])
      (.next (t := []) .start ⟨by decide, by decide⟩ rfl) ⟨by decide, by decide⟩ rfl)
      trivial rfl) ⟨by decide, by decide⟩ rfl) ⟨by decide, by decide⟩ rfl
  obtain ⟨combined, s', hc, hagg, hsends⟩ := (attestation_children_once hr).2
  have hcombined : combined = 7 ^^^ 8 ^^^ ownChecksum 1 := by
    cases hc
    rfl
  subst hcombined
  exact ⟨_, _, hr, by decide, hagg, hsends rfl (by decide)⟩

/-- A relay with the one child 2 hears stranger 7, then its child, and its timer is due: the
stranger's checksum is in the aggregate. -/
theorem stranger_aggregated :
    ∃ t s combined s', sampleMachine.exec (init oneChild)
        [.broadcast 7 (.attestation 5), .broadcast 2 (.attestation 9)] = .ok (t, s) ∧
      s.periodicTimer.expire.1 = some .sendAttestationResp ∧
      getCombinedChecksum sampleNode s = .ok (combined, s') ∧
      ¬ AggregatesChildren sampleNode oneChild.ids t combined := by
  refine ⟨_, _, _, _, rfl, rfl, rfl, ?_⟩
  rintro ⟨pick, hmem, hsum⟩
  have hh : heardChildren oneChild.ids [(.broadcast 7 (.attestation 5), []),
      (.broadcast 2 (.attestation 9), [])] = {2} := by decide
  have hp : pending oneChild.ids [(.broadcast 7 (.attestation 5), []),
      (.broadcast 2 (.attestation 9), [])] = [⟨.attestation, 7, 5⟩, ⟨.attestation, 2, 9⟩] := by
    decide
  rw [hh] at hmem hsum
  have h2 := hmem 2 (by simp)
  rw [hp] at h2
  have hpick : pick 2 = 9 := by simpa using h2
  rw [xorOver_singleton, hpick] at hsum
  exact absurd hsum (by decide)

/-! ## The timer -/

/-- The state a round starts in. -/
structure RoundStart (s : State) : Prop where
  curLoc : s.curLoc = 0
  firstChild : s.firstChild = true
  flags : s.childList.Clear

/-- The attestation packets `packets`, with their senders, arrive in the order of the events. -/
def AttestationArrivals (children : List NodeId) (es : List Event)
    (packets : List (NodeId × Checksum)) : Prop :=
  es.map (heard children) = packets.map fun p => some (p.1, .attestation p.2)

/-- Whatever attestation packets come next, they alone are waiting, and the first packet of a child
starts the timer. -/
def FreshRound (nd : Node) (b : Buffers) (s : State) : Prop :=
  ∀ es packets, AttestationArrivals s.childList.ids es packets → packets.length ≤ maxChild →
    ∃ t s', (machine nd b).exec s es = .ok (t, s') ∧ s'.checksums = packets.map Prod.snd ∧
      ((∃ p ∈ packets, p.1 ∈ s.childList.ids) →
        s'.periodicTimer.expire.1 = some .sendAttestationResp)

/-- The expiry stores a response, starts the timer that broadcasts it, and leaves the relay at the
start of a round. -/
def AnswersAndResets (nd : Node) (b : Buffers) (s : State) : Prop :=
  ∃ s' resp, step nd b s .periodicExpiry = .ok (s', [.storeBroadcast resp]) ∧
    s'.ctimerResp = resp ∧ s'.pTimer.expire.1 = some .broadcastToParents ∧ RoundStart s' ∧
    FreshRound nd b s'

theorem step_attestation (nd : Node) (b : Buffers) {s : State} {e : Event} {cid : NodeId}
    {x : Checksum} (hb : Bounded s) (hh : heard s.childList.ids e = some (cid, .attestation x))
    (hcur : s.curLoc < maxChild) :
    ∃ a, step nd b s e = .ok (attested s cid a, []) ∧
      (attested s cid a).checksums = s.checksums ++ [x] := by
  have ht : taken s.childList.ids e = some ⟨.attestation, cid, x⟩ := by simp [taken, hh]
  rcases step_outcome nd b e hb with ⟨-, -, hfull⟩ | ⟨s', out, hs, ho⟩
  · omega
  · cases ho with
    | ignored _ he | request _ _ _ he => rw [he] at ht; cases ht
    | topology hh' _ _ _ => rw [hh] at hh'; cases hh'
    | attestation hh' _ hcs =>
      rw [hh] at hh'
      cases hh'
      exact ⟨_, hs, hcs⟩
    | secReq | periodicIdle | periodicTopology | periodicAttestation | periodicZero | pIdle
      | pBroadcast => cases hh

/-- A timer that has been started for the attestation response, or waits for the first child. -/
def Started (s : State) : Prop :=
  s.firstChild = false → s.periodicTimer.expire.1 = some .sendAttestationResp

theorem attested_started {s : State} {cid : NodeId} {a : Vector Checksum maxChild}
    (h : Started s) : Started (attested s cid a) := by
  intro hf
  cases hfirst : s.firstChild with
  | true =>
    have hc : s.childList.isChild cid = true := by simpa [attested, hfirst] using hf
    simp [attested, hc, hfirst, CTimer.set, CTimer.expire]
  | false =>
    simpa [attested, hfirst] using h hfirst

/-- Attestation packets, one after the other, as long as there is room. -/
theorem exec_attestations (nd : Node) (b : Buffers) {es : List Event}
    {packets : List (NodeId × Checksum)} {s : State} (hb : Bounded s) (hst : Started s)
    (ha : AttestationArrivals s.childList.ids es packets)
    (hroom : s.curLoc + packets.length ≤ maxChild) :
    ∃ t s', (machine nd b).exec s es = .ok (t, s') ∧
      s'.checksums = s.checksums ++ packets.map Prod.snd ∧ Started s' ∧
      ((s.firstChild = false ∨ ∃ p ∈ packets, p.1 ∈ s.childList.ids) → s'.firstChild = false) := by
  induction es generalizing s packets with
  | nil =>
    cases packets with
    | nil => exact ⟨[], s, rfl, by simp, hst, by simp⟩
    | cons p ps => simp [AttestationArrivals] at ha
  | cons e es ih =>
    cases packets with
    | nil => simp [AttestationArrivals] at ha
    | cons p ps =>
      simp only [AttestationArrivals, List.map_cons, List.cons.injEq] at ha
      rw [List.length_cons] at hroom
      obtain ⟨a, hs, hcs⟩ := step_attestation nd b hb ha.1 (by omega)
      obtain ⟨t, s', hex, hcs', hst', hfirst⟩ := ih (s := attested s p.1 a)
        ⟨show s.curLoc + 1 ≤ _ by omega, hb.pathsLoc_le⟩ (attested_started hst) ha.2
        (show s.curLoc + 1 + _ ≤ _ by omega)
      refine ⟨_, s', Machine.exec_cons.2 ⟨_, _, _, hs, hex, rfl⟩, ?_, hst', fun h => hfirst ?_⟩
      · rw [hcs', hcs]
        simp
      · rcases h with hf | ⟨q, hq, hmem⟩
        · exact .inl (by simp [attested, hf])
        · rcases List.mem_cons.1 hq with rfl | hq
          · exact .inl (by simp [attested, ChildList.isChild_iff.2 hmem])
          · exact .inr ⟨q, hq, hmem⟩

theorem RoundStart.freshRound {nd : Node} {b : Buffers} {s : State} (hb : Bounded s)
    (h : RoundStart s) : FreshRound nd b s := by
  intro es packets ha hlen
  have hempty : s.checksums = [] := by simp [State.checksums, h.curLoc]
  obtain ⟨t, s', hex, hcs, hst, hfirst⟩ := exec_attestations nd b hb
    (fun hf => by rw [h.firstChild] at hf; cases hf) ha (by rw [h.curLoc]; omega)
  rw [hempty, List.nil_append] at hcs
  exact ⟨t, s', hex, hcs, fun hchild => hst (hfirst (.inr hchild))⟩

theorem clear_restChildList (c : ChildList) : c.restChildList.Clear := by
  intro l hl
  obtain ⟨l', -, rfl⟩ := List.mem_map.1 hl
  rfl

theorem attestation_timer_iff {nd : Node} {b : Buffers} {c : ChildList} {t : History} {s : State}
    (hr : (machine nd b).Run (init c) t s)
    (hx : s.periodicTimer.expire.1 = some .sendAttestationResp) :
    AnswersAndResets nd b s ↔
      xorAll ((pending c.ids t).map Taken.checksum) ≠ ownChecksum nd.id := by
  have hg := run_good hr
  have hcombined : xorAll s.checksums ^^^ ownChecksum nd.id = 0 ↔
      xorAll ((pending c.ids t).map Taken.checksum) = ownChecksum nd.id := by
    rw [hg.checksums]
    exact BitVec.xor_eq_zero_iff
  constructor
  · rintro ⟨s', resp, hs, -⟩ hz
    rw [step_periodicZero hg.bounded.curLoc_le hx (hcombined.2 hz)] at hs
    cases hs
  · intro hne
    have hstep := step_periodicAttestation (b := b) hg.bounded.curLoc_le hx
      fun hz => hne (hcombined.1 hz)
    have hstart : ∀ s₁ : State, RoundStart (resetVariable s₁) :=
      fun s₁ => ⟨rfl, rfl, clear_restChildList _⟩
    exact ⟨_, _, hstep, rfl, rfl, hstart _, (hstart _).freshRound (resetVariable_bounded _)⟩

theorem attestation_timer_answers :
    ∃ t s, sampleMachine.Run (init twoChildren) t s ∧
      pending twoChildren.ids t = [⟨.attestation, 2, ownChecksum 2⟩] ∧
      AnswersAndResets sampleNode .contiki s := by
  have hr : sampleMachine.Run (init twoChildren)
      [(.broadcast 2 (.attestation (ownChecksum 2)), [])] _ := .next (t := []) .start trivial rfl
  exact ⟨_, _, hr, rfl, (attestation_timer_iff hr rfl).2 (by decide)⟩

/-- The honest checksums of the children 2, 4 and 7 combine to that of relay 1: 2 ^ 4 ^ 7 = 1. -/
theorem attestation_timer_stuck :
    ∃ t s, sampleMachine.Run (init ⟨[⟨2, false⟩, ⟨4, false⟩, ⟨7, false⟩], 3, rfl, by decide⟩) t s ∧
      pending [2, 4, 7] t = [⟨.attestation, 2, ownChecksum 2⟩, ⟨.attestation, 4, ownChecksum 4⟩,
        ⟨.attestation, 7, ownChecksum 7⟩] ∧
      s.periodicTimer.expire.1 = some .sendAttestationResp ∧
      ¬ AnswersAndResets sampleNode .contiki s := by
  have hr : sampleMachine.Run (init ⟨[⟨2, false⟩, ⟨4, false⟩, ⟨7, false⟩], 3, rfl, by decide⟩)
      [(.broadcast 2 (.attestation (ownChecksum 2)), []),
        (.broadcast 4 (.attestation (ownChecksum 4)), []),
        (.broadcast 7 (.attestation (ownChecksum 7)), [])] _ :=
    .next (t := [_, _]) (.next (t := [_]) (.next (t := []) .start trivial rfl) trivial rfl)
      trivial rfl
  refine ⟨_, _, hr, rfl, rfl, ?_⟩
  rintro ⟨s', resp, hs, -⟩
  cases hs

end Relay
end Swarna
