import Swarna.Ledger
import Swarna.RelayHistory

/-!
# Swarna.Accounting

What the checksum of a response covers. The ledger of a relay has an item for every checksum taken
in and a report for every response of `send_topology_resp` and `send_attestation_resp`; one packet
may cause several responses, when it fills the path.

* `books_step`: every step keeps the books. The first response takes all checksums waiting, with
  the one just stored; those sent after it for the same packet carry the own checksum alone.
* `topology_checksums_accounted`: in the topology phase every response carries the own checksum and
  those of exactly the packets accepted since the response before, `cur_loc` stays below the number
  of children, and no event faults.
* `snapshot_describes_last`: as long as only children are heard, there is room for their checksums
  and no packet fills the path, what the second round reports is the last response, and no event
  faults. `snapshot_lost`: a full path is followed by two resets, and the second takes its snapshot
  of nothing.
-/

namespace Swarna
namespace Relay

open Ledger (owed last Accounted)

/-! ## The ledger -/

/-- The checksum of a response of `send_topology_resp` or `send_attestation_resp`. -/
def Action.response? : Action → Option Checksum
  | .sendToParents (.topology o) false _ => some o.checksum
  | .storeBroadcast (.attestation x) => some x
  | _ => none

/-- The entries of one event: the checksum it stores, then the responses. -/
def entries (children : List NodeId) (e : Event) (out : List Action) :
    List (Entry Checksum Checksum) :=
  ((taken children e).map fun p => .item p.checksum).toList ++
    (out.filterMap fun a => Action.response? a).map .report

def ledger (children : List NodeId) (t : History) : List (Entry Checksum Checksum) :=
  t.flatMap fun x => entries children x.1 x.2

theorem ledger_snoc (children : List NodeId) (t : History) (e : Event) (out : List Action) :
    ledger children (t ++ [(e, out)]) = ledger children t ++ entries children e out := by
  simp [ledger]

/-- The checksum of a response that covers `items`. -/
def covering (nd : Node) (items : List Checksum) : Checksum := xorAll items ^^^ ownChecksum nd.id

theorem entries_quiet {children : List NodeId} {e : Event} {out : List Action}
    (he : taken children e = none) (ho : ∀ a ∈ out, Action.response? a = none) :
    entries children e out = [] := by
  have hout : out.filterMap (fun a => Action.response? a) = [] := List.filterMap_eq_nil_iff.2 ho
  simp [entries, he, hout]

theorem entries_topology {nd : Node} {children : List NodeId} {e : Event} {cid : NodeId}
    {t : TopologyInfo} (hh : heard children e = some (cid, .topology t)) (hmem : cid ∈ children)
    (out : List TopologyInfo) :
    entries children e (out.map fun o => sendToParents nd (.topology o) false) =
      .item t.checksum :: (out.map TopologyInfo.checksum).map .report := by
  have hout : (out.map fun o => sendToParents nd (.topology o) false).filterMap
      (fun a => Action.response? a) = out.map TopologyInfo.checksum := by
    induction out with
    | nil => rfl
    | cons o out ih => simp [sendToParents, Action.response?]
  have ht : taken children e = some ⟨.topology, cid, t.checksum⟩ := by simp [taken, hh, hmem]
  simp only [entries, hout, ht]
  rfl

theorem mcastTcpipHandler_noResponse (nd : Node) (s : State) (mpkt : RequestPacket) :
    ∀ a ∈ (mcastTcpipHandler nd s mpkt).2, Action.response? a = none := by
  intro a ha
  unfold mcastTcpipHandler at ha
  split at ha
  · cases ha
  · split at ha
    · rename_i resp _ _
      rw [List.mem_singleton.1 ha]
      cases resp <;> rfl
    · split at ha
      · rw [List.mem_singleton.1 ha]
        rfl
      · cases ha

theorem udpSecreqCallback_noResponse (s : State) (secreq : RequestPacket) :
    ∀ a ∈ udpSecreqCallback s secreq, Action.response? a = none := by
  intro a ha
  obtain ⟨-, resp, rfl⟩ := mem_udpSecreqCallback ha
  rfl

/-- The responses to one packet: the first covers everything waiting and the packet. -/
theorem TopologyOutcome.responses {nd : Node} {s s' : State} {t : TopologyInfo} {cid : NodeId}
    {new : List NodeId} {out : List TopologyInfo} (h : TopologyOutcome nd s t cid new s' out) :
    out = [] ∨ ∃ o os, out = o :: os ∧ o.checksum = covering nd (s.checksums ++ [t.checksum]) ∧
      ∀ o' ∈ os, o'.checksum = covering nd [] := by
  cases h with
  | waits _ _ => exact .inl rfl
  | completes hacc _ =>
    refine .inr ⟨_, [], rfl, ?_, by simp⟩
    rw [← hacc.checksums]
    rfl
  | splits ho hos _ _ _ => exact .inr ⟨_, _, rfl, ho, by simpa [covering] using hos⟩

/-! ## Every step keeps the books -/

/-- Every response covers what it is due to cover, and what is not covered yet is stored. -/
structure Books (nd : Node) (l : List (Entry Checksum Checksum)) (s : State) : Prop where
  accounted : Accounted (covering nd) l
  due : s.checksums = owed l

theorem Books.quiet {nd : Node} {children : List NodeId} {l : List (Entry Checksum Checksum)}
    {s s' : State} {e : Event} {out : List Action} (h : Books nd l s)
    (he : taken children e = none) (ho : ∀ a ∈ out, Action.response? a = none)
    (hs : s'.checksums = s.checksums) : Books nd (l ++ entries children e out) s' := by
  rw [entries_quiet he ho, List.append_nil]
  exact ⟨h.accounted, by rw [hs, h.due]⟩

theorem Books.report {nd : Node} {l : List (Entry Checksum Checksum)} {s s' : State}
    {x : Checksum} (h : Books nd l s) (hx : x = covering nd s.checksums)
    (hs : s'.checksums = []) : Books nd (l ++ [.report x]) s' where
  accounted := Ledger.accounted_report h.accounted (by rw [hx, h.due])
  due := by rw [hs, Ledger.owed_report]

theorem Books.item {nd : Node} {l : List (Entry Checksum Checksum)} {s s' : State}
    {x : Checksum} (h : Books nd l s) (hs : s'.checksums = s.checksums ++ [x]) :
    Books nd (l ++ [.item x]) s' where
  accounted := Ledger.accounted_item h.accounted x
  due := by rw [hs, h.due, Ledger.owed_item]

theorem Books.topology {nd : Node} {l : List (Entry Checksum Checksum)} {s s' : State}
    {t : TopologyInfo} {cid : NodeId} {new : List NodeId} {out : List TopologyInfo}
    (h : Books nd l s) (ho : TopologyOutcome nd s t cid new s' out) :
    Books nd (l ++ .item t.checksum :: (out.map TopologyInfo.checksum).map .report) s' := by
  have hs := ho.checksums
  have hitem := Ledger.accounted_item h.accounted t.checksum
  rcases ho.responses with rfl | ⟨o, os, rfl, hfirst, hrest⟩
  · rw [if_pos rfl] at hs
    exact h.item hs
  · have hdue : o.checksum = covering nd (owed (l ++ [.item t.checksum])) := by
      rw [hfirst, Ledger.owed_item, h.due]
    have hsent := Ledger.accounted_reports (os.map TopologyInfo.checksum)
      (Ledger.accounted_report hitem hdue) (Ledger.owed_report _ _) (by simpa using hrest)
    rw [if_neg (List.cons_ne_nil o os)] at hs
    rw [List.append_cons, List.map_cons, List.map_cons, List.append_cons]
    exact ⟨hsent.1, by rw [hs, hsent.2]⟩

theorem books_step {nd : Node} {l : List (Entry Checksum Checksum)} {s s' : State} {e : Event}
    {out : List Action} (h : Books nd l s) (ho : StepOutcome nd s e s' out) :
    Books nd (l ++ entries s.childList.ids e out) s' := by
  cases ho with
  | ignored _ he => exact h.quiet he (by simp) rfl
  | request mpkt _ _ he =>
    obtain ⟨r, hr⟩ := mcastTcpipHandler_state nd s mpkt
    rw [hr]
    exact h.quiet he (mcastTcpipHandler_noResponse nd s mpkt) rfl
  | topology hh hmem _ ho =>
    rw [entries_topology hh hmem]
    exact h.topology ho
  | @attestation e cid x a hh _ hcs =>
    have hentries : entries s.childList.ids e [] = [.item x] := by simp [entries, taken, hh]
    rw [hentries]
    exact h.item hcs
  | secReq secreq => exact h.quiet rfl (udpSecreqCallback_noResponse s secreq) rfl
  | periodicIdle _ => exact h.quiet rfl (by simp) rfl
  | periodicTopology _ => exact h.report rfl (by simp)
  | periodicAttestation _ _ => exact h.report rfl (by simp)
  | periodicZero _ _ => exact h.quiet rfl (by simp) rfl
  | pIdle _ => exact h.quiet rfl (by simp) rfl
  | pBroadcast _ => exact h.quiet rfl (by simp [Action.response?]) rfl

/-! ## The topology phase -/

/-- No attestation packet arrives, and the periodic timer is not set for an attestation response. -/
def TopologyPhase (children : List NodeId) (_ : History) (s : State) (e : Event) : Prop :=
  (∀ cid x, heard children e ≠ some (cid, .attestation x)) ∧
    (e = .periodicExpiry → s.periodicTimer.expire.1 ≠ some .sendAttestationResp)

theorem TopologyOutcome.curLoc_lt {nd : Node} {s s' : State} {t : TopologyInfo} {cid : NodeId}
    {new : List NodeId} {out : List TopologyInfo} (h : TopologyOutcome nd s t cid new s' out)
    (hlt : s.curLoc < s.childList.getChildCount) : s'.curLoc < s'.childList.getChildCount := by
  cases h with
  | waits hacc hcount =>
    obtain ⟨a, p, n, rfl⟩ := hacc.frame
    simp only [ChildList.getChildCount_childSetPktReceived]
    omega
  | completes hacc _ =>
    obtain ⟨a, p, n, rfl⟩ := hacc.frame
    simp only [resetVariable_curLoc, resetVariable_childList,
      ChildList.getChildCount_restChildList, ChildList.getChildCount_childSetPktReceived]
    omega
  | splits _ _ _ _ _ =>
    simp only [resetVariable_curLoc, resetVariable_childList,
      ChildList.getChildCount_restChildList]
    omega

/-- In the topology phase the relay never waits for more packets than it has children. -/
theorem curLoc_lt_step {nd : Node} {t : History} {s s' : State} {e : Event} {out : List Action}
    (hlt : s.curLoc < s.childList.getChildCount) (hp : TopologyPhase s.childList.ids t s e)
    (h : StepOutcome nd s e s' out) : s'.curLoc < s'.childList.getChildCount := by
  have hreset : ∀ s₁ : State, s₁.childList = s.childList →
      (resetVariable s₁).curLoc < (resetVariable s₁).childList.getChildCount := by
    intro s₁ hs₁
    simp only [resetVariable_curLoc, resetVariable_childList,
      ChildList.getChildCount_restChildList, hs₁]
    omega
  cases h with
  | ignored _ _ | secReq _ | periodicIdle _ | periodicZero _ _ | pIdle _ | pBroadcast _ => exact hlt
  | request mpkt _ _ _ =>
    obtain ⟨r, hr⟩ := mcastTcpipHandler_state nd s mpkt
    rw [hr]
    exact hlt
  | topology _ _ _ ho => exact ho.curLoc_lt hlt
  | attestation hh _ _ => exact absurd hh (hp.1 _ _)
  | periodicTopology _ => exact hreset _ rfl
  | periodicAttestation _ _ => exact hreset _ rfl

theorem topology_checksums_accounted {nd : Node} {b : Buffers} {c : ChildList} (hc : c.ids ≠ [])
    {t₀ : History} {s₀ : State} (hr₀ : (machine nd b).Run (init c) t₀ s₀) (h₀ : s₀.curLoc = 0)
    {t : History} {s : State} (hr : (machine nd b).RunIf (TopologyPhase c.ids) s₀ t s) :
    Accounted (covering nd) (ledger c.ids t) ∧ s.curLoc < s.childList.getChildCount ∧
      ∀ e, TopologyPhase c.ids t s e → ∃ s' out, step nd b s e = .ok (s', out) := by
  have hg₀ := run_good hr₀
  have hpos : 0 < s₀.childList.getChildCount := by
    rw [← ChildList.ids_length, hg₀.children_eq]
    exact List.length_pos_iff.2 hc
  have hempty : s₀.checksums = [] := by simp [State.checksums, h₀]
  have hinv : Good c.ids (t₀ ++ t) s ∧ Books nd (ledger c.ids t) s ∧
      s.curLoc < s.childList.getChildCount := by
    refine hr.invariant (P := fun t s => Good c.ids (t₀ ++ t) s ∧ Books nd (ledger c.ids t) s ∧
      s.curLoc < s.childList.getChildCount)
      ⟨by rwa [List.append_nil], ⟨Ledger.accounted_nil, hempty⟩, by omega⟩ ?_
    rintro t s e s' out ⟨hg, hbooks, hlt⟩ hp hs
    have ho := outcome_of_step hg.bounded hs
    rw [ledger_snoc, ← List.append_assoc]
    refine ⟨good_step hg ho, ?_, ?_⟩
    · have hstep := books_step hbooks ho
      rwa [hg.children_eq] at hstep
    · rw [← hg.children_eq] at hp
      exact curLoc_lt_step hlt hp ho
  obtain ⟨hg, hbooks, hlt⟩ := hinv
  refine ⟨hbooks.accounted, hlt, fun e he => ?_⟩
  rcases step_outcome nd b e hg.bounded with ⟨-, -, hfull⟩ | ⟨s', out, hs, -⟩
  · have hle := s.childList.ids_length_le
    rw [ChildList.ids_length] at hle
    omega
  · exact ⟨s', out, hs⟩

/-- A packet of a child is accepted, and the timer sends the response. -/
theorem topology_checksums_accounted_timer :
    ∃ t s, sampleMachine.RunIf (TopologyPhase twoChildren.ids) (init twoChildren) t s ∧
      ledger twoChildren.ids t = [.item 7, .report (7 ^^^ ownChecksum 1)] ∧
      Accounted (covering sampleNode) (ledger twoChildren.ids t) ∧
      s.curLoc < s.childList.getChildCount ∧
      ∀ e, TopologyPhase twoChildren.ids t s e →
        ∃ s' out, step sampleNode .contiki s e = .ok (s', out) := by
  have hr : sampleMachine.RunIf (TopologyPhase twoChildren.ids) (init twoChildren)
      [(.tcpip 2 (.topology ⟨1, [2], 0, 7⟩), _), (.periodicExpiry, _)] _ :=
    .next (t := [_]) (.next (t := []) .start ⟨nofun, nofun⟩ rfl) ⟨nofun, fun _ => nofun⟩ rfl
  exact ⟨_, _, hr, rfl, topology_checksums_accounted (c := twoChildren) nofun .start rfl hr⟩

/-! ## The second-round snapshot -/

/-- The variables of the second round list `items`. -/
def Describes (s : State) (items : List Checksum) : Prop :=
  s.maxIndex.toNat = items.length ∧ s.secChecksumChildren.toList.take s.maxIndex.toNat = items

theorem describes_reset {s : State} (h : s.curLoc ≤ maxChild) :
    Describes (resetVariable s) s.checksums := by
  have hlt : s.curLoc < 256 := by unfold maxChild at h; omega
  have hidx : (resetVariable s).maxIndex.toNat = s.curLoc := Nat.mod_eq_of_lt hlt
  refine ⟨?_, ?_⟩
  · rw [hidx]
    simp [State.checksums, h]
  · rw [hidx]
    rfl

/-- The checksum an event stores is a child's and finds room, and the ids of a child's packet that
are not waiting yet fit into `paths`. -/
structure PacketFits (children : List NodeId) (_ : History) (s : State) (e : Event) : Prop where
  child : ∀ p, taken children e = some p → p.sender ∈ children
  room : taken children e ≠ none → s.curLoc < maxChild
  path : ∀ cid t, heard children e = some (cid, .topology t) → cid ∈ children →
    s.pathsLoc + (fresh s t.ids).length ≤ maxPathNodes - 3

/-- The checksums of children taken in, and the responses. -/
def childEntries (children : List NodeId) (e : Event) (out : List Action) :
    List (Entry Checksum Checksum) :=
  (((taken children e).filter fun p => decide (p.sender ∈ children)).map fun p =>
      .item p.checksum).toList ++
    (out.filterMap fun a => Action.response? a).map .report

def childLedger (children : List NodeId) (t : History) : List (Entry Checksum Checksum) :=
  t.flatMap fun x => childEntries children x.1 x.2

theorem childLedger_snoc (children : List NodeId) (t : History) (e : Event) (out : List Action) :
    childLedger children (t ++ [(e, out)]) =
      childLedger children t ++ childEntries children e out := by
  simp [childLedger]

/-- As long as only children are heard, the two ledgers are one. -/
theorem PacketFits.childEntries {children : List NodeId} {t : History} {s : State} {e : Event}
    (h : PacketFits children t s e) (out : List Action) :
    childEntries children e out = entries children e out := by
  cases ht : taken children e with
  | none => simp [Relay.childEntries, entries, ht]
  | some p => simp [Relay.childEntries, entries, ht, Option.filter, h.child p ht]

/-- Then no event faults. -/
theorem PacketFits.step {nd : Node} {b : Buffers} {t : History} {s : State} {e : Event}
    (h : PacketFits s.childList.ids t s e) (hb : Bounded s) :
    ∃ s' out, step nd b s e = .ok (s', out) := by
  rcases step_outcome nd b e hb with ⟨-, htaken, hfull⟩ | ⟨s', out, hs, -⟩
  · have hroom := h.room (Option.isSome_iff_ne_none.1 htaken)
    omega
  · exact ⟨s', out, hs⟩

/-- A packet that fits is stored, and completes the round or not. -/
theorem step_topology_fits {nd : Node} {b : Buffers} {s s' : State} {e : Event} {cid : NodeId}
    {t : TopologyInfo} {out : List Action} (hh : heard s.childList.ids e = some (cid, .topology t))
    (hmem : cid ∈ s.childList.ids) (hcur : s.curLoc < maxChild)
    (hfit : s.pathsLoc + (fresh s t.ids).length ≤ maxPathNodes - 3)
    (h : step nd b s e = .ok (s', out)) :
    ∃ s₂ sent, Accepted s t cid (fresh s t.ids) s₂ ∧
      out = sent.map (fun o => sendToParents nd (.topology o) false) ∧
      ((s' = resetVariable { s₂ with myChecksum := ownChecksum nd.id } ∧
          sent = [topologyResp nd s₂]) ∨
        (s' = { s₂ with periodicTimer := s₂.periodicTimer.set .sendTopologyResp } ∧
          sent = [])) := by
  obtain ⟨sent, hreq, rfl⟩ := step_topology_ok hh h
  obtain ⟨s₂, hacc, -, hcase⟩ :=
    processTopologyReq_fits nd (e.after b) (ChildList.isChild_iff.2 hmem) hcur hfit
  refine ⟨s₂, sent, hacc, rfl, ?_⟩
  rcases hcase with ⟨-, hrun⟩ | ⟨-, hrun⟩ <;> rw [hrun] at hreq <;> cases hreq
  · exact .inl ⟨rfl, rfl⟩
  · exact .inr ⟨rfl, rfl⟩

section Describes

variable {nd : Node} {b : Buffers} {l : List (Entry Checksum Checksum)} {s s' : State} {e : Event}
  {out : List Action} {r : Checksum} {items : List Checksum}

/-- A response covers what is stored when it is built. -/
theorem describes_report {x : Checksum} (hle : s.curLoc ≤ maxChild) (hdue : s.checksums = owed l)
    (hl : last (l ++ [.report x]) = some (r, items)) : Describes (resetVariable s) items := by
  rw [Ledger.last_report] at hl
  cases hl
  rw [← hdue]
  exact describes_reset hle

theorem describes_topology {cid : NodeId} {t : TopologyInfo} (hbooks : Books nd l s)
    (hd : ∀ r items, last l = some (r, items) → Describes s items)
    (hh : heard s.childList.ids e = some (cid, .topology t)) (hmem : cid ∈ s.childList.ids)
    (hcur : s.curLoc < maxChild)
    (hfit : s.pathsLoc + (fresh s t.ids).length ≤ maxPathNodes - 3)
    (hs : step nd b s e = .ok (s', out))
    (hl : last (l ++ entries s.childList.ids e out) = some (r, items)) : Describes s' items := by
  obtain ⟨s₂, sent, hacc, rfl, ⟨rfl, rfl⟩ | ⟨rfl, rfl⟩⟩ := step_topology_fits hh hmem hcur hfit hs
  · rw [entries_topology hh hmem, List.append_cons] at hl
    refine describes_report hacc.bounded.curLoc_le ?_ hl
    rw [Ledger.owed_item, ← hbooks.due]
    exact hacc.checksums
  · obtain ⟨a, p, n, rfl⟩ := hacc.frame
    rw [entries_topology hh hmem, List.map_nil, List.map_nil, Ledger.last_item] at hl
    exact hd r items hl

/-- The snapshot is taken with the response, and kept until the next. -/
theorem describes_step {t : History} (hb : Bounded s) (hbooks : Books nd l s)
    (hd : ∀ r items, last l = some (r, items) → Describes s items)
    (hfit : PacketFits s.childList.ids t s e) (hs : step nd b s e = .ok (s', out))
    (hl : last (l ++ entries s.childList.ids e out) = some (r, items)) : Describes s' items := by
  have hquiet : entries s.childList.ids e out = [] → Describes s items := by
    intro hnil
    rw [hnil, List.append_nil] at hl
    exact hd r items hl
  cases outcome_of_step hb hs with
  | ignored _ he => exact hquiet (entries_quiet he (by simp))
  | request mpkt _ _ he =>
    obtain ⟨r', hr'⟩ := mcastTcpipHandler_state nd s mpkt
    rw [hr']
    exact hquiet (entries_quiet he (mcastTcpipHandler_noResponse nd s mpkt))
  | topology hh hmem hcur _ =>
    exact describes_topology hbooks hd hh hmem hcur (hfit.path _ _ hh hmem) hs hl
  | @attestation _ cid x a hh _ _ =>
    have hentries : entries s.childList.ids e [] = [.item x] := by simp [entries, taken, hh]
    rw [hentries, Ledger.last_item] at hl
    exact hd r items hl
  | secReq secreq => exact hquiet (entries_quiet rfl (udpSecreqCallback_noResponse s secreq))
  | periodicIdle _ => exact hquiet (entries_quiet rfl (by simp))
  | periodicTopology _ => exact describes_report hb.curLoc_le hbooks.due hl
  | periodicAttestation _ _ => exact describes_report hb.curLoc_le hbooks.due hl
  | periodicZero _ _ => exact hquiet (entries_quiet rfl (by simp))
  | pIdle _ => exact hquiet (entries_quiet rfl (by simp))
  | pBroadcast _ => exact hquiet (entries_quiet rfl (by simp [Action.response?]))

end Describes

/-- After every response and until the next, the variables of the second round list the checksums
of the children's packets it covers. -/
theorem snapshot_describes_last {nd : Node} {b : Buffers} {c : ChildList} {t : History} {s : State}
    (hr : (machine nd b).RunIf (PacketFits c.ids) (init c) t s) :
    (∀ r items, last (childLedger c.ids t) = some (r, items) →
        r = covering nd items ∧ Describes s items ∧ ∀ q resp,
          .sendSecResp resp ∈ udpSecreqCallback s q → resp.maxIndex.toNat = items.length) ∧
      ∀ e, PacketFits c.ids t s e → ∃ s' out, step nd b s e = .ok (s', out) := by
  have hinv : Good c.ids t s ∧ Books nd (childLedger c.ids t) s ∧
      ∀ r items, last (childLedger c.ids t) = some (r, items) → Describes s items := by
    refine hr.invariant (P := fun t s => Good c.ids t s ∧ Books nd (childLedger c.ids t) s ∧
      ∀ r items, last (childLedger c.ids t) = some (r, items) → Describes s items)
      ⟨good_init c, ⟨Ledger.accounted_nil, by simp [State.checksums, init]; rfl⟩, nofun⟩ ?_
    rintro t s e s' out ⟨hg, hbooks, hd⟩ hfit hs
    have ho := outcome_of_step hg.bounded hs
    refine ⟨good_step hg ho, ?_⟩
    rw [childLedger_snoc, hfit.childEntries]
    rw [← hg.children_eq] at hbooks hd hfit ⊢
    exact ⟨books_step hbooks ho,
      fun r items hl => describes_step hg.bounded hbooks hd hfit hs hl⟩
  obtain ⟨hg, hbooks, hd⟩ := hinv
  refine ⟨fun r items hl => ?_, fun e he => ?_⟩
  · have hdesc := hd r items hl
    refine ⟨hbooks.accounted.last hl, hdesc, fun q resp hresp => ?_⟩
    unfold udpSecreqCallback at hresp
    split at hresp
    · cases List.mem_singleton.1 hresp
      exact hdesc.1
    · cases hresp
  · rw [← hg.children_eq] at he
    exact he.step hg.bounded

/-- The packets of two children complete a round, and a packet of the next is waiting. -/
theorem snapshot_describes_last_round :
    ∃ t s, sampleMachine.RunIf (PacketFits twoChildren.ids) (init twoChildren) t s ∧
      last (childLedger twoChildren.ids t) = some (7 ^^^ (8 ^^^ ownChecksum 1), [7, 8]) ∧
      Describes s [7, 8] ∧
      ∀ q resp, .sendSecResp resp ∈ udpSecreqCallback s q → resp.maxIndex.toNat = 2 := by
  have hfits : ∀ {s : State} {src : Addr} {t : TopologyInfo} {u : History},
      getIdFromAddr src ∈ twoChildren.ids → s.curLoc < maxChild →
      s.pathsLoc + (fresh s t.ids).length ≤ maxPathNodes - 3 →
        PacketFits twoChildren.ids u s (.tcpip src (.topology t)) := by
    intro s src t u hmem hroom hfit
    refine ⟨fun p hp => ?_, fun _ => hroom, fun cid t' hh _ => ?_⟩
    · have ht : taken twoChildren.ids (.tcpip src (.topology t)) =
          some ⟨.topology, getIdFromAddr src, t.checksum⟩ := if_pos hmem
      cases ht.symm.trans hp
      exact hmem
    · cases hh
      exact hfit
  have hr : sampleMachine.RunIf (PacketFits twoChildren.ids) (init twoChildren)
      [(.tcpip 2 (.topology ⟨1, [2], 0, 7⟩), _), (.tcpip 3 (.topology ⟨1, [3], 0, 8⟩), _),
        (.tcpip 2 (.topology ⟨1, [2], 0, 9⟩), _)] _ :=
    .next (t := [_, _]) (.next (t := [_]) (.next (t := []) .start
      (hfits (by decide) (by decide) (by decide)) rfl)
      (hfits (by decide) (by decide) (by decide)) rfl)
      (hfits (by decide) (by decide) (by decide)) rfl
  exact ⟨_, _, hr, rfl, ((snapshot_describes_last hr).1 _ _ rfl).2⟩

/-- The packet of an only child fills the path. The response sent on the way covers its checksum;
the second reset leaves no checksum listed. -/
theorem snapshot_lost :
    ∃ t s, sampleMachine.Run (init oneChild) t s ∧
      last (childLedger oneChild.ids t) = some (7 ^^^ ownChecksum 1, [7]) ∧ ¬ Describes s [7] ∧
      udpSecreqCallback s ⟨secondRound, 0⟩ = [.sendSecResp ⟨0, ownChecksum 1⟩] := by
  have hr : sampleMachine.Run (init oneChild)
      [(.tcpip 2 (.topology ⟨8, [11, 12, 13, 14, 15, 16, 17, 18], 0, 7⟩), _)] _ :=
    .next (t := []) .start trivial rfl
  exact ⟨_, _, hr, rfl, fun h => absurd h.1 (by decide), rfl⟩

end Relay
end Swarna
