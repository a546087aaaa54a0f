import Swarna.Campaign
import Swarna.HostLog

/-!
# Swarna.HostRounds

What the host has of whole rounds: it reads from the serial line what the border router logs of
them.

* `topology_read`: after a topology round, the paths and checksums of all children.
* `campaign_read`: after any number of attestation rounds, the aggregates of each round, apart.
-/

namespace Swarna

open Deployment (testbedStart OneMulticast log)
open Network (History traceOf)
open BorderRouter (Output isAnswer)
open SerialLine (Platform Item Proper machine uart host isReport board boot)

variable {ι : Type} [Fintype ι] [DecidableEq ι] {D : Deployment ι} {T : Tree ι}
  {nodes : ι → NodeState} {group : List ι} {v w : Nat} {root : ι} {P : Platform}
  {m₀ m : SerialLine.State w} {τ : Trace (SerialLine.Event w) Item}

/-- Answers are among the reports. -/
theorem filter_isAnswer (l : List (Output v)) :
    (l.filter isReport).filter isAnswer = l.filter isAnswer := by
  rw [List.filter_filter]
  refine List.filter_congr fun o _ => ?_
  cases o <;> rfl

/-- Counts are among the reports. -/
theorem filterMap_received (l : List (Output v)) :
    (l.filter isReport).filterMap BorderRouter.received? =
      l.filterMap BorderRouter.received? := by
  rw [List.filterMap_filter]
  refine List.filterMap_congr fun o _ => ?_
  cases o <;> rfl

namespace TopologyTree

variable {links : ι → List ι}

/-- After a topology round, over every interleaving, the host has read from the serial line the
path and the checksum of each child of the border router: they list all nodes below it, and the
checksums add up to those of these nodes. -/
theorem topology_read (hP : P.Documented) (hT : TopologyTree D T links nodes) (hg : group.Nodup)
    (hgroup : ∀ n, n ∈ group ↔ IsClient nodes n) (hv : 32 ≤ v) (hroot : nodes root = .router)
    {t : History ι Payload (StationEvent w) (StationOutput v)}
    {s : Network.State ι (Station w) Payload}
    (hround : (D.testbed v group w).machine.RunIf (OneMulticast topology (OneRequest nodes))
      (testbedStart nodes m₀.router) t s)
    (hout : Deployment.multicasts t.outputs ≠ []) (hquiet : s.flight = [])
    (hr : (machine P v w).RunIf Proper m₀ τ m)
    (hevents : (τ.map Prod.fst).filterMap SerialLine.Event.datagram? =
      (D.routerTrace (traceOf root t)).map Prod.fst) :
    ∃ heard, Reported D T nodes root heard ∧
      (host v (uart P false τ.outputs).2).filter isAnswer = topologyLog v D heard ∧
      (∀ x ∈ heard, (x.2.checksum.setWidth v).setWidth 64 = x.2.checksum) ∧
      (∀ c, T.parent c = some root → c ∈ heard.map Prod.fst) ∧
      Enumerates D (heard.flatMap fun x => x.2.ids) ((T.subtree root).erase root) ∧
      xorAll (heard.map fun x => x.2.checksum) = xorOver ((T.subtree root).erase root) D.own := by
  obtain ⟨heard, hrep, hlog, hfits, hdone⟩ := round_log hT hg hgroup hv hround hroot
  obtain ⟨b, -, hrun, hlogged⟩ := Deployment.router_run hround hroot
  refine ⟨heard, hrep, ?_, hfits, hdone hout hquiet⟩
  rw [SerialLine.host_eq hP hr hrun hevents, filter_isAnswer, ← hlogged, hlog]

/-- The host hears of the relay. -/
theorem topology_read_line : ∃ τ m, (machine board 32 32).Run (boot ⟨0, 0, 0, 0, 0⟩) τ m ∧
    ∃ heard, Reported line lineTree lineNodes lineRouter heard ∧
      (host 32 (uart board false τ.outputs).2).filter isAnswer = topologyLog 32 line heard ∧
      lineRelay ∈ heard.map Prod.fst := by
  obtain ⟨t, s, hround, hout, hquiet⟩ := line_round
  obtain ⟨τ, m, hr, -, hevents⟩ := SerialLine.boot_datagrams ⟨0, 0, 0, 0, 0⟩
    ((line.routerTrace (traceOf lineRouter t)).map Prod.fst)
  obtain ⟨heard, hrep, hread, -, hall, -⟩ := topology_read
    SerialLine.board_documented line_topologyTree (List.nodup_singleton lineClient) line_group
    (Nat.le_refl 32) rfl hround hout hquiet hr hevents
  exact ⟨τ, m, hr.run, heard, hrep, hread, hall lineRelay rfl⟩

end TopologyTree

namespace AttestationTree

/-- After a campaign of any number of rounds, each over any interleaving and with any checksums of
the clients, the host has read the aggregates and the counts of each round, one round after the
other. -/
theorem campaign_read (hP : P.Documented) (hT : AttestationTree D T nodes)
    (hroot : ∀ n, nodes n = .router ↔ n = root) (hg : group.Nodup)
    (hgroup : ∀ n, n ∈ group ↔ IsClient nodes n) {rs : List (RoundRecord ι v w)}
    {s' : Network.State ι (Station w) Payload}
    (h : Campaign D T nodes group v w root (testbedStart nodes m₀.router) rs s')
    (hr : (machine P v w).RunIf Proper m₀ τ m)
    (hevents : (τ.map Prod.fst).filterMap SerialLine.Event.datagram? =
      rs.flatMap fun r => (r.routerTrace D root).map Prod.fst) :
    ∃ ls : List (List (Output v)), host v (uart P false τ.outputs).2 = ls.flatten ∧
      List.Forall₂ (fun r l => Shows D T nodes root r.assigned l) rs ls := by
  obtain ⟨hlogged, -, b, ρ, -, -, -, hρ, hρe, hρo⟩ := rounds hroot hg hgroup hT
    ⟨fun _ => Iff.rfl, fun _ => Iff.rfl, fun _ => Iff.rfl⟩ h
  refine ⟨rs.map fun r => (log root r.history).filter isReport, ?_, ?_⟩
  · rw [SerialLine.host_eq hP hr hρ (hevents.trans hρe.symm), hρo, List.filter_flatMap,
      List.flatMap_def]
  · refine List.forall₂_map_right_iff.2 (List.forall₂_same.2 fun r hmem => ?_)
    obtain ⟨heard, hnodup, hchild, hlog, hcounts⟩ := hlogged r hmem
    refine ⟨heard, hnodup, hchild, ?_, ?_⟩
    · rw [filter_isAnswer, hlog]
    · rw [filterMap_received, hcounts]

open TopologyTree (line lineTree lineNodes lineRouter line_group)

/-- The host tells two rounds on the line apart. -/
theorem campaign_read_line : ∃ τ m, (machine board 32 32).Run (boot ⟨0, 0, 0, 0, 7⟩) τ m ∧
    ∃ l l', host 32 (uart board false τ.outputs).2 = l ++ l' ∧
      Shows line lineTree lineNodes lineRouter (lineChecksums 5) l ∧
      Shows line lineTree lineNodes lineRouter (lineChecksums 9) l' := by
  obtain ⟨r, r', s', ha, ha', hcamp⟩ := line_campaign
  obtain ⟨τ, m, hr, -, hevents⟩ := SerialLine.boot_datagrams ⟨0, 0, 0, 0, 7⟩
    ([r, r'].flatMap fun r => (r.routerTrace line lineRouter).map Prod.fst)
  obtain ⟨ls, hread, hshows⟩ := campaign_read
    SerialLine.board_documented line_attestationTree line_root (List.nodup_singleton _) line_group
    hcamp hr hevents
  cases hshows with
  | cons hl hrest =>
    cases hrest with
    | cons hl' hnil =>
      cases hnil
      rw [ha] at hl
      rw [ha'] at hl'
      exact ⟨τ, m, hr.run, _, _, by rw [hread, List.flatten_cons, List.flatten_singleton], hl, hl'⟩

end AttestationTree
end Swarna
