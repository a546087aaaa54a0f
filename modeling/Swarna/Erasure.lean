import Swarna.Network

/-!
# Swarna.Erasure

A network seen with less detail: some packets become events of their receiver, some events and
outputs disappear, the state of a node is cut down. `Erasure.Sound` says that one step of one node
respects this.

* `trace`, `state`: a history and a state of the detailed network, erased. `traceOf_trace` erases
  the trace of one node.
* `Sound.run`: every run of the detailed network is, erased, a run of the other.
* `Sound.step_of_step`: it faults only where the other does.
-/

namespace Swarna

open Network (Label History traceOf)

structure Erasure (σ' μ' τ' ο' σ μ τ ο : Type) where
  node : σ' → σ
  /-- A packet stays one, or is an event of its receiver, or nothing. -/
  body : μ' → μ ⊕ Option τ
  event : τ' → Option τ
  output : ο' → Option ο

namespace Erasure

variable {ι σ' μ' τ' ο' σ μ τ ο φ : Type}

section

variable (E : Erasure σ' μ' τ' ο' σ μ τ ο)

def input : Input ι μ' τ' → Option (Input ι μ τ)
  | .recv src b => (E.body b).elim (fun b => some (.recv src b)) fun e => e.map .ext
  | .ext e => (E.event e).map .ext

def label : Label ι μ' τ' → Option (Label ι μ τ)
  | .deliver p => (E.body p.body).elim (fun b => some (.deliver ⟨p.src, p.dst, b⟩)) fun e =>
    e.map (.ext p.dst)
  | .ext n e => (E.event e).map (.ext n)

def packet (p : Packet ι μ') : Option (Packet ι μ) :=
  (E.body p.body).elim (fun b => some ⟨p.src, p.dst, b⟩) fun _ => none

/-- The trace of one node. -/
def nodeTrace (t : Trace (Input ι μ' τ') ο') : Trace (Input ι μ τ) ο :=
  t.filterMap fun x => (E.input x.1).map fun y => (y, x.2.filterMap E.output)

def trace (t : History ι μ' τ' ο') : History ι μ τ ο :=
  t.filterMap fun x => (E.label x.1).map fun l =>
    (l, x.2.filterMap fun o => (E.output o.2).map fun o' => (o.1, o'))

def state (s : Network.State ι σ' μ') : Network.State ι σ μ :=
  ⟨fun n => E.node (s.node n), s.flight.filterMap E.packet⟩

variable {E}

theorem label_cases (l : Label ι μ' τ') :
    (E.label l = none ∧ E.input l.input = none ∧ l.packet?.bind E.packet = none) ∨
      ∃ l', E.label l = some l' ∧ E.input l.input = some l'.input ∧ l'.target = l.target ∧
        l'.packet? = l.packet?.bind E.packet := by
  cases l with
  | deliver p =>
    cases hb : E.body p.body with
    | inl b =>
      exact .inr ⟨.deliver ⟨p.src, p.dst, b⟩, by simp [label, hb], by
        simp [input, Label.input, hb], rfl, by simp [Label.packet?, packet, hb]⟩
    | inr e =>
      cases e with
      | none =>
        exact .inl ⟨by simp [label, hb], by simp [input, Label.input, hb],
          by simp [Label.packet?, packet, hb]⟩
      | some e =>
        exact .inr ⟨.ext p.dst e, by simp [label, hb], by simp [input, Label.input, hb], rfl,
          by simp [Label.packet?, packet, hb]⟩
  | ext n e =>
    cases he : E.event e with
    | none => exact .inl ⟨by simp [label, he], by simp [input, Label.input, he], rfl⟩
    | some e' =>
      exact .inr ⟨.ext n e', by simp [label, he], by simp [input, Label.input, he], rfl, rfl⟩

@[simp] theorem trace_nil : E.trace ([] : History ι μ' τ' ο') = [] := rfl

theorem trace_snoc_none {t : History ι μ' τ' ο'} {l : Label ι μ' τ'} {out : List (ι × ο')}
    (h : E.label l = none) : E.trace (t ++ [(l, out)]) = E.trace t := by
  simp [trace, List.filterMap_append, h]

theorem trace_snoc_some {t : History ι μ' τ' ο'} {l : Label ι μ' τ'} {l' : Label ι μ τ} {n : ι}
    {acts : List ο'} (h : E.label l = some l') :
    E.trace (t ++ [(l, acts.map fun o => (n, o))]) =
      E.trace t ++ [(l', (acts.filterMap E.output).map fun o => (n, o))] := by
  simp only [trace, List.filterMap_append, List.filterMap_cons, h, Option.map_some,
    List.filterMap_nil, List.filterMap_map, List.map_filterMap]
  rfl

variable [DecidableEq ι]

/-- The trace of a node is erased with the history. -/
theorem traceOf_trace (n : ι) (t : History ι μ' τ' ο') :
    traceOf n (E.trace t) = E.nodeTrace (traceOf n t) := by
  induction t with
  | nil => rfl
  | cons x t ih =>
    obtain ⟨l, out⟩ := x
    have hout : (out.filterMap fun o => (E.output o.2).map fun o' => (o.1, o')).map Prod.snd =
        (out.map Prod.snd).filterMap E.output := by
      rw [List.map_filterMap, List.filterMap_map]
      refine List.filterMap_congr fun o _ => ?_
      cases h : E.output o.2 <;> simp [h]
    have hcons : ∀ (y : Label ι μ' τ' × List (ι × ο')) t, traceOf n (y :: t) =
        traceOf n [y] ++ traceOf n t := fun y t => by
      rw [← List.singleton_append]
      exact List.filterMap_append
    have hcons' : ∀ (y : Label ι μ τ × List (ι × ο)) t, traceOf n (y :: t) =
        traceOf n [y] ++ traceOf n t := fun y t => by
      rw [← List.singleton_append]
      exact List.filterMap_append
    have hnode : ∀ t₁ t₂ : Trace (Input ι μ' τ') ο', E.nodeTrace (t₁ ++ t₂) =
        E.nodeTrace t₁ ++ E.nodeTrace t₂ := fun _ _ => List.filterMap_append
    rw [hcons, hnode, ← ih]
    rcases label_cases (E := E) l with ⟨hl, hi, -⟩ | ⟨l', hl, hi, htarget, -⟩
    · have htrace : E.trace ((l, out) :: t) = E.trace t := by simp [trace, hl]
      rw [htrace]
      by_cases hn : l.target = n <;> simp [traceOf, nodeTrace, hn, hi]
    · have htrace : E.trace ((l, out) :: t) =
          (l', out.filterMap fun o => (E.output o.2).map fun o' => (o.1, o')) :: E.trace t := by
        simp [trace, hl]
      rw [htrace, hcons']
      by_cases hn : l.target = n
      · simp [traceOf, nodeTrace, htarget, hn, hi, hout]
      · simp [traceOf, nodeTrace, htarget, hn]

end

/-- One step of one node respects the erasure. -/
structure Sound (E : Erasure σ' μ' τ' ο' σ μ τ ο) (N : Network ι σ' μ' τ' ο' φ)
    (M : Network ι σ μ τ ο φ) : Prop where
  step : ∀ n v x y v' acts, E.input x = some y → N.step n v x = .ok (v', acts) →
    M.step n (E.node v) y = .ok (E.node v', acts.filterMap E.output)
  hidden : ∀ n v x v' acts, E.input x = none → N.step n v x = .ok (v', acts) →
    E.node v' = E.node v ∧ acts.filterMap E.output = []
  fault : ∀ n v x f, N.step n v x = .error f →
    ∃ y f', E.input x = some y ∧ M.step n (E.node v) y = .error f'
  post : ∀ n o, (N.packets n o).filterMap E.packet = (E.output o).toList.flatMap (M.packets n)

namespace Sound

variable [DecidableEq ι] [DecidableEq μ'] [DecidableEq μ] {E : Erasure σ' μ' τ' ο' σ μ τ ο}
  {N : Network ι σ' μ' τ' ο' φ} {M : Network ι σ μ τ ο φ}
  {C : History ι μ' τ' ο' → Network.State ι σ' μ' → Label ι μ' τ' → Prop}
  {C' : History ι μ τ ο → Network.State ι σ μ → Label ι μ τ → Prop}
  {s₀ s : Network.State ι σ' μ'} {t : History ι μ' τ' ο'}

omit [DecidableEq ι] [DecidableEq μ'] [DecidableEq μ] in
theorem packets (h : E.Sound N M) (n : ι) (acts : List ο') :
    (acts.flatMap (N.packets n)).filterMap E.packet =
      (acts.filterMap E.output).flatMap (M.packets n) := by
  induction acts with
  | nil => rfl
  | cons o acts ih =>
    rw [List.flatMap_cons, List.filterMap_append, h.post, ih]
    cases ho : E.output o <;> simp [ho]

omit [DecidableEq ι] [DecidableEq μ'] [DecidableEq μ] in
theorem mem_flight {s' : Network.State ι σ μ} {l : Label ι μ' τ'} {l' : Label ι μ τ}
    (hflight : s'.flight.Perm (E.state s).flight) (hmem : ∀ p ∈ l.packet?, p ∈ s.flight)
    (hp : l'.packet? = l.packet?.bind E.packet) : ∀ p ∈ l'.packet?, p ∈ s'.flight := by
  intro p hp'
  rw [hp] at hp'
  obtain ⟨q, hq, hqp⟩ := Option.mem_bind_iff.1 hp'
  exact hflight.mem_iff.2 (List.mem_filterMap.2 ⟨q, hmem q hq, hqp⟩)

/-- Every run is, erased, a run of the other network; what is in flight is the same up to order. -/
theorem run (h : E.Sound N M) (hr : N.machine.RunIf C s₀ t s)
    (hC : ∀ t s s' l l', N.machine.RunIf C s₀ t s → C t s l → (∀ p ∈ l.packet?, p ∈ s.flight) →
      E.label l = some l' → M.machine.RunIf C' (E.state s₀) (E.trace t) s' → C' (E.trace t) s' l') :
    ∃ s', M.machine.RunIf C' (E.state s₀) (E.trace t) s' ∧ s'.node = (E.state s).node ∧
      s'.flight.Perm (E.state s).flight := by
  induction hr with
  | start => exact ⟨_, .start, rfl, .rfl⟩
  | @next t s s₁ l out hr hc hs ih =>
    obtain ⟨s', hr', hnode, hflight⟩ := ih
    obtain ⟨v, acts, hv, hnode₁, rfl, hmem, hperm⟩ := Network.step_inv hs
    have hperm' := hperm.filterMap E.packet
    rw [List.filterMap_append, List.filterMap_append, h.packets] at hperm'
    rcases label_cases (E := E) l with ⟨hl, hi, hp⟩ | ⟨l', hl, hi, htarget, hp⟩
    · -- nothing of this step is seen
      obtain ⟨hsame, hout⟩ := h.hidden _ _ _ _ _ hi hv
      rw [trace_snoc_none hl]
      refine ⟨s', hr', ?_, ?_⟩
      · rw [hnode]
        funext n
        simp only [state, hnode₁]
        by_cases hn : n = l.target
        · subst hn
          rw [Function.update_self, hsame]
        · rw [Function.update_of_ne hn]
      · have hnone : l.packet?.toList.filterMap E.packet = [] := by
          cases hq : l.packet? with
          | none => rfl
          | some q =>
            rw [hq, Option.bind_some] at hp
            simp [hp]
        rw [hnone, hout, List.nil_append, List.flatMap_nil, List.append_nil] at hperm'
        exact hflight.trans hperm'.symm
    · have hpacket : l.packet?.toList.filterMap E.packet = l'.packet?.toList := by
        rw [hp]
        cases l.packet? with
        | none => rfl
        | some q => cases hq : E.packet q <;> simp [hq]
      rw [hpacket] at hperm'
      have hmem' := mem_flight hflight hmem hp
      have hstep : M.step l'.target (s'.node l'.target) l'.input =
          .ok (E.node v, acts.filterMap E.output) := by
        rw [htarget, hnode]
        exact h.step _ _ _ _ _ _ hi hv
      obtain ⟨⟨s₂, out₂⟩, hs'⟩ := Network.step_of_node hmem' hstep
      obtain ⟨v₂, acts₂, hv₂, hnode₂, rfl, -, hperm₂⟩ := Network.step_inv hs'
      rw [hstep] at hv₂
      cases hv₂
      rw [trace_snoc_some hl]
      rw [htarget] at hs' hperm₂
      refine ⟨s₂, .next hr' (hC _ _ _ _ _ hr hc hmem hl hr') hs', ?_, ?_⟩
      · rw [hnode₂, hnode, htarget]
        funext n
        simp only [state, hnode₁]
        by_cases hn : n = l.target
        · subst hn
          rw [Function.update_self, Function.update_self]
        · rw [Function.update_of_ne hn, Function.update_of_ne hn]
      · have hall := (hperm₂.trans (hflight.append_right _)).trans hperm'.symm
        exact (List.perm_append_left_iff _).1 hall

/-- Where the erased label makes a step of the other network, or there is none, the label makes a
step. -/
theorem step_of_step (h : E.Sound N M) {l : Label ι μ' τ'} {s' : Network.State ι σ μ}
    (hnode : s'.node = (E.state s).node) (hflight : s'.flight.Perm (E.state s).flight)
    (hmem : ∀ p ∈ l.packet?, p ∈ s.flight)
    (hM : ∀ l', E.label l = some l' → (∀ p ∈ l'.packet?, p ∈ s'.flight) →
      ∃ r, M.machine.step s' l' = .ok r) :
    ∃ r, N.machine.step s l = .ok r := by
  cases hv : N.step l.target (s.node l.target) l.input with
  | ok r => exact Network.step_of_node hmem hv
  | error f =>
    obtain ⟨y, f', hy, herr⟩ := h.fault _ _ _ _ hv
    rcases label_cases (E := E) l with ⟨-, hi, -⟩ | ⟨l', hl, hi, htarget, hp⟩
    · rw [hi] at hy
      cases hy
    · rw [hi] at hy
      cases hy
      obtain ⟨⟨s₂, out⟩, hs⟩ := hM l' hl (mem_flight hflight hmem hp)
      obtain ⟨v, acts, hv', -⟩ := Network.step_inv hs
      rw [htarget, hnode] at hv'
      have herr' : M.step l.target ((E.state s).node l.target) l'.input = .error f' := herr
      rw [herr'] at hv'
      cases hv'

end Sound

end Erasure
end Swarna
