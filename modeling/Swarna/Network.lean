import Swarna.Machine
import Mathlib.Data.List.Perm.Basic
import Mathlib.Data.List.Perm.Lattice
import Mathlib.Logic.Function.Basic

/-!
# Swarna.Network

Nodes that exchange packets over a network that neither loses, nor duplicates, nor orders them. A
node is a deterministic machine: it reacts to a packet or to an event of its own, and its outputs
put packets in flight. `Network.machine` is the machine of the whole; its labels name the packet
delivered or the node and its event, so a run is one interleaving.

* `conserved`: in every run, what was delivered and what is in flight is what was in flight at the
  start and what was posted. `link_conserved` is the same for one sender and one receiver.
* `nodewise`: an invariant of every node, with its own trace, and of every packet in flight, from
  one step of one node.
* `notMem_senders`, `mem_senders`: a packet in flight from a node that posts one packet was not
  delivered before; when nothing is in flight, every packet posted was delivered.
* `inbox`: what a node has received; `nodup_senders`.
-/

namespace Swarna

structure Packet (ι μ : Type) where
  src : ι
  dst : ι
  body : μ
  deriving DecidableEq, Repr

/-- What a node reacts to: a packet with its sender, or an event of its own. -/
inductive Input (ι μ τ : Type) where
  | recv (src : ι) (body : μ)
  | ext (e : τ)
  deriving DecidableEq, Repr

structure Network (ι σ μ τ ο φ : Type) where
  step : ι → σ → Input ι μ τ → Except φ (σ × List ο)
  /-- The destinations and contents of the packets an output puts in flight. -/
  post : ι → ο → List (ι × μ)

namespace Network

structure State (ι σ μ : Type) where
  node : ι → σ
  flight : List (Packet ι μ)

inductive Label (ι μ τ : Type) where
  | deliver (p : Packet ι μ)
  | ext (n : ι) (e : τ)
  deriving DecidableEq, Repr

inductive Fault (φ : Type) where
  /-- The packet to deliver is not in flight. -/
  | disabled
  | node (f : φ)
  deriving DecidableEq, Repr

variable {ι σ μ τ ο φ : Type}

/-- The node a label makes react. -/
def Label.target : Label ι μ τ → ι
  | .deliver p => p.dst
  | .ext n _ => n

def Label.input : Label ι μ τ → Input ι μ τ
  | .deliver p => .recv p.src p.body
  | .ext _ e => .ext e

def Label.packet? : Label ι μ τ → Option (Packet ι μ)
  | .deliver p => some p
  | .ext _ _ => none

abbrev History (ι μ τ ο : Type) := Trace (Label ι μ τ) (ι × ο)

def delivered (t : History ι μ τ ο) : List (Packet ι μ) := t.filterMap fun x => x.1.packet?

section

variable [DecidableEq ι] {n : ι} {t : History ι μ τ ο} {l : Label ι μ τ} {acts : List ο}

/-- The trace of one node: its inputs, with the outputs each of them caused. -/
def traceOf (n : ι) (t : History ι μ τ ο) : Trace (Input ι μ τ) ο :=
  t.filterMap fun x => if x.1.target = n then some (x.1.input, x.2.map Prod.snd) else none

@[simp] theorem traceOf_nil : traceOf n ([] : History ι μ τ ο) = [] := rfl

theorem traceOf_snoc_self : traceOf l.target (t ++ [(l, acts.map fun o => (l.target, o))]) =
    traceOf l.target t ++ [(l.input, acts)] := by
  simp [traceOf, List.filterMap_append, Function.comp_def]

theorem traceOf_split {t' : History ι μ τ ο} :
    traceOf l.target (t ++ (l, acts.map fun o => (l.target, o)) :: t') =
      traceOf l.target t ++ (l.input, acts) :: traceOf l.target t' := by
  simp [traceOf, List.filterMap_append, Function.comp_def]

theorem traceOf_snoc_ne {out : List (ι × ο)} (h : l.target ≠ n) :
    traceOf n (t ++ [(l, out)]) = traceOf n t := by
  simp [traceOf, List.filterMap_append, h]

/-- The nodes heard, in order. -/
def senders (t : Trace (Input ι μ τ) ο) : List ι :=
  t.filterMap fun x =>
    match x.1 with
    | .recv c _ => some c
    | .ext _ => none

/-- The packets from `c` to `r`. -/
def link (c r : ι) (l : List (Packet ι μ)) : List (Packet ι μ) :=
  l.filter fun p => p.src = c ∧ p.dst = r

theorem mem_link {c r : ι} {l : List (Packet ι μ)} {p : Packet ι μ} :
    p ∈ link c r l ↔ p ∈ l ∧ p.src = c ∧ p.dst = r := by
  simp [link]

omit [DecidableEq ι] in
theorem mem_senders_iff {c : ι} {τ' : Trace (Input ι μ τ) ο} :
    c ∈ senders τ' ↔ ∃ b, .recv c b ∈ τ'.map Prod.fst := by
  simp only [senders, List.mem_filterMap, List.mem_map]
  constructor
  · rintro ⟨⟨x, out⟩, hx, hc⟩
    cases x with
    | recv d b =>
      cases hc
      exact ⟨b, _, hx, rfl⟩
    | ext e => cases hc
  · rintro ⟨b, x, hx, hb⟩
    exact ⟨x, hx, by rw [hb]⟩

theorem recv_mem_traceOf {c r : ι} {b : μ} :
    .recv c b ∈ (traceOf r t).map Prod.fst ↔ ⟨c, r, b⟩ ∈ delivered t := by
  simp only [traceOf, List.mem_map, List.mem_filterMap, delivered]
  constructor
  · rintro ⟨y, ⟨⟨l, out⟩, hx, hy⟩, hc⟩
    split at hy
    · rename_i htarget
      cases hy
      cases l with
      | deliver p =>
        cases hc
        cases htarget
        exact ⟨_, hx, rfl⟩
      | ext n e => cases hc
    · cases hy
  · rintro ⟨⟨l, out⟩, hx, hp⟩
    cases l with
    | deliver p =>
      cases hp
      exact ⟨(.recv c b, out.map Prod.snd), ⟨_, hx, by simp [Label.target, Label.input]⟩, rfl⟩
    | ext n e => cases hp

theorem mem_senders_traceOf {c r : ι} :
    c ∈ senders (traceOf r t) ↔ ∃ p, p ∈ link c r (delivered t) := by
  simp only [mem_senders_iff, recv_mem_traceOf, mem_link]
  constructor
  · rintro ⟨b, hb⟩
    exact ⟨_, hb, rfl, rfl⟩
  · rintro ⟨p, hp, rfl, rfl⟩
    exact ⟨p.body, hp⟩

end

/-! ## What a node has received -/

section

/-- The packets a node has received, each with its sender, in order. -/
def inbox (t : Trace (Input ι μ τ) ο) : List (ι × μ) :=
  t.filterMap fun x =>
    match x.1 with
    | .recv c b => some (c, b)
    | .ext _ => none

theorem senders_eq (t : Trace (Input ι μ τ) ο) : senders t = (inbox t).map Prod.fst := by
  rw [senders, inbox, List.map_filterMap]
  refine List.filterMap_congr fun x _ => ?_
  cases x.1 <;> rfl

theorem mem_inbox {t : Trace (Input ι μ τ) ο} {c : ι} {b : μ} :
    (c, b) ∈ inbox t ↔ .recv c b ∈ t.map Prod.fst := by
  simp only [inbox, List.mem_filterMap, List.mem_map]
  constructor
  · rintro ⟨⟨x, out⟩, hx, hc⟩
    cases x with
    | recv d b' =>
      cases hc
      exact ⟨_, hx, rfl⟩
    | ext e => cases hc
  · rintro ⟨x, hx, hb⟩
    exact ⟨x, hx, by rw [hb]⟩

variable [DecidableEq ι]

theorem count_senders (c r : ι) (t : History ι μ τ ο) :
    (senders (traceOf r t)).count c = (link c r (delivered t)).length := by
  induction t with
  | nil => rfl
  | cons x t ih =>
    obtain ⟨l, out⟩ := x
    have hsplit : traceOf r ((l, out) :: t) = traceOf r [(l, out)] ++ traceOf r t := by
      rw [← List.singleton_append]
      exact List.filterMap_append
    have hsplit' : delivered ((l, out) :: t) = l.packet?.toList ++ delivered t := by
      cases h : l.packet? <;> simp [delivered, h]
    have happ : ∀ a b : Trace (Input ι μ τ) ο, senders (a ++ b) = senders a ++ senders b :=
      fun _ _ => List.filterMap_append
    rw [hsplit, hsplit', happ, List.count_append, ih, link, link, List.filter_append,
      List.length_append]
    congr 1
    cases l with
    | deliver p =>
      by_cases hr : p.dst = r <;> by_cases hc : p.src = c <;>
        simp [traceOf, senders, Label.target, Label.input, Label.packet?, hr, hc]
    | ext n e =>
      by_cases hn : n = r <;> simp [traceOf, senders, Label.target, Label.input, Label.packet?, hn]

end

variable (N : Network ι σ μ τ ο φ)

/-- The packets an output of node `n` puts in flight. -/
def packets (n : ι) (o : ο) : List (Packet ι μ) := (N.post n o).map fun x => ⟨n, x.1, x.2⟩

def posted (t : History ι μ τ ο) : List (Packet ι μ) :=
  t.outputs.flatMap fun x => N.packets x.1 x.2

variable [DecidableEq ι] [DecidableEq μ]

def react (s : State ι σ μ) (n : ι) (x : Input ι μ τ) :
    Except (Fault φ) (State ι σ μ × List (ι × ο)) :=
  match N.step n (s.node n) x with
  | .error f => .error (.node f)
  | .ok (v, out) =>
    .ok (⟨Function.update s.node n v, s.flight ++ out.flatMap (N.packets n)⟩,
      out.map fun o => (n, o))

def machine : Machine (State ι σ μ) (Label ι μ τ) (ι × ο) (Fault φ) where
  step s
    | .deliver p =>
      if p ∈ s.flight then N.react { s with flight := s.flight.erase p } p.dst (.recv p.src p.body)
      else .error .disabled
    | .ext n e => N.react s n (.ext e)

variable {N}

/-- What one step does: the target reacts, its packets go into flight, the delivered one is gone. -/
theorem step_inv {s s' : State ι σ μ} {l : Label ι μ τ} {out : List (ι × ο)}
    (h : N.machine.step s l = .ok (s', out)) :
    ∃ v acts, N.step l.target (s.node l.target) l.input = .ok (v, acts) ∧
      s'.node = Function.update s.node l.target v ∧ out = acts.map (fun o => (l.target, o)) ∧
      (∀ p ∈ l.packet?, p ∈ s.flight) ∧
      (l.packet?.toList ++ s'.flight).Perm (s.flight ++ acts.flatMap (N.packets l.target)) := by
  cases l with
  | deliver p =>
    simp only [machine] at h
    split at h
    · rename_i hp
      simp only [react] at h
      split at h
      · cases h
      · rename_i v acts hs
        cases h
        refine ⟨v, acts, hs, rfl, rfl, by simpa [Label.packet?] using hp, ?_⟩
        exact (List.perm_cons_erase hp).symm.append_right _
    · cases h
  | ext n e =>
    simp only [machine, react] at h
    split at h
    · cases h
    · rename_i v acts hs
      cases h
      exact ⟨v, acts, hs, rfl, rfl, by simp [Label.packet?], List.Perm.refl _⟩

/-- A node that can react to a packet in flight, or to an event, makes a step of the whole. -/
theorem step_of_node {s : State ι σ μ} {l : Label ι μ τ} (hp : ∀ p ∈ l.packet?, p ∈ s.flight)
    {r : σ × List ο} (h : N.step l.target (s.node l.target) l.input = .ok r) :
    ∃ r', N.machine.step s l = .ok r' := by
  cases l with
  | deliver p =>
    have hp' : p ∈ s.flight := hp p rfl
    simp only [Label.target, Label.input] at h
    exact ⟨_, by simp only [machine, hp', if_true, react, h]; rfl⟩
  | ext n e =>
    simp only [Label.target, Label.input] at h
    exact ⟨_, by simp only [machine, react, h]; rfl⟩

variable {C : History ι μ τ ο → State ι σ μ → Label ι μ τ → Prop} {s₀ s : State ι σ μ}
  {t : History ι μ τ ο}

/-- An invariant of nodes, with their traces, and of packets in flight: one step of one node keeps
it, and posts packets that have it. -/
theorem nodewise (I : ι → Trace (Input ι μ τ) ο → σ → Prop) (Q : Packet ι μ → Prop)
    (h : N.machine.RunIf C s₀ t s) (hI : ∀ n, I n [] (s₀.node n)) (hQ : ∀ p ∈ s₀.flight, Q p)
    (hstep : ∀ t s l v acts, N.machine.RunIf C s₀ t s → C t s l →
      (∀ n, I n (traceOf n t) (s.node n)) → (∀ p ∈ s.flight, Q p) →
      (∀ p ∈ l.packet?, p ∈ s.flight) →
      N.step l.target (s.node l.target) l.input = .ok (v, acts) →
      I l.target (traceOf l.target t ++ [(l.input, acts)]) v ∧
        ∀ o ∈ acts, ∀ p ∈ N.packets l.target o, Q p) :
    (∀ n, I n (traceOf n t) (s.node n)) ∧ ∀ p ∈ s.flight, Q p := by
  induction h with
  | start => exact ⟨hI, hQ⟩
  | @next t s s' l out hr hc hs ih =>
    obtain ⟨v, acts, hv, hnode, rfl, hmem, hperm⟩ := step_inv hs
    obtain ⟨hI', hQ'⟩ := hstep t s l v acts hr hc ih.1 ih.2 hmem hv
    constructor
    · intro n
      rw [hnode]
      by_cases hn : l.target = n
      · subst hn
        rwa [Function.update_self, traceOf_snoc_self]
      · rw [Function.update_of_ne (Ne.symm hn), traceOf_snoc_ne hn]
        exact ih.1 n
    · intro p hp
      rcases List.mem_append.1 (hperm.subset (List.mem_append_right _ hp)) with h | h
      · exact ih.2 p h
      · obtain ⟨o, ho, hpo⟩ := List.mem_flatMap.1 h
        exact hQ' o ho p hpo

/-! ## Nothing is lost, nothing is duplicated -/

theorem conserved (h : N.machine.RunIf C s₀ t s) :
    (delivered t ++ s.flight).Perm (s₀.flight ++ N.posted t) := by
  induction h with
  | start => simp [delivered, posted]
  | @next t s s' l out _ _ hs ih =>
    obtain ⟨v, acts, _, _, rfl, _, hperm⟩ := step_inv hs
    have hd : delivered (t ++ [(l, acts.map fun o => (l.target, o))]) =
        delivered t ++ l.packet?.toList := by
      cases hp : l.packet? <;> simp [delivered, List.filterMap_append, hp]
    have hpost : N.posted (t ++ [(l, acts.map fun o => (l.target, o))]) =
        N.posted t ++ acts.flatMap (N.packets l.target) := by
      simp [posted, List.flatMap_append, List.flatMap_map]
    rw [hd, hpost, List.append_assoc, ← List.append_assoc s₀.flight]
    exact (hperm.append_left _).trans (by
      rw [← List.append_assoc]
      exact ih.append_right _)

/-- Between two nodes: what arrived and what is in flight is what the sender's outputs posted. -/
theorem link_conserved (h : N.machine.RunIf C s₀ t s) (h₀ : s₀.flight = []) (c r : ι) :
    (link c r (delivered t) ++ link c r s.flight).Perm
      (link c r ((traceOf c t).outputs.flatMap (N.packets c))) := by
  have hposted : link c r (N.posted t) =
      link c r ((traceOf c t).outputs.flatMap (N.packets c)) := by
    clear h₀
    induction h with
    | start => simp [posted, link, Trace.outputs]
    | @next t s s' l out _ _ hs ih =>
      obtain ⟨v, acts, _, _, rfl, _, _⟩ := step_inv hs
      have hpost : N.posted (t ++ [(l, acts.map fun o => (l.target, o))]) =
          N.posted t ++ acts.flatMap (N.packets l.target) := by
        simp [posted, List.flatMap_append, List.flatMap_map]
      rw [hpost]
      by_cases hl : l.target = c
      · subst hl
        rw [traceOf_snoc_self, Trace.outputs_snoc, List.flatMap_append, link, link,
          List.filter_append, List.filter_append]
        exact congrArg (· ++ _) ih
      · have hnone : link c r (acts.flatMap (N.packets l.target)) = [] := by
          rw [link, List.filter_eq_nil_iff]
          intro p hp
          obtain ⟨o, _, hpo⟩ := List.mem_flatMap.1 hp
          obtain ⟨x, _, rfl⟩ := List.mem_map.1 hpo
          simp [hl]
        rw [traceOf_snoc_ne hl, ← ih, link, List.filter_append, ← link, ← link, hnone,
          List.append_nil]
  have hc := (conserved h).filter fun p => decide (p.src = c ∧ p.dst = r)
  rw [h₀, List.nil_append, List.filter_append] at hc
  rw [← hposted]
  exact hc

/-- A packet in flight, from a node that posted one packet to this receiver, is the first of its
sender there. -/
theorem notMem_senders (h : N.machine.RunIf C s₀ t s) (h₀ : s₀.flight = []) {p : Packet ι μ}
    (hp : p ∈ s.flight)
    (hone : (link p.src p.dst ((traceOf p.src t).outputs.flatMap (N.packets p.src))).length ≤ 1) :
    p.src ∉ senders (traceOf p.dst t) := by
  intro hc
  obtain ⟨q, hq⟩ := mem_senders_traceOf.1 hc
  have hlen := (link_conserved h h₀ p.src p.dst).length_eq
  have h₁ : 0 < (link p.src p.dst s.flight).length :=
    List.length_pos_of_mem (mem_link.2 ⟨hp, rfl, rfl⟩)
  have h₂ := List.length_pos_of_mem hq
  rw [List.length_append] at hlen
  omega

/-- With nothing in flight, what was posted is what has been delivered. -/
theorem recv_iff_posted (h : N.machine.RunIf C s₀ t s) (h₀ : s₀.flight = []) (hs : s.flight = [])
    {c r : ι} {b : μ} : .recv c b ∈ (traceOf r t).map Prod.fst ↔
      ⟨c, r, b⟩ ∈ (traceOf c t).outputs.flatMap (N.packets c) := by
  have hperm := link_conserved h h₀ c r
  have hnone : link c r s.flight = [] := by
    rw [hs]
    rfl
  rw [hnone, List.append_nil] at hperm
  have hmem := hperm.mem_iff (a := ⟨c, r, b⟩)
  simp only [mem_link, and_self, and_true] at hmem
  rw [recv_mem_traceOf, hmem]

theorem mem_senders (h : N.machine.RunIf C s₀ t s) (h₀ : s₀.flight = []) (hs : s.flight = [])
    {p : Packet ι μ} (hp : p ∈ (traceOf p.src t).outputs.flatMap (N.packets p.src)) :
    p.src ∈ senders (traceOf p.dst t) :=
  mem_senders_iff.2 ⟨p.body, (recv_iff_posted h h₀ hs).2 hp⟩

/-- Nodes that post one packet to `r` each are heard once. -/
theorem nodup_senders (h : N.machine.RunIf C s₀ t s) (h₀ : s₀.flight = []) {r : ι}
    (hone : ∀ c, (link c r ((traceOf c t).outputs.flatMap (N.packets c))).length ≤ 1) :
    (senders (traceOf r t)).Nodup := by
  rw [List.nodup_iff_count_le_one]
  intro c
  rw [count_senders]
  have hlen := (link_conserved h h₀ c r).length_eq
  rw [List.length_append] at hlen
  have := hone c
  omega

end Network

end Swarna
