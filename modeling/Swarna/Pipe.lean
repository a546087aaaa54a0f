import Swarna.Machine

/-!
# Swarna.Pipe

A machine that sends packets to another one, through a channel that loses none and keeps their
order. The receiver takes them one by one, and other events of its own in between.

* `Run.sender`, `Run.receiver`: each side makes a run of its own.
* `Run.in_order`: what the receiver has taken and what is in the channel is what was sent.
* `Run.seen`: an observation that is blind to the other events sees the packets alone.
-/

namespace Swarna

/-- `ι` is what the receiver learns from its surroundings when it takes a packet. -/
structure Pipe (σ ε ο φ τ η ω ψ π ι : Type) where
  sender : Machine σ ε ο φ
  receiver : Machine τ η ω ψ
  /-- The packet an output puts into the channel. -/
  packet : ο → Option π
  take : π → ι → η

namespace Pipe

/-- Both sides and the channel, with what has happened so far. -/
structure Joint (σ ε ο τ η ω π ι : Type) where
  sent : Trace ε ο
  taken : List (π × ι)
  received : Trace η ω
  sender : σ
  channel : List π
  receiver : τ

variable {σ ε ο φ τ η ω ψ π ι : Type}

/-- The sender has sent `out₀` so far. -/
def start (P : Pipe σ ε ο φ τ η ω ψ π ι) (s₀ : σ) (out₀ : List ο) (r₀ : τ) :
    Joint σ ε ο τ η ω π ι :=
  ⟨[], [], [], s₀, out₀.filterMap P.packet, r₀⟩

/-- Runs in which the events of the sender meet `C` and those other events of the receiver `D`. -/
inductive Run (P : Pipe σ ε ο φ τ η ω ψ π ι) (C : Trace ε ο → σ → ε → Prop) (D : η → Prop)
    (s₀ : σ) (out₀ : List ο) (r₀ : τ) : Joint σ ε ο τ η ω π ι → Prop where
  | start : Run P C D s₀ out₀ r₀ (P.start s₀ out₀ r₀)
  | send {j : Joint σ ε ο τ η ω π ι} {e : ε} {s : σ} {out : List ο} :
      Run P C D s₀ out₀ r₀ j → C j.sent j.sender e → P.sender.step j.sender e = .ok (s, out) →
        Run P C D s₀ out₀ r₀ { j with
          sent := j.sent ++ [(e, out)], sender := s
          channel := j.channel ++ out.filterMap P.packet }
  | take {j : Joint σ ε ο τ η ω π ι} {x : π} {ch : List π} {i : ι} {r : τ} {out : List ω} :
      Run P C D s₀ out₀ r₀ j → j.channel = x :: ch →
        P.receiver.step j.receiver (P.take x i) = .ok (r, out) →
          Run P C D s₀ out₀ r₀ { j with
            taken := j.taken ++ [(x, i)], received := j.received ++ [(P.take x i, out)]
            channel := ch, receiver := r }
  | other {j : Joint σ ε ο τ η ω π ι} {e : η} {r : τ} {out : List ω} :
      Run P C D s₀ out₀ r₀ j → D e → P.receiver.step j.receiver e = .ok (r, out) →
        Run P C D s₀ out₀ r₀ { j with received := j.received ++ [(e, out)], receiver := r }

namespace Run

variable {P : Pipe σ ε ο φ τ η ω ψ π ι} {C : Trace ε ο → σ → ε → Prop} {D : η → Prop} {s₀ : σ}
  {out₀ : List ο} {r₀ : τ} {j : Joint σ ε ο τ η ω π ι}

theorem sender (h : Run P C D s₀ out₀ r₀ j) : P.sender.RunIf C s₀ j.sent j.sender := by
  induction h with
  | start => exact .start
  | send _ hc hs ih => exact .next ih hc hs
  | take _ _ _ ih => exact ih
  | other _ _ _ ih => exact ih

theorem receiver (h : Run P C D s₀ out₀ r₀ j) : P.receiver.Run r₀ j.received j.receiver := by
  induction h with
  | start => exact .start
  | send _ _ _ ih => exact ih
  | take _ _ hs ih => exact .next ih trivial hs
  | other _ _ hs ih => exact .next ih trivial hs

theorem in_order (h : Run P C D s₀ out₀ r₀ j) :
    j.taken.map Prod.fst ++ j.channel = (out₀ ++ j.sent.outputs).filterMap P.packet := by
  induction h with
  | start => simp [Pipe.start]
  | @send j e s out _ _ _ ih =>
    rw [Trace.outputs_snoc, ← List.append_assoc out₀, List.filterMap_append, ← ih,
      List.append_assoc]
  | take _ hch _ ih =>
    rw [hch] at ih
    simpa using ih
  | other _ _ _ ih => exact ih

theorem seen {γ : Type} (h : Run P C D s₀ out₀ r₀ j) (p : η → Option γ)
    (hp : ∀ e, D e → p e = none) : (j.received.map Prod.fst).filterMap p =
      j.taken.filterMap fun x => p (P.take x.1 x.2) := by
  induction h with
  | start => rfl
  | send _ _ _ ih => exact ih
  | take _ _ _ ih =>
    simp only [List.map_append, List.filterMap_append, ih]
    rfl
  | other _ hd _ ih =>
    simp only [List.map_append, List.filterMap_append, ih]
    simp [hp _ hd]

end Run

end Pipe
end Swarna
