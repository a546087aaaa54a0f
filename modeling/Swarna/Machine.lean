import Mathlib.Data.List.Basic
import Mathlib.Data.List.Induction
import Mathlib.Logic.Relation

/-!
# Swarna.Machine

Deterministic event-driven machines: `step` takes a state and an event to a new state and a list
of outputs, or to a fault.

* `RunIf M C s₀ t s`: from `s₀`, events that all meet the condition `C` lead to `s` without a
  fault; `t` is the trace, each event with the outputs it caused. `Run` is `RunIf` without a
  condition.
* `RunIf.invariant`: a property of trace and state that holds at the start and is kept by every
  step holds along every run.
* `runIf_of_run`, `RunIf.split`: a run under a condition is a run that meets the condition at every
  position of its trace.
* `exec`: the executable version, sound for `Run` (`run_of_exec`).
* `SameBehaviour P`: two states no events that satisfy `P` tell apart; shown by a simulation, used
  one step at a time.
* `Always R P a`: `P` holds in all that `R` leads to from `a`; decided one step at a time, or by an
  invariant.
* `sinceLast p t`: the part of the trace after the last step whose outputs satisfy `p`.
* `Whenever`, `Followed`: what comes before, and after, certain entries of a log.
-/

namespace Swarna

structure Machine (σ ε ο φ : Type) where
  step : σ → ε → Except φ (σ × List ο)

/-- Each event with the outputs it caused, oldest first. -/
abbrev Trace (ε ο : Type) := List (ε × List ο)

namespace Machine

variable {σ ε ο φ : Type} {M : Machine σ ε ο φ}

inductive RunIf (M : Machine σ ε ο φ) (C : Trace ε ο → σ → ε → Prop) (s₀ : σ) :
    Trace ε ο → σ → Prop where
  | start : RunIf M C s₀ [] s₀
  | next {t : Trace ε ο} {s s' : σ} {e : ε} {out : List ο} :
      RunIf M C s₀ t s → C t s e → M.step s e = .ok (s', out) →
      RunIf M C s₀ (t ++ [(e, out)]) s'

abbrev Run (M : Machine σ ε ο φ) (s₀ : σ) : Trace ε ο → σ → Prop :=
  RunIf M (fun _ _ _ => True) s₀

theorem RunIf.run {C : Trace ε ο → σ → ε → Prop} {s₀ s : σ} {t : Trace ε ο}
    (h : RunIf M C s₀ t s) : Run M s₀ t s := by
  induction h with
  | start => exact .start
  | next _ _ hs ih => exact .next ih trivial hs

theorem RunIf.imp {C C' : Trace ε ο → σ → ε → Prop} {s₀ s : σ} {t : Trace ε ο}
    (h : RunIf M C s₀ t s) (hc : ∀ t s e, C t s e → C' t s e) : RunIf M C' s₀ t s := by
  induction h with
  | start => exact .start
  | next _ h hs ih => exact .next ih (hc _ _ _ h) hs

/-- What holds at the start and is kept by every step holds along every run. -/
theorem RunIf.invariant {C : Trace ε ο → σ → ε → Prop} {P : Trace ε ο → σ → Prop} {s₀ s : σ}
    {t : Trace ε ο} (h : RunIf M C s₀ t s) (h₀ : P [] s₀)
    (hstep : ∀ t s e s' out, P t s → C t s e → M.step s e = .ok (s', out) →
      P (t ++ [(e, out)]) s') : P t s := by
  induction h with
  | start => exact h₀
  | next _ hc hs ih => exact hstep _ _ _ _ _ ih hc hs

/-- The last step of a run. -/
theorem RunIf.last {C : Trace ε ο → σ → ε → Prop} {s₀ s' : σ} {t : Trace ε ο} {x : ε × List ο}
    (h : RunIf M C s₀ (t ++ [x]) s') :
    ∃ s, RunIf M C s₀ t s ∧ C t s x.1 ∧ M.step s x.1 = .ok (s', x.2) := by
  generalize he : t ++ [x] = u at h
  cases h with
  | start => simp at he
  | next hr hc hs =>
    obtain ⟨rfl, hx⟩ := List.append_inj' he rfl
    cases hx
    exact ⟨_, hr, hc, hs⟩

/-- A trace leads to one state. -/
theorem RunIf.unique {C C' : Trace ε ο → σ → ε → Prop} {s₀ s s' : σ} {t : Trace ε ο}
    (h : RunIf M C s₀ t s) (h' : RunIf M C' s₀ t s') : s = s' := by
  induction h generalizing s' with
  | start =>
    generalize he : ([] : Trace ε ο) = u at h'
    cases h' with
    | start => rfl
    | next _ _ _ => simp at he
  | next _ _ hs ih =>
    obtain ⟨s₁, h₁, -, hs'⟩ := h'.last
    cases ih h₁
    rw [hs] at hs'
    exact (Prod.mk.inj (Except.ok.inj hs')).1

/-- A run that meets the condition at every step of its trace. -/
theorem runIf_of_run {C : Trace ε ο → σ → ε → Prop} {s₀ s : σ} {t : Trace ε ο}
    (h : Run M s₀ t s)
    (hc : ∀ t₁ x t₂ s₁, t = t₁ ++ x :: t₂ → Run M s₀ t₁ s₁ → C t₁ s₁ x.1) :
    RunIf M C s₀ t s := by
  induction h with
  | start => exact .start
  | @next t s s' e out hr _ hs ih =>
    refine .next (ih fun t₁ x t₂ s₁ he h₁ => ?_) (hc t _ [] s rfl hr) hs
    exact hc t₁ x (t₂ ++ [(e, out)]) s₁ (by rw [he]; simp) h₁

/-- The step a run makes at a position of its trace. -/
theorem RunIf.split {C : Trace ε ο → σ → ε → Prop} {s₀ s : σ} {t₁ t₂ : Trace ε ο}
    {x : ε × List ο} (h : RunIf M C s₀ (t₁ ++ x :: t₂) s) :
    ∃ s₁ s₂, RunIf M C s₀ t₁ s₁ ∧ C t₁ s₁ x.1 ∧ M.step s₁ x.1 = .ok (s₂, x.2) := by
  induction t₂ using List.reverseRecOn generalizing s with
  | nil =>
    obtain ⟨s₁, h₁, hc, hs⟩ := h.last
    exact ⟨s₁, s, h₁, hc, hs⟩
  | append_singleton t₂ y ih =>
    rw [← List.cons_append, ← List.append_assoc] at h
    obtain ⟨s', h', -, -⟩ := h.last
    exact ih h'

theorem Run.head {s₀ s₁ s : σ} {e : ε} {out : List ο} {t : Trace ε ο}
    (hs : M.step s₀ e = .ok (s₁, out)) (h : Run M s₁ t s) : Run M s₀ ((e, out) :: t) s := by
  induction h with
  | start => exact .next (t := []) .start trivial hs
  | next _ _ hs' ih => exact .next ih trivial hs'

theorem Run.append {s₀ s₁ s₂ : σ} {t t' : Trace ε ο} (h : Run M s₀ t s₁) (h' : Run M s₁ t' s₂) :
    Run M s₀ (t ++ t') s₂ := by
  induction h' with
  | start => rwa [List.append_nil]
  | next _ _ hs ih =>
    rw [← List.append_assoc]
    exact .next ih trivial hs

/-- The events of a run fix its trace. -/
theorem Run.eq_of_events {s₀ s s' : σ} {t t' : Trace ε ο} (h : Run M s₀ t s)
    (h' : Run M s₀ t' s') (he : t.map Prod.fst = t'.map Prod.fst) : t = t' := by
  induction h generalizing t' s' with
  | start => exact (List.map_eq_nil_iff.1 he.symm).symm
  | @next t s s₁ e out hr _ hs ih =>
    cases h' with
    | start => simp at he
    | @next t' s' s₁' e' out' hr' _ hs' =>
      rw [List.map_append, List.map_append] at he
      obtain ⟨hinit, hlast⟩ := List.append_inj' he rfl
      cases ih hr' hinit
      cases hr.unique hr'
      have hevent : e = e' := List.singleton_inj.1 hlast
      subst hevent
      rw [hs] at hs'
      cases hs'
      rfl

/-- Run a list of events; stops at the first fault. -/
def exec (M : Machine σ ε ο φ) : σ → List ε → Except φ (Trace ε ο × σ)
  | s, [] => .ok ([], s)
  | s, e :: es =>
    match M.step s e with
    | .error f => .error f
    | .ok (s', out) =>
      match exec M s' es with
      | .error f => .error f
      | .ok (t, s'') => .ok ((e, out) :: t, s'')

theorem exec_cons {e : ε} {es : List ε} {s s' : σ} {t : Trace ε ο} :
    M.exec s (e :: es) = .ok (t, s') ↔
      ∃ s₁ out t₁, M.step s e = .ok (s₁, out) ∧ M.exec s₁ es = .ok (t₁, s') ∧
        t = (e, out) :: t₁ := by
  constructor
  · intro h
    simp only [exec] at h
    split at h
    · cases h
    · rename_i s₁ out hs
      split at h
      · cases h
      · rename_i t₁ s₂ ht
        cases h
        exact ⟨s₁, out, t₁, hs, ht, rfl⟩
  · rintro ⟨s₁, out, t₁, hs, ht, rfl⟩
    simp [exec, hs, ht]

theorem exec_events {es : List ε} {s s' : σ} {t : Trace ε ο} (h : M.exec s es = .ok (t, s')) :
    t.map Prod.fst = es := by
  induction es generalizing s t with
  | nil => cases h; rfl
  | cons e es ih =>
    obtain ⟨s₁, out, t₁, -, ht, rfl⟩ := exec_cons.1 h
    rw [List.map_cons, ih ht]

theorem run_of_exec {es : List ε} {s s' : σ} {t : Trace ε ο} (h : M.exec s es = .ok (t, s')) :
    Run M s t s' := by
  induction es generalizing s t with
  | nil => cases h; exact .start
  | cons e es ih =>
    obtain ⟨s₁, out, t₁, hs, ht, rfl⟩ := exec_cons.1 h
    exact .head hs (ih ht)

end Machine

namespace Trace

variable {ε ο : Type}

/-- All outputs of a trace, in order. -/
def outputs (t : Trace ε ο) : List ο := t.flatMap Prod.snd

@[simp] theorem outputs_nil : outputs ([] : Trace ε ο) = [] := rfl

theorem outputs_snoc (t : Trace ε ο) (x : ε × List ο) :
    outputs (t ++ [x]) = outputs t ++ x.2 := by
  simp [outputs]

@[simp] theorem outputs_append (t t' : Trace ε ο) :
    outputs (t ++ t') = outputs t ++ outputs t' := by
  simp [outputs]

@[simp] theorem outputs_cons (x : ε × List ο) (t : Trace ε ο) :
    outputs (x :: t) = x.2 ++ outputs t := by
  simp [outputs]

/-- The steps after the last one whose outputs satisfy `p`. -/
def sinceLast (p : List ο → Bool) (t : Trace ε ο) : Trace ε ο :=
  t.foldl (fun acc x => if p x.2 then [] else acc ++ [x]) []

@[simp] theorem sinceLast_nil (p : List ο → Bool) : sinceLast p ([] : Trace ε ο) = [] := rfl

@[simp] theorem sinceLast_snoc (p : List ο → Bool) (t : Trace ε ο) (x : ε × List ο) :
    sinceLast p (t ++ [x]) = if p x.2 then [] else sinceLast p t ++ [x] := by
  simp [sinceLast]

end Trace

/-! ## Behaviour -/

namespace Machine

variable {σ ε ο φ : Type} {M : Machine σ ε ο φ}

/-- The outputs of a list of events, if none of them faults. -/
def observe (M : Machine σ ε ο φ) (s : σ) (es : List ε) : Option (List ο) :=
  match M.exec s es with
  | .ok (t, _) => some t.outputs
  | .error _ => none

@[simp] theorem observe_nil (s : σ) : M.observe s [] = some [] := rfl

theorem observe_cons {s s' : σ} {e : ε} {out : List ο} (h : M.step s e = .ok (s', out))
    (es : List ε) : M.observe s (e :: es) = (M.observe s' es).map (out ++ ·) := by
  simp only [observe, exec, h]
  cases M.exec s' es with
  | error f => rfl
  | ok r => simp

theorem observe_fault {s : σ} {e : ε} {f : φ} (h : M.step s e = .error f) (es : List ε) :
    M.observe s (e :: es) = none := by
  simp only [observe, exec, h]

/-- No list of events that satisfy `P` tells the two states apart. -/
def SameBehaviour (M : Machine σ ε ο φ) (P : ε → Prop) (s₁ s₂ : σ) : Prop :=
  ∀ es, (∀ e ∈ es, P e) → M.observe s₁ es = M.observe s₂ es

namespace SameBehaviour

variable {P : ε → Prop} {s₁ s₂ s₁' : σ} {e : ε} {out : List ο}

theorem symm (h : SameBehaviour M P s₁ s₂) : SameBehaviour M P s₂ s₁ :=
  fun es hes => (h es hes).symm

/-- States related by a simulation behave alike: a step faults on both sides, or has the same
outputs on both and leads to related states. -/
theorem of_simulation {R : σ → σ → Prop}
    (hstep : ∀ s₁ s₂ e, R s₁ s₂ → P e →
      (∃ s₁' s₂' out, M.step s₁ e = .ok (s₁', out) ∧ M.step s₂ e = .ok (s₂', out) ∧ R s₁' s₂') ∨
        ∃ f₁ f₂, M.step s₁ e = .error f₁ ∧ M.step s₂ e = .error f₂)
    (h : R s₁ s₂) : SameBehaviour M P s₁ s₂ := by
  intro es
  induction es generalizing s₁ s₂ with
  | nil => exact fun _ => rfl
  | cons e es ih =>
    intro hes
    rcases hstep s₁ s₂ e h (hes e (by simp)) with ⟨s₁', s₂', out, h₁, h₂, h'⟩ | ⟨f₁, f₂, h₁, h₂⟩
    · rw [observe_cons h₁, observe_cons h₂, ih h' fun e he => hes e (List.mem_cons_of_mem _ he)]
    · rw [observe_fault h₁, observe_fault h₂]

theorem step (h : SameBehaviour M P s₁ s₂) (he : P e) (h₁ : M.step s₁ e = .ok (s₁', out)) :
    ∃ s₂', M.step s₂ e = .ok (s₂', out) ∧ SameBehaviour M P s₁' s₂' := by
  have hes : ∀ {es : List ε}, (∀ e ∈ es, P e) → ∀ e' ∈ e :: es, P e' := by
    intro es hes e' he'
    rcases List.mem_cons.1 he' with rfl | he'
    · exact he
    · exact hes e' he'
  have hone := h [e] (hes (by simp))
  rw [observe_cons h₁] at hone
  cases h₂ : M.step s₂ e with
  | error f =>
    rw [observe_fault h₂] at hone
    cases hone
  | ok r =>
    obtain ⟨s₂', out₂⟩ := r
    rw [observe_cons h₂] at hone
    have hout : out = out₂ := by simpa using hone
    subst hout
    refine ⟨s₂', rfl, fun es hes' => ?_⟩
    have hmore := h (e :: es) (hes hes')
    rw [observe_cons h₁, observe_cons h₂] at hmore
    exact Option.map_injective (fun _ _ => List.append_cancel_left) hmore

theorem fault (h : SameBehaviour M P s₁ s₂) (he : P e) {f : φ} (h₁ : M.step s₁ e = .error f) :
    ∃ f', M.step s₂ e = .error f' := by
  cases h₂ : M.step s₂ e with
  | error f' => exact ⟨f', rfl⟩
  | ok r =>
    obtain ⟨s₁', h₁', -⟩ := h.symm.step he h₂
    rw [h₁] at h₁'
    cases h₁'

end SameBehaviour

end Machine

/-! ## What always holds -/

section Always

variable {α : Type} {R : α → α → Prop} {P : α → Prop} {a b : α}

/-- `P` holds of all that can be reached. -/
def Always (R : α → α → Prop) (P : α → Prop) (a : α) : Prop :=
  ∀ b, Relation.ReflTransGen R a b → P b

theorem Always.here (h : Always R P a) : P a := h a .refl

theorem Always.next (h : Always R P a) (hab : R a b) : Always R P b :=
  fun b' hb => h b' (.head hab hb)

theorem always_iff : Always R P a ↔ P a ∧ ∀ b, R a b → Always R P b := by
  constructor
  · intro h
    exact ⟨h.here, fun b hab => h.next hab⟩
  · rintro ⟨ha, hnext⟩ b hb
    rcases Relation.ReflTransGen.cases_head hb with rfl | ⟨a', haa', hb'⟩
    · exact ha
    · exact hnext a' haa' b hb'

/-- An invariant that implies `P`. -/
theorem always_of_invariant {I : α → Prop} (hstep : ∀ a b, I a → R a b → I b)
    (hP : ∀ a, I a → P a) (ha : I a) : Always R P a := by
  have hI : ∀ b, Relation.ReflTransGen R a b → I b := by
    intro b hb
    induction hb with
    | refl => exact ha
    | tail _ hbc ih => exact hstep _ _ ih hbc
  exact fun b hb => hP b (hI b hb)

theorem always_of_stuck (h : ∀ b, ¬ R a b) : Always R P a ↔ P a := by
  rw [always_iff]
  exact ⟨fun ha => ha.1, fun ha => ⟨ha, fun b hb => absurd hb (h b)⟩⟩

/-- With one way on. -/
theorem always_of_next (h : ∀ b', R a b' ↔ b' = b) (ha : P a) :
    Always R P a ↔ Always R P b := by
  rw [always_iff]
  constructor
  · intro hall
    exact hall.2 b ((h b).2 rfl)
  · intro hb
    refine ⟨ha, fun b' hb' => ?_⟩
    rw [(h b').1 hb']
    exact hb

end Always

/-! ## Positions in a log -/

section Log

variable {α : Type}

theorem snoc_eq_split {l pre post : List α} {x y : α} (h : l ++ [y] = pre ++ x :: post) :
    (pre = l ∧ x = y) ∨ ∃ post', post = post' ++ [y] ∧ l = pre ++ x :: post' := by
  rcases List.eq_nil_or_concat post with rfl | ⟨post', z, rfl⟩
  · obtain ⟨h₁, h₂⟩ := List.append_inj' h rfl
    exact .inl ⟨h₁.symm, (List.singleton_inj.1 h₂).symm⟩
  · have h' : l ++ [y] = (pre ++ x :: post') ++ [z] := by simpa using h
    obtain ⟨h₁, h₂⟩ := List.append_inj' h' rfl
    exact .inr ⟨post', by rw [List.singleton_inj.1 h₂, List.concat_eq_append], h₁⟩

/-- Wherever `p` holds of an entry, `Q` holds of what came before it. -/
def Whenever (p : α → Prop) (Q : List α → Prop) (l : List α) : Prop :=
  ∀ pre x post, l = pre ++ x :: post → p x → Q pre

/-- Every entry that satisfies `p` is followed by its `f`. -/
def Followed (p : α → Prop) (f : α → α) (l : List α) : Prop :=
  ∀ pre x post, l = pre ++ x :: post → p x → f x ∈ post

variable {p : α → Prop} {Q : List α → Prop} {f : α → α} {l l' : List α}

theorem whenever_nil : Whenever p Q [] := by
  intro pre x post h
  simp at h

theorem Whenever.snoc (h : Whenever p Q l) {y : α} (hy : p y → Q l) :
    Whenever p Q (l ++ [y]) := by
  intro pre x post he hx
  rcases snoc_eq_split he with ⟨rfl, rfl⟩ | ⟨post', -, hl⟩
  · exact hy hx
  · exact h pre x post' hl hx

theorem Whenever.append (h : Whenever p Q l) (hl' : ∀ x ∈ l', ¬ p x) :
    Whenever p Q (l ++ l') := by
  induction l' using List.reverseRecOn with
  | nil => simpa using h
  | append_singleton l' y ih =>
    rw [← List.append_assoc]
    refine (ih fun x hx => hl' x (List.mem_append_left _ hx)).snoc fun hy => ?_
    exact absurd hy (hl' y (by simp))

theorem followed_of_none (h : ∀ x ∈ l, ¬ p x) : Followed p f l := by
  rintro pre x post rfl hx
  exact absurd hx (h x (by simp))

theorem Followed.append (h : Followed p f l) (h' : Followed p f l') : Followed p f (l ++ l') := by
  intro pre x post he hx
  rcases List.append_eq_append_iff.1 he with ⟨a, rfl, ha⟩ | ⟨a, rfl, ha⟩
  · exact h' a x post ha hx
  · cases a with
    | nil => exact h' [] x post ha.symm hx
    | cons y a =>
      obtain ⟨rfl, rfl⟩ := List.cons.inj ha
      exact List.mem_append_left _ (h pre x a rfl hx)

end Log

end Swarna
