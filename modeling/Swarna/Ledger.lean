import Swarna.Machine

/-!
# Swarna.Ledger

Books of a party that takes in items and reports them. An entry is an item taken in or a report
made; a report is due to cover what was taken in since the report before.

* `owed`: the items taken in since the last report.
* `last`: the last report, with the items it was due to cover.
* `Accounted f`: every report is `f` of the items it was due to cover. `accounted_item`,
  `accounted_report` and `accounted_reports` keep it as entries are added.
-/

namespace Swarna

inductive Entry (α ρ : Type) where
  | item (a : α)
  | report (r : ρ)
  deriving DecidableEq, Repr

namespace Ledger

variable {α ρ : Type} {f : List α → ρ} {l : List (Entry α ρ)}

/-- The items not reported yet, and the last report with the items before it. -/
structure Balance (α ρ : Type) where
  owed : List α
  last : Option (ρ × List α)
  deriving DecidableEq, Repr

def post (x : Balance α ρ) : Entry α ρ → Balance α ρ
  | .item a => { x with owed := x.owed ++ [a] }
  | .report r => ⟨[], some (r, x.owed)⟩

def balance (l : List (Entry α ρ)) : Balance α ρ := l.foldl post ⟨[], none⟩

def owed (l : List (Entry α ρ)) : List α := (balance l).owed

def last (l : List (Entry α ρ)) : Option (ρ × List α) := (balance l).last

@[simp] theorem owed_nil : owed ([] : List (Entry α ρ)) = [] := rfl
@[simp] theorem last_nil : last ([] : List (Entry α ρ)) = none := rfl

@[simp] theorem owed_item (l : List (Entry α ρ)) (a : α) :
    owed (l ++ [.item a]) = owed l ++ [a] := by
  simp [owed, balance, post]

@[simp] theorem owed_report (l : List (Entry α ρ)) (r : ρ) : owed (l ++ [.report r]) = [] := by
  simp [owed, balance, post]

@[simp] theorem last_item (l : List (Entry α ρ)) (a : α) : last (l ++ [.item a]) = last l := by
  simp [last, balance, post]

@[simp] theorem last_report (l : List (Entry α ρ)) (r : ρ) :
    last (l ++ [.report r]) = some (r, owed l) := by
  simp [last, owed, balance, post]

/-- Every report covers what was taken in since the report before it. -/
def Accounted (f : List α → ρ) (l : List (Entry α ρ)) : Prop :=
  ∀ pre r post, l = pre ++ .report r :: post → r = f (owed pre)

theorem accounted_nil : Accounted f [] := by
  intro pre r post h
  simp at h

theorem accounted_item (h : Accounted f l) (a : α) : Accounted f (l ++ [.item a]) := by
  intro pre r post he
  rcases snoc_eq_split he with ⟨-, hx⟩ | ⟨post', -, hl⟩
  · cases hx
  · exact h pre r post' hl

theorem accounted_report (h : Accounted f l) {r : ρ} (hr : r = f (owed l)) :
    Accounted f (l ++ [.report r]) := by
  intro pre r' post he
  rcases snoc_eq_split he with ⟨rfl, hx⟩ | ⟨post', -, hl⟩
  · cases hx
    exact hr
  · exact h pre r' post' hl

/-- Reports that follow a report have nothing to cover. -/
theorem accounted_reports (rs : List ρ) (h : Accounted f l) (ho : owed l = [])
    (hrs : ∀ r ∈ rs, r = f []) :
    Accounted f (l ++ rs.map .report) ∧ owed (l ++ rs.map .report) = [] := by
  induction rs generalizing l with
  | nil => simpa using ⟨h, ho⟩
  | cons r rs ih =>
    have hr : r = f (owed l) := by rw [ho]; exact hrs r List.mem_cons_self
    rw [List.map_cons, List.append_cons]
    exact ih (accounted_report h hr) (owed_report l r) fun x hx => hrs x (List.mem_cons_of_mem _ hx)

/-- What the last report covers. -/
theorem Accounted.last (h : Accounted f l) {r : ρ} {items : List α}
    (hl : last l = some (r, items)) : r = f items := by
  induction l using List.reverseRecOn with
  | nil => cases hl
  | append_singleton l x ih =>
    have hpre : Accounted f l := by
      intro pre r post he
      exact h pre r (post ++ [x]) (by rw [he]; simp)
    cases x with
    | item a => exact ih hpre (by simpa using hl)
    | report r' =>
      rw [last_report] at hl
      cases hl
      exact h l _ [] rfl

end Ledger

end Swarna
