import Mathlib.Data.List.Induction
import Swarna.ChildList

/-!
# Swarna.ChildTable

The child table from its construction on: `init_child_list` fills it once, then packets set the
flags of their senders and `rest_child_list` clears them all.

* `init_complete_iff`: the table lists every neighbour of greater rank if there are blocks for all
  of them. `init_eleven`: one more, and a failed allocation is written through.
* `Tracks`: the flags are those of a set of ids. `Tracks.call`: each call does to the flags what it
  does to the set of the ids heard since the last reset.
* `received_flags_exact`: what the functions of the table answer after any sequence of calls.
-/

namespace Swarna
namespace ChildList

/-! ## Construction -/

/-- The neighbours of greater rank. -/
def higher (nd : Node) : List Nbr := nd.nbrs.filter fun p => p.rank > nd.rank

/-- The entry for a neighbour. -/
def entry (p : Nbr) : ChildNode := ⟨getIdFromAddr p.addr, false⟩

/-- No allocation fails, and every neighbour of greater rank gets one entry, in table order. -/
def Complete (nd : Node) : Prop :=
  ∃ c, initChildList nd = .ok c ∧ c.nodes = (higher nd).map entry ∧
    c.getChildCount = c.nodes.length

theorem fillChildEntries_fits {rank : Rank} {ps : List Nbr} {c : ChildList}
    (h : c.nodes.length + (ps.filter fun p => p.rank > rank).length ≤ maxChild) :
    ∃ c', fillChildEntries rank ps c = .ok c' ∧
      c'.nodes = c.nodes ++ (ps.filter fun p => p.rank > rank).map entry := by
  induction ps generalizing c with
  | nil => exact ⟨c, rfl, by simp⟩
  | cons p ps ih =>
    by_cases hp : p.rank > rank
    · rw [List.filter_cons_of_pos (by simpa using hp), List.length_cons] at h
      have hroom : c.nodes.length < maxChild := by omega
      obtain ⟨c', hc', hnodes⟩ := ih (c := ⟨c.nodes ++ [entry p], c.numNodes + 1,
        by simp [c.count], by simp; omega⟩)
        (by rw [List.length_append, List.length_singleton]; omega)
      refine ⟨c', ?_, by simp [hnodes, hp]⟩
      simp only [fillChildEntries, if_pos hp, addChild, dif_pos hroom]
      exact hc'
    · rw [List.filter_cons_of_neg (by simpa using hp)] at h ⊢
      rw [fillChildEntries, if_neg hp]
      exact ih h

theorem fillChildEntries_overflow {rank : Rank} {ps : List Nbr} {c : ChildList}
    (h : maxChild < c.nodes.length + (ps.filter fun p => p.rank > rank).length) :
    fillChildEntries rank ps c = .error .childAlloc := by
  induction ps generalizing c with
  | nil =>
    have := c.bound
    rw [List.filter_nil, List.length_nil] at h
    omega
  | cons p ps ih =>
    by_cases hp : p.rank > rank
    · rw [List.filter_cons_of_pos (by simpa using hp), List.length_cons] at h
      rw [fillChildEntries, if_pos hp, addChild]
      by_cases hroom : c.nodes.length < maxChild
      · rw [dif_pos hroom]
        exact ih (by rw [List.length_append, List.length_singleton]; omega)
      · rw [dif_neg hroom]
    · rw [List.filter_cons_of_neg (by simpa using hp)] at h
      rw [fillChildEntries, if_neg hp]
      exact ih h

theorem init_complete_iff (nd : Node) : Complete nd ↔ (higher nd).length ≤ maxChild := by
  constructor
  · rintro ⟨c, hc, -⟩
    by_contra hmany
    have hover : initChildList nd = .error .childAlloc :=
      fillChildEntries_overflow (c := empty) (by simpa [empty, higher] using hmany)
    rw [hover] at hc
    cases hc
  · intro hfew
    obtain ⟨c, hc, hnodes⟩ : ∃ c, fillChildEntries nd.rank nd.nbrs empty = .ok c ∧
        c.nodes = empty.nodes ++ (higher nd).map entry :=
      fillChildEntries_fits (by simpa [empty, higher] using hfew)
    exact ⟨c, hc, hnodes, c.getChildCount_eq⟩

/-- A node of rank 256 with eleven neighbours of rank 512. -/
def elevenNode : Node :=
  ⟨1, 256, (List.range 11).map fun k => ⟨BitVec.ofNat 128 (k + 2), 512⟩⟩

theorem init_eleven :
    initChildList elevenNode = .error .childAlloc ∧ ¬ Complete elevenNode := by
  refine ⟨by decide, ?_⟩
  rintro ⟨c, hc, -⟩
  cases hc

/-! ## The ids heard -/

/-- The calls that change the table. -/
inductive Call where
  | childSetPktReceived (id : NodeId)
  | restChildList
  deriving DecidableEq, Repr

def call (c : ChildList) : Call → ChildList
  | .childSetPktReceived id => (c.childSetPktReceived id).2
  | .restChildList => c.restChildList

/-- The table after some calls. -/
def after (c : ChildList) (calls : List Call) : ChildList := calls.foldl call c

/-- The id was set, and there was no reset since. -/
def SetSince (calls : List Call) (id : NodeId) : Prop :=
  ∃ before rest, calls = before ++ .childSetPktReceived id :: rest ∧ .restChildList ∉ rest

theorem not_setSince_nil (id : NodeId) : ¬ SetSince [] id := by
  rintro ⟨before, rest, h, -⟩
  simp at h

theorem setSince_set (calls : List Call) (i id : NodeId) :
    SetSince (calls ++ [.childSetPktReceived i]) id ↔ id = i ∨ SetSince calls id := by
  constructor
  · rintro ⟨before, rest, h, hrest⟩
    rcases List.eq_nil_or_concat rest with rfl | ⟨rest, x, rfl⟩
    · obtain ⟨-, hx⟩ := List.append_inj' h rfl
      cases hx
      exact .inl rfl
    · rw [List.concat_eq_append, ← List.cons_append, ← List.append_assoc] at h
      obtain ⟨rfl, -⟩ := List.append_inj' h rfl
      exact .inr ⟨before, rest, rfl, fun hmem => hrest (by simp [hmem])⟩
  · rintro (rfl | ⟨before, rest, rfl, hrest⟩)
    · exact ⟨calls, [], rfl, List.not_mem_nil⟩
    · exact ⟨before, rest ++ [.childSetPktReceived i], by simp, by simpa using hrest⟩

theorem not_setSince_rest (calls : List Call) (id : NodeId) :
    ¬ SetSince (calls ++ [.restChildList]) id := by
  rintro ⟨before, rest, h, hrest⟩
  rcases List.eq_nil_or_concat rest with rfl | ⟨rest, x, rfl⟩
  · obtain ⟨-, hx⟩ := List.append_inj' h rfl
    cases hx
  · rw [List.concat_eq_append, ← List.cons_append, ← List.append_assoc] at h
    obtain ⟨-, hx⟩ := List.append_inj' h rfl
    cases hx
    exact hrest (by simp)

/-- The flags set are those of the ids that satisfy `P`. -/
def Tracks (c : ChildList) (P : NodeId → Prop) : Prop :=
  ∀ l ∈ c.nodes, l.receivedPkt = true ↔ P l.childId

/-- Where no id is listed twice, the first entry with an id is the only one. -/
theorem markFirst_eq_map {id : NodeId} {ls : List ChildNode}
    (h : (ls.map ChildNode.childId).Nodup) :
    markFirst id ls =
      ls.map fun l => if l.childId = id then { l with receivedPkt := true } else l := by
  induction ls with
  | nil => rfl
  | cons l ls ih =>
    rw [List.map_cons, List.nodup_cons] at h
    rw [markFirst, List.map_cons]
    by_cases hl : l.childId = id
    · have hothers : ∀ l' ∈ ls, ¬ l'.childId = id := by
        rintro l' hl' rfl
        exact h.1 (hl ▸ List.mem_map_of_mem hl')
      rw [if_pos hl, if_pos hl, List.map_congr_left fun l' hl' => if_neg (hothers l' hl'),
        List.map_id']
    · rw [if_neg hl, if_neg hl, ih h.2]

theorem Tracks.childSetPktReceived {c : ChildList} {P : NodeId → Prop} (hc : c.ids.Nodup)
    (h : c.Tracks P) (id : NodeId) :
    (c.childSetPktReceived id).2.Tracks fun i => i = id ∨ P i := by
  intro l hl
  have hnodes : (c.childSetPktReceived id).2.nodes = markFirst id c.nodes := rfl
  rw [hnodes, markFirst_eq_map hc] at hl
  obtain ⟨l₀, hl₀, rfl⟩ := List.mem_map.1 hl
  by_cases hid : l₀.childId = id
  · simp [hid]
  · simp [hid, h l₀ hl₀]

theorem Tracks.restChildList (c : ChildList) : c.restChildList.Tracks fun _ => False := by
  intro l hl
  obtain ⟨l₀, -, rfl⟩ := List.mem_map.1 hl
  simp

theorem Tracks.congr {c : ChildList} {P Q : NodeId → Prop} (h : c.Tracks P)
    (hPQ : ∀ id, Q id ↔ P id) : c.Tracks Q :=
  fun l hl => (h l hl).trans (hPQ _).symm

theorem Tracks.call {c : ChildList} (hc : c.ids.Nodup) {calls : List Call}
    (h : c.Tracks (SetSince calls)) (x : Call) : (c.call x).Tracks (SetSince (calls ++ [x])) := by
  cases x with
  | childSetPktReceived id => exact (h.childSetPktReceived hc id).congr (setSince_set calls id)
  | restChildList =>
    exact (Tracks.restChildList c).congr fun id =>
      iff_of_false (not_setSince_rest calls id) not_false

@[simp] theorem ids_call (c : ChildList) (x : Call) : (c.call x).ids = c.ids := by
  cases x with
  | childSetPktReceived id => exact ids_childSetPktReceived c id
  | restChildList => exact ids_restChildList c

theorem after_snoc (c : ChildList) (calls : List Call) (x : Call) :
    c.after (calls ++ [x]) = (c.after calls).call x := by
  simp [after]

@[simp] theorem ids_after (c : ChildList) (calls : List Call) : (c.after calls).ids = c.ids := by
  induction calls using List.reverseRecOn with
  | nil => rfl
  | append_singleton calls x ih => rw [after_snoc, ids_call, ih]

theorem tracks_after {c : ChildList} (hc : c.ids.Nodup) (hclear : c.Clear) (calls : List Call) :
    (c.after calls).Tracks (SetSince calls) := by
  induction calls using List.reverseRecOn with
  | nil => exact fun l hl => by simp [hclear l hl, not_setSince_nil]
  | append_singleton calls x ih =>
    rw [after_snoc]
    exact ih.call (by rwa [ids_after]) x

/-! ## What the functions answer -/

theorem Tracks.isChildSet_iff {c : ChildList} {P : NodeId → Prop} (h : c.Tracks P) (id : NodeId) :
    c.isChildSet id = true ↔ id ∈ c.ids ∧ P id := by
  simp only [isChildSet, List.any_eq_true, Bool.and_eq_true, beq_iff_eq, ids, List.mem_map]
  constructor
  · rintro ⟨l, hl, rfl, hset⟩
    exact ⟨⟨l, hl, rfl⟩, (h l hl).1 hset⟩
  · rintro ⟨⟨l, hl, rfl⟩, hP⟩
    exact ⟨l, hl, rfl, (h l hl).2 hP⟩

theorem Tracks.isAllChildSet_iff {c : ChildList} {P : NodeId → Prop} (h : c.Tracks P) :
    c.isAllChildSet = true ↔ ∀ id ∈ c.ids, P id := by
  simp only [isAllChildSet, List.all_eq_true, ids, List.forall_mem_map]
  exact forall₂_congr h

theorem markFirst_of_notMem {id : NodeId} {ls : List ChildNode}
    (h : id ∉ ls.map ChildNode.childId) : markFirst id ls = ls := by
  induction ls with
  | nil => rfl
  | cons l ls ih =>
    obtain ⟨hl, hls⟩ := List.ne_and_not_mem_of_not_mem_cons h
    rw [markFirst, if_neg hl.symm, ih hls]

theorem childSetPktReceived_stranger {c : ChildList} {id : NodeId} (h : id ∉ c.ids) :
    (c.childSetPktReceived id).2 = c := by
  obtain ⟨nodes, numNodes, count, bound⟩ := c
  simp only [childSetPktReceived, markFirst_of_notMem h]

theorem received_flags_exact {c : ChildList} (hc : c.ids.Nodup) (hclear : c.Clear)
    (calls : List Call) :
    (∀ id, (c.after calls).isChildSet id = true ↔ id ∈ c.ids ∧ SetSince calls id) ∧
      ((c.after calls).isAllChildSet = true ↔ ∀ id ∈ c.ids, SetSince calls id) ∧
      (∀ id, ((c.after calls).childSetPktReceived id).1 = true ↔ id ∈ c.ids) ∧
      (∀ id, id ∉ c.ids → ((c.after calls).childSetPktReceived id).2 = c.after calls) ∧
      (∀ id, (c.after calls).isChild id = c.isChild id) ∧
      (c.after calls).getChildCount = c.getChildCount := by
  have htracks := tracks_after hc hclear calls
  have hids := ids_after c calls
  refine ⟨?_, ?_, ?_, ?_, ?_, ?_⟩
  · exact fun id => by rw [htracks.isChildSet_iff, hids]
  · rw [htracks.isAllChildSet_iff, hids]
  · exact fun id => by rw [← hids]; exact isChild_iff
  · exact fun id hid => childSetPktReceived_stranger (by rwa [hids])
  · exact fun id => by rw [Bool.eq_iff_iff, isChild_iff, isChild_iff, hids]
  · rw [← ids_length, ← ids_length, hids]

/-- The table of two children. -/
def pairTable : ChildList := .pair 2 3

/-- Child 2 is heard, a reset, then child 3 and a stranger. -/
theorem received_flags_exact_pair :
    (pairTable.after [.childSetPktReceived 2, .restChildList, .childSetPktReceived 3,
        .childSetPktReceived 9]).isChildSet 3 = true ∧
      (pairTable.after [.childSetPktReceived 2, .restChildList, .childSetPktReceived 3,
        .childSetPktReceived 9]).isAllChildSet = false := by
  have h := received_flags_exact (c := pairTable) (by decide)
    (by simp [Clear, pairTable]) [.childSetPktReceived 2, .restChildList, .childSetPktReceived 3,
      .childSetPktReceived 9]
  exact ⟨(h.1 3).2 ⟨by decide, [.childSetPktReceived 2, .restChildList], [.childSetPktReceived 9],
    rfl, by decide⟩, by decide⟩

end ChildList
end Swarna
