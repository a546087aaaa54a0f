import Swarna.Utility

/-!
# Swarna.ChildList

The child table of a relay (`list_utility.c`). `ChildList` carries the facts every operation
relies on: `num_nodes` counts the list, and the list fits the `maxChild` blocks of its memory pool.

* `initChildList_ids`: the table lists the neighbours of greater rank.
* `markAll_all`: which packets set all received flags.
-/

namespace Swarna

structure ChildNode where
  childId : NodeId
  receivedPkt : Bool
  deriving DecidableEq, Repr

structure ChildList where
  nodes : List ChildNode
  numNodes : Nat
  count : numNodes = nodes.length
  bound : nodes.length ≤ maxChild
  deriving DecidableEq, Repr

namespace ChildList

/-- `LIST(child_list)` before `init_child_list`. -/
def empty : ChildList := ⟨[], 0, rfl, by decide⟩

/-- A table of one child. -/
def single (id : NodeId) : ChildList := ⟨[⟨id, false⟩], 1, rfl, by simp [maxChild]⟩

def pair (id id' : NodeId) : ChildList := ⟨[⟨id, false⟩, ⟨id', false⟩], 2, rfl, by simp [maxChild]⟩

@[simp] theorem nodes_single (id : NodeId) : (single id).nodes = [⟨id, false⟩] := rfl

@[simp] theorem nodes_pair (id id' : NodeId) :
    (pair id id').nodes = [⟨id, false⟩, ⟨id', false⟩] := rfl

theorem count_append (c : ChildList) (l : ChildNode) :
    c.numNodes + 1 = (c.nodes ++ [l]).length := by
  simp [c.count]

theorem bound_append (c : ChildList) (l : ChildNode) (h : c.nodes.length < maxChild) :
    (c.nodes ++ [l]).length ≤ maxChild := by
  simp
  omega

/-- `memb_alloc` and `list_add` for one neighbour. -/
def addChild (c : ChildList) (id : NodeId) : Except Fault ChildList :=
  if h : c.nodes.length < maxChild then
    .ok ⟨c.nodes ++ [⟨id, false⟩], c.numNodes + 1, c.count_append _, c.bound_append _ h⟩
  else .error .childAlloc

def fillChildEntries (rank : Rank) : List Nbr → ChildList → Except Fault ChildList
  | [], c => .ok c
  | p :: ps, c =>
    if p.rank > rank then
      match c.addChild (getIdFromAddr p.addr) with
      | .error f => .error f
      | .ok c' => fillChildEntries rank ps c'
    else fillChildEntries rank ps c

def initChildList (nd : Node) : Except Fault ChildList := fillChildEntries nd.rank nd.nbrs empty

def isChildSet (c : ChildList) (id : NodeId) : Bool :=
  c.nodes.any fun l => l.childId == id && l.receivedPkt

/-- `rest_child_list` (reset of the received flags). -/
def restChildList (c : ChildList) : ChildList :=
  { c with
    nodes := c.nodes.map fun l => { l with receivedPkt := false }
    count := by simpa using c.count
    bound := by simpa using c.bound }

def isAllChildSet (c : ChildList) : Bool := c.nodes.all fun l => l.receivedPkt

def isChild (c : ChildList) (id : NodeId) : Bool := c.nodes.any fun l => l.childId == id

/-- The loop of `child_set_pkt_received`: it stops at the first entry with the id. -/
def markFirst (id : NodeId) : List ChildNode → List ChildNode
  | [] => []
  | l :: ls => if l.childId = id then { l with receivedPkt := true } :: ls else l :: markFirst id ls

@[simp] theorem markFirst_length (id : NodeId) (ls : List ChildNode) :
    (markFirst id ls).length = ls.length := by
  induction ls with
  | nil => rfl
  | cons l ls ih => simp only [markFirst]; split <;> simp [ih]

def childSetPktReceived (c : ChildList) (id : NodeId) : Bool × ChildList :=
  (c.isChild id,
    { c with
      nodes := markFirst id c.nodes
      count := by simpa using c.count
      bound := by simpa using c.bound })

/-- `num_nodes`, returned as a `uint8_t`. -/
def getChildCount (c : ChildList) : Nat := c.numNodes % 256

theorem getChildCount_eq (c : ChildList) : c.getChildCount = c.nodes.length := by
  have := c.bound
  rw [getChildCount, c.count, Nat.mod_eq_of_lt (by unfold maxChild at this; omega)]

/-! ## The ids listed never change -/

/-- The listed ids, in table order. -/
def ids (c : ChildList) : List NodeId := c.nodes.map ChildNode.childId

@[simp] theorem ids_length (c : ChildList) : c.ids.length = c.getChildCount := by
  rw [getChildCount_eq]; simp [ids]

theorem ids_length_le (c : ChildList) : c.ids.length ≤ maxChild := by
  simpa [ids] using c.bound

@[simp] theorem ids_restChildList (c : ChildList) : c.restChildList.ids = c.ids := by
  simp [ids, restChildList, Function.comp_def]

@[simp] theorem markFirst_ids (id : NodeId) (ls : List ChildNode) :
    (markFirst id ls).map ChildNode.childId = ls.map ChildNode.childId := by
  induction ls with
  | nil => rfl
  | cons l ls ih => simp only [markFirst]; split <;> simp [ih]

@[simp] theorem ids_childSetPktReceived (c : ChildList) (id : NodeId) :
    (c.childSetPktReceived id).2.ids = c.ids := markFirst_ids id c.nodes

@[simp] theorem getChildCount_restChildList (c : ChildList) :
    c.restChildList.getChildCount = c.getChildCount := by
  rw [← ids_length, ← ids_length, ids_restChildList]

@[simp] theorem getChildCount_childSetPktReceived (c : ChildList) (id : NodeId) :
    (c.childSetPktReceived id).2.getChildCount = c.getChildCount := by
  rw [← ids_length, ← ids_length, ids_childSetPktReceived]

theorem restChildList_idem (c : ChildList) :
    c.restChildList.restChildList = c.restChildList := by
  simp [restChildList]

theorem markFirst_reset (id : NodeId) (ls : List ChildNode) :
    (markFirst id ls).map (fun l => { l with receivedPkt := false }) =
      ls.map fun l => { l with receivedPkt := false } := by
  induction ls with
  | nil => rfl
  | cons l ls ih =>
    simp only [markFirst]
    split
    · simp
    · simp [ih]

/-- A reset forgets which flags were set. -/
@[simp] theorem restChildList_childSetPktReceived (c : ChildList) (id : NodeId) :
    (c.childSetPktReceived id).2.restChildList = c.restChildList := by
  simp [restChildList, childSetPktReceived, markFirst_reset]

theorem isChild_iff {c : ChildList} {id : NodeId} : c.isChild id = true ↔ id ∈ c.ids := by
  simp [isChild, ids]

theorem getChildCount_pos {c : ChildList} {id : NodeId} (h : c.isChild id = true) :
    0 < c.getChildCount := by
  rw [← ids_length]
  exact List.length_pos_of_mem (isChild_iff.1 h)

/-- `init_child_list` lists the neighbours of greater rank, in table order. -/
theorem fillChildEntries_ids {rank : Rank} {ps : List Nbr} {c c' : ChildList}
    (h : fillChildEntries rank ps c = .ok c') :
    c'.ids = c.ids ++ (ps.filter fun p => p.rank > rank).map fun p => getIdFromAddr p.addr := by
  induction ps generalizing c with
  | nil => cases h; simp
  | cons p ps ih =>
    simp only [fillChildEntries] at h
    split at h
    · rename_i hp
      simp only [addChild] at h
      split at h
      · cases h
      · rename_i c₁ hc
        split at hc
        · cases hc
          rw [ih h]
          simp [ids, hp]
        · cases hc
    · rename_i hp
      rw [ih h]
      simp [hp]

theorem initChildList_ids {nd : Node} {c : ChildList} (h : initChildList nd = .ok c) :
    c.ids = (nd.nbrs.filter fun p => p.rank > nd.rank).map fun p => getIdFromAddr p.addr := by
  simpa [empty, ids] using fillChildEntries_ids h

/-! ## The received flags -/

/-- `mark_first` for each id of a list, in order. -/
def markAll (L : List NodeId) (ls : List ChildNode) : List ChildNode :=
  L.foldl (fun ls id => markFirst id ls) ls

@[simp] theorem markAll_nil (ls : List ChildNode) : markAll [] ls = ls := rfl

@[simp] theorem markAll_snoc (L : List NodeId) (id : NodeId) (ls : List ChildNode) :
    markAll (L ++ [id]) ls = markFirst id (markAll L ls) := by
  simp [markAll]

/-- The first entry takes the marks of its id, and hides them from the entries behind it. -/
theorem markAll_cons (L : List NodeId) (l : ChildNode) (ls : List ChildNode) :
    markAll L (l :: ls) =
      { l with receivedPkt := l.receivedPkt || decide (l.childId ∈ L) } ::
        markAll (L.filter (· ≠ l.childId)) ls := by
  induction L generalizing l ls with
  | nil => simp
  | cons a L ih =>
    by_cases h : l.childId = a
    · have hm : markAll (a :: L) (l :: ls) = markAll L ({ l with receivedPkt := true } :: ls) := by
        simp [markAll, markFirst, h]
      rw [hm, ih]
      simp [h]
    · have hm : markAll (a :: L) (l :: ls) = markAll L (l :: markFirst a ls) := by
        simp [markAll, markFirst, h]
      have hne : a ≠ l.childId := fun e => h e.symm
      rw [hm, ih]
      simp [h, hne, markAll]

/-- No entry is marked as heard. -/
def Clear (c : ChildList) : Prop := ∀ l ∈ c.nodes, l.receivedPkt = false

theorem Clear.restChildList_nodes {c : ChildList} (h : c.Clear) :
    c.restChildList.nodes = c.nodes := by
  have hsame : ∀ l ∈ c.nodes, { l with receivedPkt := false } = l := fun l hl => by rw [← h l hl]
  exact (List.map_congr_left hsame).trans (List.map_id _)

/-- Once the ids of `L` are marked, all flags are set if and only if `L` has every listed id and
no id is listed twice. -/
theorem markAll_all {ls : List ChildNode} (h : ∀ l ∈ ls, l.receivedPkt = false) (L : List NodeId) :
    ((markAll L ls).all fun l => l.receivedPkt) = true ↔
      (ls.map ChildNode.childId).Nodup ∧ ∀ i ∈ ls.map ChildNode.childId, i ∈ L := by
  induction ls generalizing L with
  | nil =>
    have : ∀ L, markAll L [] = [] := by
      intro L
      induction L with
      | nil => rfl
      | cons a L ih => exact ih
    simp [this]
  | cons l ls ih =>
    have hl : l.receivedPkt = false := h l (List.mem_cons_self ..)
    have ih' := ih (fun l' hl' => h l' (List.mem_cons_of_mem _ hl')) (L.filter (· ≠ l.childId))
    rw [markAll_cons, List.all_cons, Bool.and_eq_true, ih']
    simp only [hl, Bool.false_or, decide_eq_true_eq, List.map_cons, List.nodup_cons,
      List.forall_mem_cons, List.mem_filter]
    constructor
    · rintro ⟨hmem, hnodup, hall⟩
      exact ⟨⟨fun hin => (hall _ hin).2 rfl, hnodup⟩, hmem, fun i hi => (hall i hi).1⟩
    · rintro ⟨⟨hnotin, hnodup⟩, hmem, hall⟩
      exact ⟨hmem, hnodup, fun i hi => ⟨hall i hi, fun e => hnotin (e ▸ hi)⟩⟩

/-- `init_child_list` leaves every flag clear. -/
theorem fillChildEntries_clear {rank : Rank} {ps : List Nbr} {c c' : ChildList} (hc : c.Clear)
    (h : fillChildEntries rank ps c = .ok c') : c'.Clear := by
  induction ps generalizing c with
  | nil => cases h; exact hc
  | cons p ps ih =>
    simp only [fillChildEntries, addChild] at h
    split at h
    · split at h
      · cases h
      · rename_i c₁ hc₁
        refine ih ?_ h
        split at hc₁
        · cases hc₁
          intro l hl
          rcases List.mem_append.1 hl with hl | hl
          · exact hc l hl
          · rw [List.mem_singleton.1 hl]
        · cases hc₁
    · exact ih hc h

theorem initChildList_clear {nd : Node} {c : ChildList} (h : initChildList nd = .ok c) : c.Clear :=
  fillChildEntries_clear (by simp [Clear, empty]) h

end ChildList

end Swarna
