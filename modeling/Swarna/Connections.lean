import Swarna.Machine
import Swarna.Utility
import Mathlib.Data.Finset.Option
import Mathlib.Data.Fintype.Card

/-!
# Swarna.Connections

`send_to_parents` with the UDP connection it asks for (`get_parent_conn`), over the calls a node
makes in its life. Relays and clients send their topology responses through it.

The slots of the network stack are a parameter (`UdpStack`): `udp_new` takes a free one, and a slot
stays in use until it is removed. Nothing in the program removes one.

* `exec_card`: every call that returns has used up a slot.
* `keepsSending_iff`: the calls work as intended exactly if there is at most one.
-/

namespace Swarna

/-- The UDP connections of a stack with `n` slots. -/
structure UdpStack (n : Nat) where
  /-- `udp_new` on the slots in use: the slot taken, `none` for `NULL`. -/
  udpNew : Finset (Fin n) → Option (Fin n)
  free : ∀ {used : Finset (Fin n)} {conn : Fin n}, udpNew used = some conn → conn ∉ used
  full : ∀ {used : Finset (Fin n)}, udpNew used = none → used = Finset.univ

namespace Connections

variable {n : Nat}

/-- One call of `send_to_parents`, with the node's neighbours and rank at that time. -/
structure Call where
  nd : Node
  pkt : ResponsePkt
  isClient : Bool
  deriving DecidableEq, Repr

/-- A packet handed to `uip_udp_packet_sendto`. -/
structure Sent (n : Nat) where
  conn : Fin n
  pkt : ResponsePkt
  addr : Addr
  deriving DecidableEq, Repr

inductive ConnFault where
  /-- `udp_bind` writes the local port through a `NULL` connection. -/
  | nullConn
  deriving DecidableEq, Repr

def udpBind : Option (Fin n) → Except ConnFault Unit
  | none => .error .nullConn
  | some _ => .ok ()

variable (U : UdpStack n)

/-- `get_parent_conn`: a new connection at each call, bound before anyone has looked at it. -/
def getParentConn (used : Finset (Fin n)) :
    Except ConnFault (Option (Fin n) × Finset (Fin n)) :=
  let conn := U.udpNew used
  match udpBind conn with
  | .error f => .error f
  | .ok () => .ok (conn, used ∪ conn.toFinset)

/-- `send_to_parents`, with the slots in use before and after. -/
def sendToParents (used : Finset (Fin n)) (c : Call) :
    Except ConnFault (Finset (Fin n) × List (Sent n)) :=
  match getParentConn U used with
  | .error f => .error f
  | .ok (none, used) => .ok (used, [])
  | .ok (some conn, used) =>
    .ok (used, (parents c.nd c.isClient).map fun addr => ⟨conn, c.pkt, addr⟩)

def machine : Machine (Finset (Fin n)) Call (Sent n) ConnFault := ⟨sendToParents U⟩

/-! ## One call -/

variable {U}

theorem sendToParents_some {used : Finset (Fin n)} {conn : Fin n} (h : U.udpNew used = some conn)
    (c : Call) : sendToParents U used c =
      .ok (insert conn used, (parents c.nd c.isClient).map fun addr => ⟨conn, c.pkt, addr⟩) := by
  have hset : used ∪ (some conn).toFinset = insert conn used := by
    rw [Option.toFinset_some, Finset.union_comm, Finset.insert_eq]
  simp only [sendToParents, getParentConn, h, udpBind, hset]

/-- Without a free slot, `get_parent_conn` writes through `NULL` before its caller can check. -/
theorem sendToParents_none {used : Finset (Fin n)} (h : U.udpNew used = none) (c : Call) :
    sendToParents U used c = .error .nullConn := by
  simp only [sendToParents, getParentConn, h, udpBind]

theorem sendToParents_ok {used used' : Finset (Fin n)} {c : Call} {out : List (Sent n)}
    (h : sendToParents U used c = .ok (used', out)) :
    ∃ conn, U.udpNew used = some conn ∧ used' = insert conn used ∧
      out = (parents c.nd c.isClient).map fun addr => ⟨conn, c.pkt, addr⟩ := by
  cases hnew : U.udpNew used with
  | none =>
    rw [sendToParents_none hnew] at h
    cases h
  | some conn =>
    rw [sendToParents_some hnew] at h
    cases h
    exact ⟨conn, rfl, rfl, rfl⟩

/-- A call that returns hands over the packets of the action the node's handlers ask for. -/
theorem sendToParents_action {used used' : Finset (Fin n)} {c : Call} {out : List (Sent n)}
    (h : sendToParents U used c = .ok (used', out)) :
    Swarna.sendToParents c.nd c.pkt c.isClient =
      .sendToParents c.pkt c.isClient (out.map Sent.addr) := by
  obtain ⟨conn, -, -, rfl⟩ := sendToParents_ok h
  simp [Swarna.sendToParents, Function.comp_def]

/-! ## A node's life -/

/-- Every call that returns has taken a slot, and none is given back. -/
theorem exec_card {calls : List Call} {used used' : Finset (Fin n)} {t : Trace Call (Sent n)}
    (h : (machine U).exec used calls = .ok (t, used')) :
    used'.card = used.card + calls.length := by
  induction calls generalizing used t with
  | nil => cases h; rfl
  | cons c calls ih =>
    obtain ⟨used₁, out, t₁, hs, ht, -⟩ := Machine.exec_cons.1 h
    obtain ⟨conn, hnew, rfl, -⟩ := sendToParents_ok hs
    rw [ih ht, Finset.card_insert_of_notMem (U.free hnew), List.length_cons]
    omega

/-- A node with the slots `used` taken makes the calls of a list and can go on. -/
structure KeepsSending (U : UdpStack n) (used : Finset (Fin n)) (calls : List Call) : Prop where
  /-- After one call or more, as many slots are in use as after one. -/
  slots : ∀ k, 1 ≤ k → k ≤ calls.length → ∃ t s t₁ s₁,
    (machine U).exec used (calls.take k) = .ok (t, s) ∧
      (machine U).exec used (calls.take 1) = .ok (t₁, s₁) ∧ s.card = s₁.card
  /-- Every call hands its packet to every neighbour accepted, and to no other. -/
  delivers : ∃ t s, (machine U).exec used calls = .ok (t, s) ∧
    ∀ x ∈ t, (x.2.map fun d => (d.pkt, d.addr)) =
      (parents x.1.nd x.1.isClient).map fun addr => (x.1.pkt, addr)
  /-- A call for which `udp_new` fails returns, having used no connection. -/
  unused : ∀ k c t s, calls[k]? = some c → (machine U).exec used (calls.take k) = .ok (t, s) →
    U.udpNew s = none → (machine U).step s c = .ok (s, [])

/-- The calls of a node's life work exactly if there is at most one, and a slot free for it. -/
theorem keepsSending_iff {used : Finset (Fin n)} {calls : List Call} :
    KeepsSending U used calls ↔ calls.length ≤ 1 ∧ used.card + calls.length ≤ n := by
  constructor
  · intro h
    constructor
    · by_contra hlen
      obtain ⟨t, s, t₁, s₁, h₂, h₁, hcard⟩ := h.slots 2 (by omega) (by omega)
      rw [exec_card h₂, exec_card h₁, List.length_take, List.length_take] at hcard
      omega
    · obtain ⟨t, s, hexec, -⟩ := h.delivers
      rw [← exec_card hexec]
      exact (Finset.card_le_univ s).trans_eq (Fintype.card_fin n)
  · rintro ⟨hlen, hroom⟩
    match calls, hlen, hroom with
    | [], _, _ =>
      refine ⟨fun k h₁ h₂ => ?_, ⟨[], used, rfl, by simp⟩, fun k c t s hc => by simp at hc⟩
      simp only [List.length_nil] at h₂
      omega
    | [c], _, hroom =>
      obtain ⟨conn, hnew⟩ : ∃ conn, U.udpNew used = some conn := by
        refine Option.ne_none_iff_exists'.1 fun hnone => ?_
        rw [U.full hnone, Finset.card_univ, Fintype.card_fin, List.length_singleton] at hroom
        omega
      have hexec : (machine U).exec used [c] = .ok
          ([(c, (parents c.nd c.isClient).map fun addr => ⟨conn, c.pkt, addr⟩)],
            insert conn used) :=
        Machine.exec_cons.2 ⟨_, _, [], sendToParents_some hnew c, rfl, rfl⟩
      refine ⟨fun k h₁ h₂ => ?_, ⟨_, _, hexec, ?_⟩, fun k c' t s hc ht hnone => ?_⟩
      · have hk : k = 1 := Nat.le_antisymm h₂ h₁
        subst hk
        exact ⟨_, _, _, _, hexec, hexec, rfl⟩
      · intro x hx
        rw [List.mem_singleton.1 hx]
        simp [Function.comp_def]
      · have hk : k = 0 := by
          have := (List.getElem?_eq_some_iff.1 hc).1
          simpa using this
        subst hk
        cases ht
        rw [hnew] at hnone
        cases hnone

/-! ## A stack of four slots -/

/-- The first free slot. -/
def firstFree (n : Nat) : UdpStack n where
  udpNew used := (List.finRange n).find? (· ∉ used)
  free := by
    intro used conn h
    simpa using List.find?_some h
  full := by
    intro used h
    ext conn
    simpa using List.find?_eq_none.1 h conn (List.mem_finRange conn)

/-- A client with one neighbour answers a topology request. -/
def answer : Call :=
  ⟨⟨2, 768, [⟨1, 512⟩]⟩, .topology ⟨1, [2], 768, ownChecksum 2⟩, true⟩

/-- With one of four slots in use at start-up, the fourth answer writes through `NULL`. -/
theorem fourth_answer_faults :
    (machine (firstFree 4)).exec {0} [answer, answer, answer, answer] = .error .nullConn ∧
      ¬ KeepsSending (firstFree 4) {0} [answer, answer, answer, answer] := by
  have hfault : (machine (firstFree 4)).exec {0} [answer, answer, answer, answer] =
      .error .nullConn := by
    decide
  refine ⟨hfault, fun h => ?_⟩
  obtain ⟨t, s, hexec, -⟩ := h.delivers
  rw [hfault] at hexec
  cases hexec

end Connections
end Swarna
