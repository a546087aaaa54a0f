import Swarna.SerialLine

/-!
# Swarna.SlipBridge

What the border router and the host say to each other over the serial line before packets flow, and
which packets go back.

* `asking`, `booted`: the events before the prefix is given, and those from the start of the servers
  on.
* `prefix_protocol`: in every run the prefix is asked for at every pause until it is given, and not
  after; the last one given is in use; only datagrams that come later are handled.
* `macs_answered`: every request for the address is answered, and the answer says it.
* `not_bounced`: what came over the serial line is not sent back.
-/

namespace Swarna
namespace SerialLine

open Slip (Byte)

variable {P : Platform} {v w : Nat}

/-! ## Messages -/

/-- A message from which nothing is missing: one for configuration says its type, and one for the
prefix has all of it. -/
structure Message.Complete (p : Message) : Prop where
  type : ∀ c ∈ p.bytes.head?, c = toByte '!' ∨ c = toByte '?' → 2 ≤ p.bytes.length
  prefix64 : p.bytes.take 2 = [toByte '!', toByte 'P'] → 10 ≤ p.bytes.length

/-- The prefix in a message. -/
def givenPrefix (p : Message) : Option IpAddr :=
  if p.bytes.take 2 = [toByte '!', toByte 'P'] then
    some ((Vector.ofFn fun i : Fin 8 => p.bytes.getD (2 + i.val) 0) ++
      Vector.replicate 8 (0 : Byte))
  else none

def Event.given? : Event w → Option IpAddr
  | .slipInput p => givenPrefix p
  | _ => none

def Event.isResume : Event w → Bool
  | .resume _ => true
  | _ => false

/-- The request for the prefix. -/
def prefixRequest : Item := .send [toByte '?', toByte 'P']

/-- The answer that says the address. -/
def macAnswer (lladdr : Vector Byte 8) : List Byte :=
  toByte '!' :: toByte 'M' :: hexLladdr lladdr

def Event.asksMac : Event w → Bool
  | .slipInput p => p.bytes.take 2 = [toByte '?', toByte 'M']
  | _ => false

/-- A run in which messages are `Complete`. -/
def Complete (_ : Trace (Event w) Item) (_ : State w) : Event w → Prop
  | .slipInput p => p.Complete
  | _ => True

/-- A byte of the buffer after a write. -/
theorem Buffer.byte_put_eq (b : Buffer) (off : Nat) (p : List Byte) {i : Nat}
    (hi : i < uipBufSize) : (b.put off p).byte i =
      if off ≤ i ∧ i < off + p.length then p.getD (i - off) 0 else b.byte i := by
  rw [byte, dif_pos hi, put, byte, dif_pos hi]

/-- The first two bytes of a message, as the callback sees them. -/
theorem Message.Complete.take_two_iff {p : Message} (h : p.Complete) (b : Buffer) {c : Byte}
    (hc : c = toByte '!' ∨ c = toByte '?') (d : Byte) : p.bytes.take 2 = [c, d] ↔
      (b.put 0 p.bytes).byte 0 = c ∧ (b.put 0 p.bytes).byte 1 = d := by
  obtain ⟨bytes, hne, hlen⟩ := p
  obtain ⟨c', cs, rfl⟩ := List.exists_cons_of_ne_nil hne
  have hhead : (b.put 0 (c' :: cs)).byte 0 = c' := Buffer.byte_put b hlen (by simp)
  rw [hhead]
  cases cs with
  | nil =>
    refine iff_of_false (by simp) fun hcd => ?_
    have htwo := h.type c' rfl (by rwa [hcd.1])
    simp at htwo
  | cons d' ds =>
    have hsecond : (b.put 0 (c' :: d' :: ds)).byte 1 = d' := Buffer.byte_put b hlen (by simp)
    rw [hsecond]
    simp

/-- The prefix a complete message gives is the one in the buffer. -/
theorem Message.Complete.given_eq {p : Message} (h : p.Complete) (b : Buffer)
    (hp : p.bytes.take 2 = [toByte '!', toByte 'P']) :
    givenPrefix p = some (prefixOf (b.put 0 p.bytes)) := by
  have hten := h.prefix64 hp
  have hslice : (b.put 0 p.bytes).slice 2 8 =
      Vector.ofFn fun i : Fin 8 => p.bytes.getD (2 + i.val) 0 := by
    refine congrArg Vector.ofFn (funext fun i => ?_)
    exact Buffer.byte_put b p.length_le (by omega)
  rw [givenPrefix, if_pos hp, prefixOf, hslice]

theorem length_hexLladdr (lladdr : Vector Byte 8) : (hexLladdr lladdr).length = 16 := by
  simp [hexLladdr, List.length_flatMap]

/-- The answer, as it is written over the request. -/
theorem answered_take (P : Platform) {b : Buffer} (hb : b.byte 1 = toByte 'M') :
    (answered P b).take 18 = macAnswer P.uipLladdr := by
  have hlen := length_hexLladdr P.uipLladdr
  refine List.ext_getElem (by simp [Buffer.take, macAnswer, hlen]) fun i hi hi' => ?_
  have hlt : i < 18 := by simpa [Buffer.take] using hi
  have hbuf : i < uipBufSize := Nat.lt_trans hlt (by decide)
  simp only [Buffer.take, List.getElem_map, List.getElem_range, answered]
  rw [Buffer.byte_put_eq _ _ _ hbuf, Buffer.byte_put_eq _ _ _ hbuf]
  cases i with
  | zero => rfl
  | succ i =>
    cases i with
    | zero => exact hb
    | succ i =>
      have hpos : i + 1 + 1 - 2 = i := Nat.add_sub_cancel i 2
      rw [if_pos ⟨by omega, by omega⟩, hpos, List.getD_eq_getElem?_getD,
        List.getElem?_eq_getElem (by omega)]
      rfl

/-! ## Steps -/

/-- What a step does to the prefix and the phase, and what it asks and answers. -/
structure Boots (P : Platform) (s s' : State w) (e : Event w) (items : List Item) : Prop where
  prefixSet : s'.prefixSet = (s.prefixSet || e.given?.isSome)
  prefix64 : s'.prefix64 = e.given?.getD s.prefix64
  phase : s'.phase = .running ↔ s.phase = .running ∨ e.isResume = true ∧ s.prefixSet = true
  asked : items.count prefixRequest =
    if e.isResume = true ∧ s.prefixSet = false ∧ s.phase ≠ .running then 1 else 0
  answers : items.count (.send (macAnswer P.uipLladdr)) = if e.asksMac then 1 else 0

theorem boots_slipInput (s : State w) {p : Message} (h : p.Complete) :
    Boots P s (slipInputCallback P (s.load p.bytes)).1 (.slipInput p)
      (slipInputCallback P (s.load p.bytes)).2 := by
  have hset := h.take_two_iff s.uipBuf (.inl rfl) (toByte 'P')
  have hmac := h.take_two_iff s.uipBuf (.inr rfl) (toByte 'M')
  have hne : toByte '?' ≠ toByte '!' := by decide
  have hgiven : ¬ ((s.uipBuf.put 0 p.bytes).byte 0 = toByte '!' ∧
      (s.uipBuf.put 0 p.bytes).byte 1 = toByte 'P') → (Event.slipInput p : Event w).given? = none :=
    fun hno => if_neg (mt hset.1 hno)
  have hasks : ¬ ((s.uipBuf.put 0 p.bytes).byte 0 = toByte '?' ∧
      (s.uipBuf.put 0 p.bytes).byte 1 = toByte 'M') →
        (Event.slipInput p : Event w).asksMac = false :=
    fun hno => decide_eq_false (mt hmac.1 hno)
  rcases slipInputCallback_cases P (s.load p.bytes) with ⟨hc, ht, hs⟩ | ⟨hc, ht, hs⟩ |
      ⟨hc, ht, hs⟩ | ⟨hc, ht, hs⟩ | ⟨hc, ht, hs⟩ <;> rw [hs]
  · have hsome : (Event.slipInput p : Event w).given? = _ :=
      h.given_eq s.uipBuf (hset.2 ⟨hc, ht⟩)
    have hno := hasks fun hm => hne (hm.1.symm.trans hc)
    constructor <;> simp [hsome, hno, Event.isResume, State.load, prefixRequest, gotConfiguration]
  · have hnone := hgiven fun hm => ht hm.2
    have hno := hasks fun hm => hne (hm.1.symm.trans hc)
    constructor <;> simp [hnone, hno, Event.isResume, State.load, prefixRequest, gotConfiguration]
  · have hnone := hgiven fun hm => hne (hc.symm.trans hm.1)
    have hyes : (Event.slipInput p : Event w).asksMac = true := decide_eq_true (hmac.2 ⟨hc, ht⟩)
    have hanswer : (answered P (s.load p.bytes).uipBuf).take 18 = macAnswer P.uipLladdr :=
      answered_take P ht
    have hask : macAnswer P.uipLladdr ≠ [toByte '?', toByte 'P'] :=
      fun he => hne (List.cons.inj he).1.symm
    rw [hanswer]
    constructor <;> simp [hnone, hyes, hask, Event.isResume, State.load, prefixRequest, gotRequest]
  · have hnone := hgiven fun hm => hne (hc.symm.trans hm.1)
    have hno := hasks fun hm => ht hm.2
    constructor <;> simp [hnone, hno, Event.isResume, State.load, prefixRequest, gotRequest]
  · have hnone := hgiven fun hm => hc hm.1
    have hno := hasks fun hm => ht hm.1
    constructor <;> simp [hnone, hno, Event.isResume, State.load]

/-- `UIP_IP_BUF->srcipaddr` of a packet. -/
def IpPacket.source (p : IpPacket) : IpAddr := .ofFn fun i => p.bytes.getD (8 + i.val) 0

theorem srcipaddr_load (s : State w) (p : IpPacket) :
    (s.load p.bytes).uipBuf.srcipaddr = p.source := by
  have hlen := p.length_ge
  refine congrArg Vector.ofFn (funext fun i => ?_)
  exact Buffer.byte_put s.uipBuf p.length_le (by omega)

/-- A packet from the last sender stays; any other is sent as it is. -/
theorem output_eq (s : State w) (p : IpPacket) : output (s.load p.bytes) =
    if s.lastSender = p.source then [] else [.send p.bytes] := by
  have hsend : slipSend (s.load p.bytes) = .send p.bytes :=
    congrArg Item.send (Buffer.take_put s.uipBuf p.length_le)
  rw [output, srcipaddr_load, hsend]
  rfl

theorem count_texts {o : List (BorderRouter.Output v)} (p : List Byte) :
    (o.map fun o => Item.print (str (text P o))).count (.send p) = 0 := by
  refine List.count_eq_zero.2 fun hmem => ?_
  obtain ⟨o, -, ho⟩ := List.mem_map.1 hmem
  cases ho

theorem boots_step {s s' : State w} {e : Event w} {items : List Item}
    {t : Trace (Event w) Item} (hc : Complete t s e) (h : step P v s e = .ok (s', items)) :
    Boots P s s' e items := by
  cases e with
  | slipInput p =>
    cases h
    exact boots_slipInput s hc
  | stack b len =>
    cases h
    constructor <;> simp [Event.given?, Event.isResume, Event.asksMac]
  | output p =>
    cases h
    have hlen : ∀ q : List Byte, q.length < 40 → q ≠ p.bytes :=
      fun q hq he => Nat.not_le.2 hq (he ▸ p.length_ge)
    have hask := hlen [toByte '?', toByte 'P'] (by simp)
    have hmac := hlen (macAnswer P.uipLladdr) (by simp [macAnswer, length_hexLladdr])
    rw [output_eq]
    constructor <;>
      simp [Event.given?, Event.isResume, Event.asksMac, State.load, prefixRequest] <;>
      split <;> simp [hask.symm, hmac.symm]
  | datagram d =>
    have h := Except.ok.inj h
    simp only [datagram] at h
    split at h
    · split at h
      · rename_i f _
        cases f
      · cases h
        constructor <;>
          simp [Event.given?, Event.isResume, Event.asksMac, count_texts, prefixRequest]
    · cases h
      constructor <;> simp [Event.given?, Event.isResume, Event.asksMac]
  | resume addrs =>
    have h := Except.ok.inj h
    simp only [resume] at h
    split at h
    · rename_i hphase
      cases h
      constructor <;> simp [Event.given?, Event.isResume, Event.asksMac, hphase]
    · rename_i hphase
      split at h
      · rename_i hset
        cases h
        constructor <;> simp [Event.given?, Event.isResume, Event.asksMac, hphase, hset,
          prefixRequest, printLocalAddresses, createBroadcastConnServer]
      · rename_i hset
        have hset : s.prefixSet = false := Bool.eq_false_of_not_eq_true hset
        have hask : (s.uipBuf.put 0 [toByte '?', toByte 'P']).take 2 =
            [toByte '?', toByte 'P'] := Buffer.take_put s.uipBuf (by decide)
        have hmac : [toByte '?', toByte 'P'] ≠ macAnswer P.uipLladdr := by
          intro he
          exact absurd (List.cons.inj he).1 (by decide)
        cases h
        constructor <;> simp [Event.given?, Event.isResume, Event.asksMac, hphase, hset,
          prefixRequest, slipSend, hask, hmac]

/-- The border router handles datagrams when it runs. -/
theorem router_step {s s' : State w} {e : Event w} {items : List Item}
    (h : step P v s e = .ok (s', items)) :
    (∃ d out, e.datagram? = some d ∧ s.phase = .running ∧
      BorderRouter.step v s.router d = .ok (s'.router, out)) ∨
    (e.datagram? = none ∨ s.phase ≠ .running) ∧ s'.router = s.router := by
  cases e with
  | slipInput p =>
    refine .inr ⟨.inl rfl, ?_⟩
    have h := Except.ok.inj h
    rcases slipInputCallback_cases P (s.load p.bytes) with ⟨-, -, hs⟩ | ⟨-, -, hs⟩ |
        ⟨-, -, hs⟩ | ⟨-, -, hs⟩ | ⟨-, -, hs⟩ <;> rw [hs] at h <;> cases h <;> rfl
  | stack b len =>
    cases h
    exact .inr ⟨.inl rfl, rfl⟩
  | output p =>
    cases h
    exact .inr ⟨.inl rfl, rfl⟩
  | resume addrs =>
    refine .inr ⟨.inl rfl, ?_⟩
    have h := Except.ok.inj h
    simp only [resume] at h
    split at h
    · cases h
      rfl
    · split at h <;> cases h <;> rfl
  | datagram d =>
    have h := Except.ok.inj h
    simp only [datagram] at h
    split at h
    · rename_i hphase
      split at h
      · rename_i f _
        cases f
      · rename_i router out hs
        cases h
        exact .inl ⟨d, out, rfl, hphase, hs⟩
    · rename_i hphase
      cases h
      exact .inr ⟨.inr hphase, rfl⟩

/-! ## Every run -/

/-- The events before the prefix is given. -/
def asking (es : List (Event w)) : List (Event w) := es.takeWhile fun e => e.given?.isNone

/-- The events from the start of the servers on. -/
def booted (es : List (Event w)) : List (Event w) :=
  (es.dropWhile fun e => e.given?.isNone).dropWhile fun e => !e.isResume

theorem dropWhile_snoc {α : Type} (p : α → Bool) (xs : List α) (x : α) :
    (xs ++ [x]).dropWhile p =
      xs.dropWhile p ++ if xs.dropWhile p = [] ∧ p x = true then [] else [x] := by
  rw [List.dropWhile_append]
  by_cases hxs : xs.dropWhile p = []
  · by_cases hx : p x = true <;> simp [hxs, hx]
  · simp [hxs]

/-- Whether the prefix has been given. -/
def given (es : List (Event w)) : Bool := es.any fun e => e.given?.isSome

theorem given_eq_false_iff {es : List (Event w)} :
    given es = false ↔ ∀ e ∈ es, e.given?.isNone = true := by
  simp [given]

theorem asking_snoc (es : List (Event w)) (e : Event w) : asking (es ++ [e]) =
    asking es ++ if given es = false ∧ e.given?.isNone then [e] else [] := by
  induction es with
  | nil => by_cases he : e.given?.isNone <;> simp [asking, given, he]
  | cons x es ih =>
    by_cases hx : x.given?.isNone
    · have hgiven : given (x :: es) = given es := by
        rw [given, List.any_cons, ← Option.not_isNone, hx]
        rfl
      have hcons : ∀ es, asking (x :: es) = x :: asking es :=
        fun es => List.takeWhile_cons_of_pos hx
      rw [List.cons_append, hcons, hcons, ih, hgiven, List.cons_append]
    · have hgiven : given (x :: es) = true := by
        rw [given, List.any_cons, ← Option.not_isNone, Bool.eq_false_of_not_eq_true hx]
        rfl
      have hcons : ∀ es, asking (x :: es) = [] := fun es => List.takeWhile_cons_of_neg hx
      rw [List.cons_append, hcons, hcons, hgiven]
      rfl

/-- A message is no resume. -/
theorem isResume_of_given {e : Event w} (h : ¬ e.given?.isNone = true) : e.isResume = false := by
  cases e with
  | resume addrs => exact absurd rfl h
  | _ => rfl

theorem given_of_booted {es : List (Event w)} (h : booted es ≠ []) : given es = true := by
  by_contra hg
  have hnil : (es.dropWhile fun e => e.given?.isNone) = [] :=
    List.dropWhile_eq_nil_iff.2 (given_eq_false_iff.1 (Bool.eq_false_of_not_eq_true hg))
  exact h (by rw [booted, hnil]; rfl)

theorem booted_snoc (es : List (Event w)) (e : Event w) : booted (es ++ [e]) =
    booted es ++ if booted es ≠ [] ∨ given es = true ∧ e.isResume = true then [e] else [] := by
  by_cases hg : given es = true
  · have hne : (es.dropWhile fun e => e.given?.isNone) ≠ [] := by
      intro hnil
      rw [given_eq_false_iff.2 (List.dropWhile_eq_nil_iff.1 hnil)] at hg
      cases hg
    rw [booted, dropWhile_snoc, if_neg fun h => hne h.1, dropWhile_snoc, ← booted]
    cases e.isResume <;> by_cases hb : booted es = [] <;> simp [hb, hg]
  · have hnil : (es.dropWhile fun e => e.given?.isNone) = [] :=
      List.dropWhile_eq_nil_iff.2 (given_eq_false_iff.1 (Bool.eq_false_of_not_eq_true hg))
    have hb : booted es = [] := by
      by_contra hb
      exact hg (given_of_booted hb)
    rw [hb, booted, dropWhile_snoc, hnil]
    by_cases he : e.given?.isNone = true
    · simp [he, hg]
    · simp [he, hg, isResume_of_given he]

theorem resumes_asking_snoc (es : List (Event w)) (e : Event w) :
    (asking (es ++ [e])).countP Event.isResume = (asking es).countP Event.isResume +
      if e.isResume = true ∧ given es = false then 1 else 0 := by
  rw [asking_snoc, List.countP_append]
  by_cases hr : e.isResume = true
  · have hnone : e.given?.isNone = true := by
      by_contra hno
      rw [isResume_of_given hno] at hr
      cases hr
    cases given es <;> simp [hr, hnone]
  · split <;> simp [hr]

theorem datagrams_booted_snoc (es : List (Event w)) (e : Event w) :
    (booted (es ++ [e])).filterMap Event.datagram? = (booted es).filterMap Event.datagram? ++
      if booted es ≠ [] then e.datagram?.toList else [] := by
  rw [booted_snoc, List.filterMap_append]
  by_cases hb : booted es = []
  · by_cases hr : e.isResume = true
    · have hnone : e.datagram? = none := by
        cases e with
        | resume addrs => rfl
        | _ => cases hr
      split <;> simp [hb, hnone]
    · simp [hb, hr]
  · cases hd : e.datagram? <;> simp [hb, hd]

/-- In every run the prefix is asked for once at each pause until it is given, and never after; the
prefix in use is the one given last; the servers start at the first pause after that, and what comes
for them before is lost. -/
theorem prefix_protocol {b : Buffer} {n : Nat} {lastSender prefix₀ : IpAddr}
    {router : BorderRouter.State w} {t : Trace (Event w) Item} {s : State w}
    (hr : (machine P v w).RunIf Complete (start b n lastSender prefix₀ router) t s) :
    s.prefixSet = given (t.map Prod.fst) ∧
    s.prefix64 = ((t.map Prod.fst).filterMap Event.given?).getLastD prefix₀ ∧
    (s.phase = .running ↔ booted (t.map Prod.fst) ≠ []) ∧
    t.outputs.count prefixRequest = (asking (t.map Prod.fst)).countP Event.isResume ∧
    ∃ τ, (BorderRouter.machine v w).Run router τ s.router ∧
      τ.map Prod.fst = (booted (t.map Prod.fst)).filterMap Event.datagram? := by
  refine hr.invariant (P := fun t s => s.prefixSet = given (t.map Prod.fst) ∧
    s.prefix64 = ((t.map Prod.fst).filterMap Event.given?).getLastD prefix₀ ∧
    (s.phase = .running ↔ booted (t.map Prod.fst) ≠ []) ∧
    t.outputs.count prefixRequest = (asking (t.map Prod.fst)).countP Event.isResume ∧
    ∃ τ, (BorderRouter.machine v w).Run router τ s.router ∧
      τ.map Prod.fst = (booted (t.map Prod.fst)).filterMap Event.datagram?)
    ⟨rfl, rfl, by simp [start, booted], rfl, [], .start, rfl⟩ ?_
  rintro t s e s' items ⟨hset, hprefix, hphase, hasked, τ, hτ, hevents⟩ hc hs
  have hb := boots_step hc hs
  have hsnoc : (t ++ [(e, items)]).map Prod.fst = t.map Prod.fst ++ [e] := by simp
  rw [hsnoc, Trace.outputs_snoc, List.count_append, resumes_asking_snoc, datagrams_booted_snoc,
    booted_snoc]
  refine ⟨?_, ?_, ?_, ?_, ?_⟩
  · rw [hb.prefixSet, hset]
    simp [given]
  · rw [hb.prefix64, hprefix, List.filterMap_append]
    cases he : e.given? <;> simp [he]
  · rw [hb.phase, hphase, hset, and_comm]
    split
    · rename_i h
      simp [h]
    · rename_i h
      rw [List.append_nil]
      exact ⟨fun h' => absurd h' h, Or.inl⟩
  · rw [hb.asked, hasked, hset]
    congr 1
    refine if_congr (and_congr_right fun _ => and_iff_left_of_imp fun hg hrun => ?_) rfl rfl
    rw [given_of_booted (hphase.1 hrun)] at hg
    cases hg
  · rcases router_step hs with ⟨d, out, hd, hrun, hout⟩ | ⟨hnone, hrouter⟩
    · refine ⟨τ ++ [(d, out)], hτ.next trivial hout, ?_⟩
      rw [if_pos (hphase.1 hrun), List.map_append, hevents, hd]
      rfl
    · refine ⟨τ, by rwa [hrouter], ?_⟩
      rw [hevents]
      rcases hnone with hnone | hrun
      · simp [hnone]
      · rw [if_neg (mt hphase.2 hrun), List.append_nil]

theorem prefixMessage_complete : prefixMessage.Complete :=
  ⟨fun _ _ _ => by decide, fun _ => by decide⟩

/-- The request for the prefix, its answer, and the start. -/
theorem prefix_protocol_boot : ∃ t s, (machine board 32 32).Run (boot ⟨0, 0, 0, 0, 0⟩) t s ∧
    s.prefix64 = #v[0xfd, 0, 0, 0, 0, 0, 0, 0, 0, 0, 0, 0, 0, 0, 0, 0] ∧
    t.outputs.count prefixRequest = 1 := by
  obtain ⟨t, s, hr, -, hevents, -⟩ := boot_run (C := Complete) (fun _ _ => trivial)
    (fun _ _ => prefixMessage_complete) ⟨0, 0, 0, 0, 0⟩
  obtain ⟨-, hprefix, -, hasked, -⟩ := prefix_protocol hr
  rw [hevents] at hprefix hasked
  exact ⟨t, s, hr.run, hprefix, hasked⟩

/-! ## The address -/

/-- The bytes that pairs of digits stand for. -/
def hexBytes : List Byte → Option (List Byte)
  | [] => some []
  | [_] => none
  | hi :: lo :: rest =>
    match Digits.digit? 16 (Char.ofNat hi.toNat), Digits.digit? 16 (Char.ofNat lo.toNat),
      hexBytes rest with
    | some hi, some lo, some bs => some (BitVec.ofNat 8 (hi * 16 + lo) :: bs)
    | _, _, _ => none

/-- The address, from an answer. -/
def readMac (p : List Byte) : Option (List Byte) :=
  if p.take 2 = [toByte '!', toByte 'M'] then hexBytes (p.drop 2) else none

theorem hexBytes_flatMap (bs : List Byte) :
    hexBytes (bs.flatMap fun b : Byte => [hexchar (b >>> 4), hexchar (b &&& 15)]) = some bs := by
  have hdigits : ∀ n < 16, Digits.digit? 16 (Char.ofNat
      (toByte ("0123456789abcdef".toList.getD n '0')).toNat) = some n := by decide
  have hdigit : ∀ b : Byte, b.toNat < 16 →
      Digits.digit? 16 (Char.ofNat (hexchar b).toNat) = some b.toNat := fun b => hdigits b.toNat
  induction bs with
  | nil => rfl
  | cons b bs ih =>
    have hhi : (b >>> 4).toNat = b.toNat / 16 := by
      rw [BitVec.toNat_ushiftRight, Nat.shiftRight_eq_div_pow]
    have hlo : (b &&& 15).toNat = b.toNat % 16 := by
      rw [BitVec.toNat_and]
      exact Nat.and_two_pow_sub_one_eq_mod b.toNat 4
    have hlt := b.isLt
    have hsum : BitVec.ofNat 8 (b.toNat / 16 * 16 + b.toNat % 16) = b := by
      rw [Nat.div_add_mod', BitVec.ofNat_toNat, BitVec.setWidth_eq]
    rw [List.flatMap_cons, List.cons_append, List.singleton_append, hexBytes,
      hdigit _ (by omega), hdigit _ (by omega), ih]
    simp only [hhi, hlo, hsum]

/-- Every request for the address is answered once, and the answer is read as this address. -/
theorem macs_answered {s₀ s : State w} {t : Trace (Event w) Item}
    (hr : (machine P v w).RunIf Complete s₀ t s) :
    t.outputs.count (.send (macAnswer P.uipLladdr)) = (t.map Prod.fst).countP Event.asksMac ∧
      readMac (macAnswer P.uipLladdr) = some P.uipLladdr.toList := by
  refine ⟨?_, hexBytes_flatMap _⟩
  refine hr.invariant (P := fun t _ => t.outputs.count (.send (macAnswer P.uipLladdr)) =
    (t.map Prod.fst).countP Event.asksMac) rfl ?_
  intro t s e s' items ih hc hs
  rw [Trace.outputs_snoc, List.count_append, ih, (boots_step hc hs).answers, List.map_append,
    List.countP_append]
  simp [List.countP_cons]

/-- One request, and one answer. -/
theorem macs_answered_boot : ∃ t s, (machine board 32 32).Run (boot ⟨0, 0, 0, 0, 0⟩) t s ∧
    t.outputs.count (.send (macAnswer board.uipLladdr)) = 1 := by
  have hcomplete : Message.Complete ⟨[toByte '?', toByte 'M'], List.cons_ne_nil _ _, by decide⟩ :=
    ⟨fun _ _ _ => by decide, fun h => absurd (List.cons.inj h).1 (by decide)⟩
  have hr : ∃ items s, (machine board 32 32).RunIf Complete (boot ⟨0, 0, 0, 0, 0⟩)
      [(.slipInput ⟨[toByte '?', toByte 'M'], List.cons_ne_nil _ _, by decide⟩, items)] s :=
    ⟨_, _, .next (t := []) .start hcomplete rfl⟩
  obtain ⟨items, s, hr⟩ := hr
  exact ⟨_, s, hr.run, (macs_answered hr).1⟩

/-! ## Packets -/

def Event.input? : Event w → Option Message
  | .slipInput p => some p
  | _ => none

/-- What came over the serial line last. -/
def lastInput (es : List (Event w)) : Option (List Byte) :=
  (es.filterMap Event.input?).getLast?.map Message.bytes

/-- A packet is no message of the host. -/
theorem IpPacket.byte_zero (q : IpPacket) (b : Buffer) :
    (b.put 0 q.bytes).byte 0 ≠ toByte '!' ∧ (b.put 0 q.bytes).byte 0 ≠ toByte '?' := by
  have hpos : 0 < q.bytes.length := Nat.lt_of_lt_of_le (by decide) q.length_ge
  have hhead : (b.put 0 q.bytes).byte 0 = q.bytes.head (List.ne_nil_of_length_pos hpos) := by
    rw [Buffer.byte_put b q.length_le hpos, List.getD_eq_getElem?_getD,
      List.getElem?_eq_getElem hpos, List.head_eq_getElem]
    rfl
  have hversion := q.version
  rw [← hhead] at hversion
  constructor <;> intro he <;> rw [he] at hversion <;> exact absurd hversion (by decide)

theorem lastSender_step {s s' : State w} {e : Event w} {items : List Item}
    (h : step P v s e = .ok (s', items)) : match e.input? with
    | none => s'.lastSender = s.lastSender
    | some p => ∀ q : IpPacket, p.bytes = q.bytes → s'.lastSender = q.source := by
  cases e with
  | slipInput p =>
    intro q hq
    have h := Except.ok.inj h
    obtain ⟨hbang, hask⟩ := q.byte_zero s.uipBuf
    rw [hq] at h
    rcases slipInputCallback_cases P (s.load q.bytes) with ⟨hc, -⟩ | ⟨hc, -⟩ | ⟨hc, -⟩ |
        ⟨hc, -⟩ | ⟨-, -, hs⟩
    · exact absurd hc hbang
    · exact absurd hc hbang
    · exact absurd hc hask
    · exact absurd hc hask
    · rw [hs] at h
      cases h
      exact srcipaddr_load s q
  | stack b len =>
    cases h
    rfl
  | output q =>
    cases h
    rfl
  | resume addrs =>
    have h := Except.ok.inj h
    simp only [resume] at h
    split at h
    · cases h
      rfl
    · split at h <;> cases h <;> rfl
  | datagram d =>
    have h := Except.ok.inj h
    simp only [datagram] at h
    split at h
    · split at h
      · rename_i f _
        cases f
      · cases h
        rfl
    · cases h
      rfl

/-- In every run, when a packet came last over the serial line, then of the packets the IP stack has
for the host it keeps those from the same sender, this one among them, and sends all others as
they are. -/
theorem not_bounced {s₀ s : State w} {t t₁ t₂ : Trace (Event w) Item} {p q : IpPacket}
    {items : List Item} (hr : (machine P v w).Run s₀ t s)
    (ht : t = t₁ ++ (.output q, items) :: t₂)
    (hlast : lastInput (t₁.map Prod.fst) = some p.bytes) :
    items = if p.source = q.source then [] else [.send q.bytes] := by
  have hsender : ∀ {t s}, (machine P v w).Run s₀ t s →
      lastInput (t.map Prod.fst) = some p.bytes → s.lastSender = p.source := by
    intro t s hr
    refine hr.invariant (P := fun t s => lastInput (t.map Prod.fst) = some p.bytes →
      s.lastSender = p.source) (fun h => by cases h) ?_
    intro t s e s' items ih _ hs hlast
    have hstep := lastSender_step hs
    rw [List.map_append, lastInput, List.filterMap_append] at hlast
    cases he : e.input? with
    | none =>
      rw [he] at hstep
      rw [hstep]
      refine ih ?_
      simpa [lastInput, he] using hlast
    | some m =>
      rw [he] at hstep
      refine hstep p ?_
      simpa [he] using hlast
  subst ht
  obtain ⟨s₁, s₂, hr₁, -, hs⟩ := hr.split
  have hitems : items = output (s₁.load q.bytes) := (congrArg Prod.snd (Except.ok.inj hs)).symm
  rw [hitems, output_eq, hsender hr₁ hlast]

/-- A packet in which all addresses have the bytes `b`. -/
def packetFrom (b : Byte) : IpPacket where
  bytes := 0x60 :: List.replicate 39 b
  length_ge := Nat.le_refl 40
  length_le := Nat.le_of_ble_eq_true rfl
  version := congrArg (fun b : Byte => b.toNat / 16) (List.head_cons ..)

def IpPacket.message (p : IpPacket) : Message where
  bytes := p.bytes
  ne_nil := List.ne_nil_of_length_pos (Nat.lt_of_lt_of_le (Nat.zero_lt_succ 39) p.length_ge)
  length_le := p.length_le

/-- One packet stays, and another is sent. -/
theorem not_bounced_boot : ∃ log items items' s,
    (machine board 32 32).Run (boot ⟨0, 0, 0, 0, 0⟩)
      [(.slipInput (packetFrom 1).message, log), (.output (packetFrom 1), items),
        (.output (packetFrom 2), items')] s ∧
    items = [] ∧ items' = [.send (packetFrom 2).bytes] := by
  have hrun : ∃ log items items' s, (machine board 32 32).Run (boot ⟨0, 0, 0, 0, 0⟩)
      [(.slipInput (packetFrom 1).message, log), (.output (packetFrom 1), items),
        (.output (packetFrom 2), items')] s :=
    ⟨_, _, _, _, .next (t := [_, _]) (.next (t := [_]) (.next (t := []) .start trivial rfl)
      trivial rfl) trivial rfl⟩
  obtain ⟨log, items, items', s, hr⟩ := hrun
  have hsame := not_bounced (p := packetFrom 1) hr (show _ = [_] ++ (_, _) :: _ from rfl) rfl
  have hother := not_bounced (p := packetFrom 1) hr (show _ = [_, _] ++ (_, _) :: _ from rfl) rfl
  have hne : (packetFrom 1).source ≠ (packetFrom 2).source := by decide
  exact ⟨log, items, items', s, hr, hsame.trans (if_pos rfl), hother.trans (if_neg hne)⟩

end SerialLine
end Swarna
