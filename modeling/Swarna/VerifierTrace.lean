import Swarna.RequestFile
import Swarna.VerifierRounds

/-!
# Swarna.VerifierTrace

The verifier on a request file and a network as they should be.

* `getIdFromAddr_eq`, `addressOf_eq`: canonical addresses are recognised, and found by id.
* `trace_exact`: if every request is answered once and nothing else arrives, the verifier sends the
  start, for each line of node ids the requests in order and a stop, the end, and exits.
-/

namespace Swarna
namespace Verifier

open CString

/-! ## The map -/

/-- The address without the newline of its line. -/
def Entry.text (e : Entry) : List Char := e.addr.takeWhile (· ≠ '\n')

/-- Addresses are written as `inet_ntop` writes them, and differ where they are compared. -/
structure NodeMap.Canonical (L : Libc) (m : NodeMap) : Prop where
  canonical : ∀ e ∈ m.entries, ∃ x, L.inetPton e.text = some x ∧ L.inetNtop x = e.text
  long : ∀ e ∈ m.entries, 10 ≤ e.text.length
  differ : (m.entries.map fun e => e.text.take 10).Nodup

theorem find_eq {β : Type} {g : Entry → β} {p : Entry → Bool} {l : List Entry} {e : Entry}
    (hn : (l.map g).Nodup) (he : e ∈ l) (hp : ∀ d ∈ l, p d = true ↔ g d = g e) :
    l.find? p = some e := by
  induction l with
  | nil => cases he
  | cons d l ih =>
    rw [List.map_cons, List.nodup_cons] at hn
    rcases List.mem_cons.1 he with rfl | he
    · rw [List.find?_cons_of_pos ((hp e (List.mem_cons_self ..)).2 rfl)]
    · have hd : ¬ p d = true := by
        rw [hp d (List.mem_cons_self ..)]
        intro h
        exact hn.1 (h ▸ List.mem_map_of_mem he)
      rw [List.find?_cons_of_neg hd]
      exact ih hn.2 he fun d' hd' => hp d' (List.mem_cons_of_mem _ hd')

variable {L : Libc} {m : NodeMap}

theorem getIdFromAddr_eq (hcan : m.Canonical L) {e : Entry} (he : e ∈ m.entries) :
    getIdFromAddr m (L.inetNtop (destination L e.addr)) = e.id := by
  obtain ⟨x, hx, htext⟩ := hcan.canonical e he
  have hdst : destination L e.addr = x := by
    have : L.inetPton (e.addr.takeWhile (· ≠ '\n')) = some x := hx
    rw [destination, this]
    rfl
  have htake : ∀ d ∈ m.entries, d.addr.take 10 = d.text.take 10 := by
    intro d hd
    obtain ⟨rest, hrest⟩ := List.takeWhile_prefix (l := d.addr) (· ≠ '\n')
    have hlen : 10 ≤ (d.addr.takeWhile (· ≠ '\n')).length := hcan.long d hd
    rw [Entry.text, ← List.take_append_of_le_length hlen, hrest]
  have hfind := find_eq (p := fun d => strncmpEq 10 e.text d.addr) hcan.differ he fun d hd => by
    rw [strncmpEq, htake d hd, beq_iff_eq, eq_comm]
  rw [getIdFromAddr, hdst, htext, hfind]

/-- The address of the map line of an id. -/
def addressOf (L : Libc) (m : NodeMap) (id : Nat) : Addr :=
  match m.entries.find? fun e => e.id.toNat = id with
  | some e => destination L e.addr
  | none => 0

theorem addressOf_eq (hm : m.Good) {e : Entry} (he : e ∈ m.entries) :
    addressOf L m e.id.toNat = destination L (getAddrFromId L m e.id) := by
  have hfind := find_eq (p := fun d => decide (d.id.toNat = e.id.toNat)) hm.nodup he fun d _ => by
    rw [decide_eq_true_eq, BitVec.toNat_inj]
  rw [addressOf, hfind, getAddrFromId_eq L hm he]

/-! ## What is sent and received -/

def sentIn (l : List Log) : List Request :=
  l.filterMap fun
    | .sent q => some q
    | .received _ => none

def receivedIn (l : List Log) : List Addr :=
  l.filterMap fun
    | .sent _ => none
    | .received src => some src

/-- The addresses of the nodes asked. -/
def requestedIn (l : List Log) : List Addr :=
  l.filterMap fun
    | .sent q => if q.pktType = secondRound then some q.dst else none
    | .received _ => none

@[simp] theorem sentIn_append (l l' : List Log) : sentIn (l ++ l') = sentIn l ++ sentIn l' :=
  List.filterMap_append

@[simp] theorem receivedIn_append (l l' : List Log) :
    receivedIn (l ++ l') = receivedIn l ++ receivedIn l' := List.filterMap_append

@[simp] theorem requestedIn_append (l l' : List Log) :
    requestedIn (l ++ l') = requestedIn l ++ requestedIn l' := List.filterMap_append

theorem sentIn_map (out : List Request) : sentIn (out.map .sent) = out := by
  induction out with
  | nil => rfl
  | cons q out ih => exact congrArg (q :: ·) ih

theorem sentIn_log (out₀ : List Request) (t : Trace Event Request) :
    sentIn (log out₀ t) = out₀ ++ t.outputs := by
  rw [log, sentIn_append, sentIn_map]
  congr 1
  induction t with
  | nil => rfl
  | cons x t ih =>
    have hevent : sentIn x.1.log = [] := by cases x.1 <;> rfl
    rw [List.flatMap_cons, sentIn_append, sentIn_append, sentIn_map, hevent, ih]
    rfl

/-- Answered rounds: every request has its answer. -/
theorem requestedIn_asked (rd : Round) (ids : List (BitVec 8)) :
    requestedIn (asked L m rd ids) = receivedIn (asked L m rd ids) := by
  induction ids with
  | nil => rfl
  | cons id ids ih =>
    rw [asked, List.flatMap_cons, ← asked, requestedIn_append, receivedIn_append, ih]
    rfl

theorem requestedIn_rounds (rds b : List Round) :
    requestedIn (startLog L rds ++ roundsLog L m b) =
      receivedIn (startLog L rds ++ roundsLog L m b) := by
  have hstart : requestedIn (startLog L rds) = receivedIn (startLog L rds) := by
    rw [startLog]
    cases rds.head? <;> rfl
  rw [requestedIn_append, receivedIn_append, hstart]
  congr 1
  induction b with
  | nil => rfl
  | cons rd b ih =>
    rw [roundsLog, List.flatMap_cons, ← roundsLog]
    simp only [requestedIn_append, receivedIn_append, ih, requestedIn_asked]
    rfl

/-- The datagram answers a request that was not answered before. -/
def Answers (out₀ : List Request) (t : Trace Event Request) (_ : Process) : Event → Prop
  | .datagram src =>
    (receivedIn (log out₀ t) ++ [src]).Subperm (requestedIn (log out₀ t))
  | .recvFailed => False

/-- While a node is asked, its answer is the only one to come. -/
theorem requestedIn_asking (rds b : List Round) (rd : Round) (k : Nat) (id : BitVec 8) :
    requestedIn (startLog L rds ++ roundsLog L m b ++ asked L m rd (rd.ids.take k) ++
        [.sent (request L m rd id)]) =
      receivedIn (startLog L rds ++ roundsLog L m b ++ asked L m rd (rd.ids.take k) ++
        [.sent (request L m rd id)]) ++ [destination L (getAddrFromId L m id)] := by
  have hlast : requestedIn [.sent (request L m rd id)] =
      [destination L (getAddrFromId L m id)] := rfl
  have hnone : receivedIn [.sent (request L m rd id)] = [] := rfl
  rw [requestedIn_append, requestedIn_append, requestedIn_rounds, requestedIn_asked,
    ← receivedIn_append, hlast, receivedIn_append _ [.sent (request L m rd id)], hnone,
    List.append_nil]

theorem requestedIn_finished (rds : List Round) :
    requestedIn (startLog L rds ++ roundsLog L m rds ++ doneLog L rds) =
      receivedIn (startLog L rds ++ roundsLog L m rds ++ doneLog L rds) := by
  have hdone : requestedIn (doneLog L rds) = receivedIn (doneLog L rds) := by
    rw [doneLog]
    cases rds.getLast? <;> rfl
  rw [requestedIn_append, requestedIn_rounds, hdone, ← receivedIn_append]

theorem subperm_snoc {l : List Addr} {x y : Addr} (h : (l ++ [x]).Subperm (l ++ [y])) : x = y := by
  have := (List.subperm_append_left l).1 h
  simpa using this.subset (List.mem_singleton_self x)

/-- The answer that may come is the one the verifier waits for. -/
theorem awaited_of_answers {file : List (List Char)} {rds : List Round} {out₀ : List Request}
    {t : Trace Event Request} {p : Process} {e : Event} (hcan : m.Canonical L)
    (hm : m.Good) (hv : ∀ rd ∈ rds, rd.Valid m) (h : Progress L m file rds (log out₀ t) p)
    (hc : Answers out₀ t p e) : Awaited L p e := by
  cases h with
  | finished _ | failed _ _ _ => trivial
  | @asking b rest rd k s hrds hask hl =>
    cases e with
    | recvFailed => trivial
    | datagram src =>
      simp only [Answers] at hc
      rw [hl, requestedIn_asking] at hc
      have hsrc := subperm_snoc hc
      have hvalid := hv rd (hrds ▸ List.mem_append_right _ (List.mem_cons_self ..))
      obtain ⟨d, hd, hid⟩ := hvalid.mem s.sentId (List.mem_of_getElem? hask.sent)
      rw [← hid, getAddrFromId_eq L hm hd] at hsrc
      refine And.intro ⟨d, hask.map ▸ hd, hid, hsrc⟩ (.inr ?_)
      rw [hask.map, hsrc, getIdFromAddr_eq hcan hd, hid]

theorem exited_eq_zero {p : Process} {src : Addr} {code : Nat} {out : List Request}
    (h : step L p (.datagram src) = .ok (.exited code, out)) : code = 0 := by
  cases p with
  | exited c => cases h
  | running s =>
    simp only [step, receive] at h
    split at h
    · split at h <;> cases h
      rfl
    · split at h
      · split at h <;> cases h
      · cases h

/-! ## The datagrams sent -/

/-- The whole log of a file. -/
def wholeLog (L : Libc) (m : NodeMap) (rds : List Round) : List Log :=
  startLog L rds ++ roundsLog L m rds ++ doneLog L rds

/-- What is sent in the middle of a round is a part of what is sent in all. -/
theorem sentIn_prefix (b rest : List Round) {rd : Round} {k : Nat} {id : BitVec 8}
    (hid : rd.ids[k]? = some id) :
    sentIn (startLog L (b ++ rd :: rest) ++ roundsLog L m b ++ asked L m rd (rd.ids.take k) ++
      [.sent (request L m rd id)]) <+: sentIn (wholeLog L m (b ++ rd :: rest)) := by
  have hids : asked L m rd rd.ids = asked L m rd (rd.ids.take k) ++
      [.sent (request L m rd id), .received (request L m rd id).dst] ++
        asked L m rd (rd.ids.drop (k + 1)) := by
    rw [← asked_snoc hid, asked, asked, asked, ← List.flatMap_append, List.take_append_drop]
  have hrounds : roundsLog L m (b ++ rd :: rest) = roundsLog L m b ++
      (asked L m rd rd.ids ++ [.sent (stop L rd)] ++ roundsLog L m rest) := by
    simp [roundsLog]
  rw [wholeLog, hrounds, hids]
  simp only [sentIn_append, List.append_assoc, List.prefix_append_right_inj]
  exact ⟨_, rfl⟩

/-- What a file asks for: the start, for each line its requests and a stop, the end. -/
def expected (L : Libc) (m : NodeMap) (lines : List (Nat × List Nat)) : List Request :=
  (lines.head?.toList.map fun x =>
      ⟨secondTimeStart, BitVec.ofNat 8 x.1, destination L servAddr⟩) ++
    (lines.flatMap fun x =>
      (x.2.map fun id => ⟨secondRound, BitVec.ofNat 8 x.1, addressOf L m id⟩) ++
        [⟨secondTimeStop, BitVec.ofNat 8 x.1, destination L servAddr⟩]) ++
    lines.getLast?.toList.map fun x =>
      ⟨secondTimeDone, BitVec.ofNat 8 x.1, destination L servAddr⟩

theorem sentIn_whole (hm : m.Good) {lines : List (Nat × List Nat)}
    (hmap : ∀ x ∈ lines, ∀ id ∈ x.2, ∃ e ∈ m.entries, e.id.toNat = id) :
    sentIn (wholeLog L m (lines.map toRound)) = expected L m lines := by
  have hstart : sentIn (startLog L (lines.map toRound)) = lines.head?.toList.map fun x =>
      ⟨secondTimeStart, BitVec.ofNat 8 x.1, destination L servAddr⟩ := by
    rw [startLog, List.head?_map]
    cases lines.head? with
    | none => rfl
    | some x => simp [sentIn, start, secondUdpSend, toRound]
  have hdone : sentIn (doneLog L (lines.map toRound)) = lines.getLast?.toList.map fun x =>
      ⟨secondTimeDone, BitVec.ofNat 8 x.1, destination L servAddr⟩ := by
    rw [doneLog, List.getLast?_map]
    cases lines.getLast? with
    | none => rfl
    | some x => simp [sentIn, done, secondUdpSend, toRound]
  have hasked : ∀ (r : Nat) (all ids : List Nat), (∀ id ∈ ids, ∃ e ∈ m.entries, e.id.toNat = id) →
      sentIn (asked L m (toRound (r, all)) (ids.map (BitVec.ofNat 8))) =
        ids.map fun id => ⟨secondRound, BitVec.ofNat 8 r, addressOf L m id⟩ := by
    intro r all ids
    induction ids with
    | nil => exact fun _ => rfl
    | cons id ids ih =>
      intro hids
      obtain ⟨e, he, rfl⟩ := hids id (List.mem_cons_self ..)
      have hid : BitVec.ofNat 8 e.id.toNat = e.id := by simp
      have hreq : request L m (toRound (r, all)) (BitVec.ofNat 8 e.id.toNat) =
          ⟨secondRound, BitVec.ofNat 8 r, addressOf L m e.id.toNat⟩ := by
        rw [hid, addressOf_eq hm he]
        simp [request, secondUdpSend, toRound]
      rw [List.map_cons, List.map_cons, ← ih fun id hid => hids id (List.mem_cons_of_mem _ hid),
        ← hreq]
      rfl
  rw [wholeLog, sentIn_append, sentIn_append, hstart, hdone, expected]
  congr 2
  clear hstart hdone
  induction lines with
  | nil => rfl
  | cons x lines ih =>
    have hx := hasked x.1 x.2 x.2 (hmap x (List.mem_cons_self ..))
    have hstop : sentIn [.sent (stop L (toRound x))] =
        [⟨secondTimeStop, BitVec.ofNat 8 x.1, destination L servAddr⟩] := by
      simp [sentIn, stop, secondUdpSend, toRound]
    rw [List.map_cons, roundsLog, List.flatMap_cons, ← roundsLog, sentIn_append, sentIn_append,
      hstop, ih fun x' hx' => hmap x' (List.mem_cons_of_mem _ hx'), List.flatMap_cons]
    exact congrArg (· ++ _ ++ _) hx

/-! ## The run -/

theorem begin_exited {text : List Char} {code : Nat} {out : List Request}
    (h : begin L m (some text) = .ok (.exited code, out)) : code = 0 := by
  rw [begin_text] at h
  split at h <;> cases h
  rfl

theorem run_exited {out₀ : List Request} {p₀ p : Process} {t : Trace Event Request}
    (h₀ : ∀ code, p₀ = .exited code → code = 0)
    (hr : (machine L).RunIf (Answers out₀) p₀ t p) (code : Nat) (hp : p = .exited code) :
    code = 0 := by
  cases hr with
  | start => exact h₀ code hp
  | @next t p _ e out _ hc hs =>
    cases e with
    | recvFailed => exact hc.elim
    | datagram src => exact exited_eq_zero (hp ▸ hs)

/-- A run of answers is one in which every datagram is awaited. -/
theorem run_awaited (hm : m.Good) (hcan : m.Canonical L) {text : List Char}
    (hv : ∀ rd ∈ rounds L (fgetsAll lineSize text) 0, rd.Valid m) {p₀ p : Process}
    {out₀ : List Request} {t : Trace Event Request} (h₀ : begin L m (some text) = .ok (p₀, out₀))
    (hr : (machine L).RunIf (Answers out₀) p₀ t p) :
    (machine L).RunIf (fun _ => Awaited L) p₀ t p := by
  induction hr with
  | start => exact .start
  | next _ hc hs ih =>
    exact .next ih (awaited_of_answers hcan hm hv (run_progress hm hv h₀ ih) hc) hs

/-- The awaited answer is taken. -/
theorem answer_accepted (hm : m.Good) {file : List (List Char)} {rds : List Round}
    {s : State} {src : Addr} {b rest : List Round} {rd : Round} {k : Nat}
    (hclean : ∀ f, ¬ Breaks L file f) (hv : ∀ rd ∈ rds, rd.Valid m) (hrds : rds = b ++ rd :: rest)
    (hask : Asking L m file rd rest k s) (hc : Awaited L (.running s) (.datagram src)) :
    ∃ r, step L (.running s) (.datagram src) = .ok r := by
  by_cases hk : k + 1 = rd.ids.length
  · have hrest : ∀ rd ∈ rest, rd.Valid m := fun rd' hrd' =>
      hv rd' (hrds ▸ List.mem_append_right _ (List.mem_cons_of_mem _ hrd'))
    rcases receive_last src hm hrest hask hk with
      ⟨f, hf, -⟩ | ⟨-, he⟩ | ⟨_, _, _, -, -, he⟩
    · exact absurd hf (hclean f)
    · exact ⟨_, he⟩
    · exact ⟨_, he⟩
  · have hknown : getIdFromAddr m (L.inetNtop src) = s.sentId := by
      have hrec := hc.2
      rw [hask.received, hask.count, hask.map] at hrec
      exact hrec.resolve_left hk
    have hrd := hv rd (hrds ▸ List.mem_append_right _ (List.mem_cons_self ..))
    have hlt : k + 1 < rd.ids.length := Nat.lt_of_le_of_ne hask.lt hk
    obtain ⟨s', he, -, -⟩ := receive_next hrd.length_le hask (List.getElem?_eq_getElem hlt)
      (hrd.id_ne_zero hm (List.getElem_mem hlt)) hknown
    exact ⟨_, he⟩

theorem begin_ok (hm : m.Good) {text : List Char}
    (hclean : ∀ f, ¬ Breaks L (fgetsAll lineSize text) f)
    (hv : ∀ rd ∈ rounds L (fgetsAll lineSize text) 0, rd.Valid m) :
    ∃ p₀ out₀, begin L m (some text) = .ok (p₀, out₀) := by
  rcases readLines_cases (L := L) (s := init m (some (fgetsAll lineSize text))) hm
    (List.suffix_refl _) hv rfl rfl with ⟨f, hf, -⟩ | ⟨-, s', he⟩ | ⟨rd, rest, s', -, -, he⟩
  · exact absurd hf (hclean f)
  · exact ⟨.exited 0, [], by rw [begin_text, he]⟩
  · exact ⟨.running s', _, by rw [begin_text, he]⟩

/-- What a run of answers has sent, and that it takes the next answer. -/
theorem run_expected (hlong : intMax ≤ L.longMax) (hm : m.Good) (hcan : m.Canonical L)
    {f : RequestFile} (hf : f.Lists m) {p₀ p : Process} {out₀ : List Request}
    {t : Trace Event Request} (h₀ : begin L m (some f.text) = .ok (p₀, out₀))
    (hr : (machine L).RunIf (Answers out₀) p₀ t p) :
    (∀ e, Answers out₀ t p e → ∃ r, step L p e = .ok r) ∧
      out₀ ++ t.outputs <+: expected L m (nodeLines f.all 0) ∧
      ((receivedIn (log out₀ t)).Perm (requestedIn (log out₀ t)) →
        p = .exited 0 ∧ out₀ ++ t.outputs = expected L m (nodeLines f.all 0)) := by
  have hrounds := rounds_text hlong f hf.numbers
  have hclean : ∀ e, ¬ Breaks L (fgetsAll lineSize f.text) e := not_breaks hlong f hf.numbers
  have hv : ∀ rd ∈ rounds L (fgetsAll lineSize f.text) 0, rd.Valid m := hrounds ▸ hf.valid
  have hprogress := run_progress hm hv h₀ (run_awaited hm hcan hv h₀ hr)
  rw [← sentIn_log, ← sentIn_whole hm hf.mapped, ← hrounds]
  refine ⟨fun e hc => ?_, ?_, fun hperm => ?_⟩
  · have hawait := awaited_of_answers hcan hm hv hprogress hc
    cases e with
    | recvFailed => exact hc.elim
    | datagram src =>
      cases hprogress with
      | asking hrds hask _ => exact answer_accepted hm hclean hv hrds hask hawait
      | finished hl =>
        simp only [Answers] at hc
        rw [hl, requestedIn_finished] at hc
        have hlen := hc.length_le
        rw [List.length_append, List.length_singleton] at hlen
        exact absurd hlen (Nat.not_succ_le_self _)
      | failed _ _ _ =>
        exact absurd (run_exited (fun code hp => begin_exited (hp ▸ h₀)) hr 4 rfl) (by decide)
  · cases hprogress with
    | asking hrds hask hl =>
      rw [hl, hrds]
      exact sentIn_prefix _ _ hask.sent
    | failed hrds hid hl =>
      rw [hl, hrds]
      exact sentIn_prefix _ _ hid
    | finished hl =>
      rw [hl]
      exact List.prefix_refl _
  · have hlen := hperm.length_eq
    cases hprogress with
    | asking _ _ hl | failed _ _ hl =>
      rw [hl, requestedIn_asking, List.length_append] at hlen
      simp at hlen
    | finished hl => exact ⟨rfl, by rw [hl]; rfl⟩

theorem begin_lists (hlong : intMax ≤ L.longMax) (hm : m.Good) {f : RequestFile}
    (hf : f.Lists m) : ∃ p₀ out₀, begin L m (some f.text) = .ok (p₀, out₀) :=
  begin_ok hm (not_breaks hlong f hf.numbers) (rounds_text hlong f hf.numbers ▸ hf.valid)

theorem trace_exact (hlong : intMax ≤ L.longMax) (hm : m.Good) (hcan : m.Canonical L)
    (f : RequestFile) (hf : f.For m) :
    ∃ p₀ out₀, begin L m (some f.text) = .ok (p₀, out₀) ∧
      ∀ t p, (machine L).RunIf (Answers out₀) p₀ t p →
        (∀ e, Answers out₀ t p e → ∃ r, step L p e = .ok r) ∧
        out₀ ++ t.outputs <+: expected L m (nodeLines f.all 0) ∧
        ((receivedIn (log out₀ t)).Perm (requestedIn (log out₀ t)) →
          p = .exited 0 ∧ out₀ ++ t.outputs = expected L m (nodeLines f.all 0)) := by
  obtain ⟨p₀, out₀, h₀⟩ := begin_lists hlong hm hf.lists
  exact ⟨p₀, out₀, h₀, fun t p hr => run_expected hlong hm hcan hf.lists h₀ hr⟩

/-! ## Three files -/

/-- `Run_no: 1`, a line of stars, and nodes 2 and 3. -/
def pairFile : RequestFile where
  lines := [.runNo ⟨['1'], by decide, by simp⟩,
    .stars ⟨"****".toList, by decide, by decide, by decide, by decide, by decide⟩,
    .nodes ⟨['2'], by decide, by simp⟩ [(.comma, ⟨['3'], by decide, by simp⟩)]]
  last := none
  short := by decide
  last_short := by decide

theorem hostMap_canonical (longMax : Nat) : hostMap.Canonical (hostLibc longMax) := by
  refine ⟨fun e he => ?_, by decide, by decide⟩
  rcases List.mem_cons.1 he with rfl | he
  · exact ⟨_, rfl, rfl⟩
  · rw [List.mem_singleton.1 he]
    exact ⟨_, rfl, rfl⟩

theorem pairFile_for : pairFile.For hostMap := by
  refine ⟨by decide, by decide, by decide, fun r hr => ?_⟩
  have hr' : r = ⟨['1'], by decide, by simp⟩ := by
    simpa [pairFile, RequestFile.all] using hr
  rw [hr']
  decide

/-- `Run_no: 1`, nodes 2 and 3, `Run_no: 258`, and node 3. -/
def linesFile : RequestFile where
  lines := [.runNo ⟨['1'], by decide, by simp⟩,
    .nodes ⟨['2'], by decide, by simp⟩ [(.comma, ⟨['3'], by decide, by simp⟩)],
    .runNo ⟨['2', '5', '8'], by decide, by simp⟩,
    .nodes ⟨['3'], by decide, by simp⟩ []]
  last := none
  short := by decide
  last_short := by decide

theorem linesFile_for : linesFile.For hostMap := by
  refine ⟨by decide, by decide, by decide, fun r hr => ?_⟩
  have hr' : r = ⟨['1'], by decide, by simp⟩ ∨ r = ⟨['2', '5', '8'], by decide, by simp⟩ := by
    simpa [linesFile, RequestFile.all] using hr
  rcases hr' with rfl | rfl <;> decide

/-- Node 2 of the first line was asked, in run 1. -/
def linesAsked : State :=
  { pairState with fp := some ["Run_no: 258\n".toList, "3\n".toList], runNo := 1 }

/-- The start, and the first request. -/
def linesSent : List Request :=
  [start (hostLibc intMax) ⟨1, [2, 3]⟩, request (hostLibc intMax) hostMap ⟨1, [2, 3]⟩ 2]

theorem lines_begin : begin (hostLibc intMax) hostMap (some linesFile.text) =
    .ok (.running linesAsked, linesSent) := rfl

/-- Both nodes of the first line answer and the one of the second, and the program ends. -/
theorem trace_exact_lines : ∃ p₀ out₀ t,
    begin (hostLibc intMax) hostMap (some linesFile.text) = .ok (p₀, out₀) ∧
      (machine (hostLibc intMax)).RunIf (Answers out₀) p₀ t (.exited 0) ∧
      out₀ ++ t.outputs = expected (hostLibc intMax) hostMap [(1, [2, 3]), (258, [3])] := by
  obtain ⟨p₀, out₀, h₀, hrun⟩ := trace_exact (Nat.le_refl _) hostMap_good
    (hostMap_canonical intMax) linesFile linesFile_for
  cases lines_begin.symm.trans h₀
  have hr : (machine (hostLibc intMax)).RunIf (Answers linesSent) (.running linesAsked)
      [(.datagram 0xfd000000000000000000000000001062, _),
        (.datagram 0xfd00000000000000000000000000a578, _),
        (.datagram 0xfd00000000000000000000000000a578, _)] (.exited 0) :=
    .next (t := [_, _]) (.next (t := [_]) (.next (t := []) .start (List.Subperm.refl _) rfl)
      (List.Subperm.refl _) rfl) (List.Subperm.refl _) rfl
  exact ⟨_, _, _, lines_begin, hr, ((hrun _ _ hr).2.2 (List.Perm.refl _)).2⟩

/-- `Run_no: 9223372036854775808`, and node 2. -/
def lateFile : RequestFile where
  lines := [.runNo ⟨"9223372036854775808".toList, by decide, by simp⟩,
    .nodes ⟨['2'], by decide, by simp⟩ []]
  last := none
  short := by decide
  last_short := by decide

/-- A run number that is no `int` is not sent modulo 256, with a `long` of 32 bits or of 64. -/
theorem runNo_out_of_range :
    hostMap.Good ∧ nodeLines lateFile.all 0 = [(9223372036854775808, [2])] ∧
      (hostMap.Canonical (hostLibc (2 ^ 31 - 1)) ∧ ∃ p₀ out₀,
        begin (hostLibc (2 ^ 31 - 1)) hostMap (some lateFile.text) = .ok (p₀, out₀) ∧
          ¬ out₀ <+: expected (hostLibc (2 ^ 31 - 1)) hostMap (nodeLines lateFile.all 0)) ∧
      (hostMap.Canonical (hostLibc (2 ^ 63 - 1)) ∧ ∃ p₀ out₀,
        begin (hostLibc (2 ^ 63 - 1)) hostMap (some lateFile.text) = .ok (p₀, out₀) ∧
          ¬ out₀ <+: expected (hostLibc (2 ^ 63 - 1)) hostMap (nodeLines lateFile.all 0)) := by
  refine ⟨hostMap_good, by decide, ⟨hostMap_canonical _, ?_⟩, hostMap_canonical _, ?_⟩
  · exact ⟨_, _, rfl, by decide⟩
  · exact ⟨_, _, rfl, by decide⟩

end Verifier
end Swarna
