import Swarna.SerialLine

/-!
# Swarna.HostLog

What the host at the other end of the serial line learns from the bytes it gets.

* `readLine`: a report, from the line it is printed in.
* `host_reads`: in every run of the border router the host reads its reports as they were, whatever
  else is printed and sent in between.
-/

namespace Swarna
namespace SerialLine

open BorderRouter (Output isAnswer)
open Digits (skip number listed digit?)
open Slip (Byte)

/-! ## Reading -/

section

variable (v : Nat)

def chars (bs : List Byte) : List Char := bs.map fun b => Char.ofNat b.toNat

def readReceived (l : List Char) : Option (Output v) := do
  let l ← skip (lit "Received ") l
  let (cnt, l) ← number 10 l
  if l = [] then some (.received cnt) else none

def readChecksum (l : List Char) : Option (Output v) := do
  let l ← skip (lit "Received checksum: ") l
  let (checksum, l) ← number 16 l
  let l ← skip (lit ", from ") l
  let (id, l) ← number 16 l
  if l = [] then some (.receivedChecksum (.ofNat v checksum) (.ofNat 16 id)) else none

def readPath (l : List Char) : Option (Output v) := do
  let l ← skip (lit "agg_path: ") l
  let ids ← listed 16 0 l
  some (.aggPath (ids.map (BitVec.ofNat 16)))

def readStop (l : List Char) : Option (Output v) := do
  let l ← skip (lit "SECOND_TIME_STOP, run_count: ") l
  let (runCount, l) ← number 10 l
  let l ← skip (lit ", diff: ") l
  let (diff, l) ← number 10 l
  let l ← skip (lit ", first: ") l
  let (first, l) ← number 10 l
  let l ← skip (lit ", second: ") l
  let (second, l) ← number 10 l
  if l = [] then
    some (.secondTimeStop (.ofNat 8 runCount) (.ofNat v diff) (.ofNat v first) (.ofNat v second))
  else none

/-- A report, from a line of text. -/
def readLine (l : List Char) : Option (Output v) :=
  (((readReceived v l).or (readChecksum v l)).or (readPath v l)).or (readStop v l)

/-- A report, from a frame. -/
def readFrame : List Byte → Option (Output v)
  | [] => none
  | c :: cs => if c = carriageReturn then readLine v (chars cs.dropLast) else none

/-- What the host makes of the bytes on the line. -/
def host (bs : List Byte) : List (Output v) := (Slip.decode bs).filterMap (readFrame v)

end

/-- What is printed for the host to read. -/
def isReport {v : Nat} : Output v → Bool
  | .secondTimeStop _ _ _ _ => true
  | .aggPath _ => true
  | .receivedChecksum _ _ => true
  | .received _ => true
  | _ => false

section

variable {v : Nat}

theorem chars_str {cs : List Char} (h : cs.all isGraphic = true) : chars (str cs) = cs := by
  induction cs with
  | nil => rfl
  | cons c cs ih =>
    rw [List.all_cons, Bool.and_eq_true_iff] at h
    have hlt : c.toNat < 127 := by
      have hc := h.1
      simp only [isGraphic, Bool.and_eq_true, decide_eq_true_eq] at hc
      exact hc.2
    have hc : Char.ofNat (toByte c).toNat = c := by
      rw [toByte, BitVec.toNat_ofNat, Nat.mod_eq_of_lt (by omega)]
      exact Char.ofNat_toNat c
    exact congrArg₂ List.cons hc (ih h.2)

theorem newline_notMem_str {cs : List Char} (h : cs.all isGraphic = true) :
    newline ∉ str cs := by
  intro hmem
  obtain ⟨c, hc, heq⟩ := List.mem_map.1 hmem
  have hg := List.all_eq_true.1 h c hc
  simp only [isGraphic, Bool.and_eq_true, decide_eq_true_eq] at hg
  have hnat := congrArg BitVec.toNat heq
  rw [toByte, BitVec.toNat_ofNat, Nat.mod_eq_of_lt (by omega)] at hnat
  have hten : newline.toNat = 10 := rfl
  omega

/-- One line. -/
theorem lines_body {body : List Char} (h : body.all isGraphic = true) :
    lines (str (body ++ lit "\n")) = [str body] := by
  rw [str, List.map_append]
  exact lines_line (newline_notMem_str h) []

/-- A number is read up to a label that does not start with a digit. -/
theorem number_dec (n : Nat) {rest : List Char} (h : ∀ c ∈ rest.head?, digit? 10 c = none) :
    number 10 (dec n ++ rest) = some (n, rest) := Digits.number_toDigits (by decide) (by decide) n h

theorem number_hex (n : Nat) {rest : List Char} (h : ∀ c ∈ rest.head?, digit? 16 c = none) :
    number 16 (hex n ++ rest) = some (n, rest) := Digits.number_toDigits (by decide) (by decide) n h

theorem number_dec_end (n : Nat) : number 10 (dec n) = some (n, []) := by
  have h : number 10 (dec n ++ []) = some (n, []) := number_dec n (by simp)
  rwa [List.append_nil] at h

theorem number_hex_end (n : Nat) : number 16 (hex n) = some (n, []) := by
  have h : number 16 (hex n ++ []) = some (n, []) := number_hex n (by simp)
  rwa [List.append_nil] at h

/-- No label that follows a number starts with a digit. -/
theorem label_head {b : Nat} {c : Char} (h : digit? b c = none) (cs : List Char) :
    ∀ d ∈ (c :: cs).head?, digit? b d = none := by
  rintro d ⟨⟩
  exact h

theorem readLine_received (cnt : Nat) :
    readLine v (lit "Received " ++ dec cnt) = some (.received cnt) := by
  have h : readReceived v (lit "Received " ++ dec cnt) = some (.received cnt) := by
    simp [readReceived, Digits.skip_append, number_dec_end]
  rw [readLine, h]
  rfl

theorem readLine_checksum (checksum : BitVec v) (id : NodeId) :
    readLine v (lit "Received checksum: " ++ hex checksum.toNat ++ lit ", from " ++ hex id.toNat) =
      some (.receivedChecksum checksum id) := by
  have hnone : ∀ cs, readReceived v (lit "Received checksum: " ++ cs) = none := fun _ => rfl
  have h : readChecksum v (lit "Received checksum: " ++ (hex checksum.toNat ++ (lit ", from " ++
      hex id.toNat))) = some (.receivedChecksum checksum id) := by
    have hnum : number 16 (hex checksum.toNat ++ (lit ", from " ++ hex id.toNat)) =
        some (checksum.toNat, lit ", from " ++ hex id.toNat) := number_hex _ (label_head rfl _)
    simp [readChecksum, Digits.skip_append, hnum, number_hex_end]
  rw [List.append_assoc, List.append_assoc, readLine, hnone, h]
  rfl

theorem readLine_path (path : List NodeId) :
    readLine v (lit "agg_path: " ++ path.flatMap fun id => hex id.toNat ++ lit ",") =
      some (.aggPath path) := by
  have hread : listed 16 0 (path.flatMap fun id => hex id.toNat ++ lit ",") =
      some (path.map BitVec.toNat) := by
    rw [← Digits.listed_flatMap (b := 16) (by decide) (by decide), List.flatMap_map]
    rfl
  have hpath : (path.map BitVec.toNat).map (BitVec.ofNat 16) = path := by
    rw [List.map_map]
    exact (List.map_congr_left fun id _ => by simp).trans (List.map_id _)
  have hnone : ∀ cs, (readReceived v (lit "agg_path: " ++ cs)).or
    (readChecksum v (lit "agg_path: " ++ cs)) = none := fun _ => rfl
  rw [readLine, hnone, readPath, Digits.skip_append]
  simp [hread, hpath]

theorem readLine_stop (runCount : BitVec 8) (diff first second : BitVec v) :
    readLine v (lit "SECOND_TIME_STOP, run_count: " ++ dec runCount.toNat ++ lit ", diff: " ++
      dec diff.toNat ++ lit ", first: " ++ dec first.toNat ++ lit ", second: " ++
        dec second.toNat) = some (.secondTimeStop runCount diff first second) := by
  have hnone : ∀ cs, ((readReceived v (lit "SECOND_TIME_STOP, run_count: " ++ cs)).or
    (readChecksum v (lit "SECOND_TIME_STOP, run_count: " ++ cs))).or
      (readPath v (lit "SECOND_TIME_STOP, run_count: " ++ cs)) = none := fun _ => rfl
  have hdiff : ∀ n cs,
      number 10 (dec n ++ (lit ", diff: " ++ cs)) = some (n, lit ", diff: " ++ cs) :=
    fun n cs => number_dec n (label_head rfl _)
  have hfirst : ∀ n cs, number 10 (dec n ++ (lit ", first: " ++ cs)) =
      some (n, lit ", first: " ++ cs) := fun n cs => number_dec n (label_head rfl _)
  have hsecond : ∀ n cs, number 10 (dec n ++ (lit ", second: " ++ cs)) =
      some (n, lit ", second: " ++ cs) := fun n cs => number_dec n (label_head rfl _)
  simp only [List.append_assoc]
  rw [readLine, hnone, readStop, Digits.skip_append]
  simp [Digits.skip_append, hdiff, hfirst, hsecond, number_dec_end]

/-! ## What is printed -/

theorem readFrame_line (l : List Byte) : readFrame v (lineFrame l) = readLine v (chars l) := by
  rw [lineFrame, readFrame, if_pos rfl, List.dropLast_concat]

/-- The reports read from what one call of `printf` prints. -/
theorem read_print (cs : List Byte) : (Item.print cs).frames.filterMap (readFrame v) =
    (lines cs).filterMap fun l => readLine v (chars l) := by
  rw [Item.frames, List.filterMap_map]
  refine List.filterMap_congr fun l _ => ?_
  exact readFrame_line l

/-- A text of one line. -/
theorem read_body {body : List Char} (h : body.all isGraphic = true) :
    (Item.print (str (body ++ lit "\n"))).frames.filterMap (readFrame v) =
      (readLine v body).toList := by
  rw [read_print, lines_body h, List.filterMap_cons, chars_str h]
  cases readLine v body <;> rfl

/-- A text of an empty line and another one. -/
theorem read_second {body : List Char} (h : body.all isGraphic = true) :
    (Item.print (str (lit "\n" ++ body ++ lit "\n"))).frames.filterMap (readFrame v) =
      (readLine v body).toList := by
  have hlines : lines (str (lit "\n" ++ body ++ lit "\n")) = [[], str body] := by
    rw [List.append_assoc, ← lines_body h]
    rfl
  have hempty : readLine v (chars []) = none := rfl
  rw [read_print, hlines, List.filterMap_cons, hempty, List.filterMap_cons, chars_str h]
  cases readLine v body <;> rfl

theorem isGraphic_dec (n : Nat) : (dec n).all isGraphic = true :=
  isGraphic_toDigits (by decide) (by decide) n

theorem isGraphic_hex (n : Nat) : (hex n).all isGraphic = true :=
  isGraphic_toDigits (by decide) (by decide) n

theorem isGraphic_ids (ids : List NodeId) :
    (ids.flatMap fun id => hex id.toNat ++ lit ",").all isGraphic = true := by
  rw [List.all_flatMap, List.all_eq_true]
  intro id _
  rw [List.all_append, isGraphic_hex]
  rfl

/-- Every report is read from its text, and nothing from the texts of other outputs. -/
theorem read_text {P : Platform} (hP : P.Documented) (o : Output v) :
    (Item.print (str (text P o))).frames.filterMap (readFrame v) = [o].filter isReport := by
  cases o with
  | receivedRequest reqType =>
    have htext : text P (.receivedRequest reqType : Output v) = (lit "Received request " ++
      (dec reqType.toNat ++ lit " from verifier")) ++ lit "\n" := by
      simp only [text, List.append_assoc]
      rfl
    have hbody : (lit "Received request " ++ (dec reqType.toNat ++ lit " from verifier")).all
        isGraphic = true := by
      simp only [List.all_append, isGraphic_dec]
      rfl
    rw [htext, read_body hbody]
    rfl
  | multicast pkt =>
    have htext : text P (.multicast pkt : Output v) = (lit "Multicast Send to: " ++
      (lit " (msg=0x" ++ P.longHex pkt.seed ++ lit ")" ++ lit " " ++ dec 5 ++
        lit " bytes, token; " ++ dec pkt.pktType.toNat ++ lit ", " ++ dec 4 ++ lit ", " ++
          dec 1)) ++ lit "\n" := by
      simp only [text, List.append_assoc]
    have hbody : (lit "Multicast Send to: " ++ (lit " (msg=0x" ++ P.longHex pkt.seed ++ lit ")" ++
        lit " " ++ dec 5 ++ lit " bytes, token; " ++ dec pkt.pktType.toNat ++ lit ", " ++
          dec 4 ++ lit ", " ++ dec 1)).all isGraphic = true := by
      simp only [List.all_append, isGraphic_dec, hP.longHex]
      rfl
    rw [htext, read_body hbody]
    rfl
  | secondTimeStart ct2 =>
    have hbody : (lit "SECOND_TIME_START: " ++ dec ct2.toNat).all isGraphic = true := by
      simp only [List.all_append, isGraphic_dec]
      rfl
    exact (read_second hbody).trans rfl
  | secondTimeStop runCount diff first second =>
    have hbody : (lit "SECOND_TIME_STOP, run_count: " ++ dec runCount.toNat ++ lit ", diff: " ++
        dec diff.toNat ++ lit ", first: " ++ dec first.toNat ++ lit ", second: " ++
          dec second.toNat).all isGraphic = true := by
      simp only [List.all_append, isGraphic_dec]
      rfl
    have h := read_second (v := v) hbody
    rw [readLine_stop] at h
    exact h
  | secondTimeDone =>
    have hbody : (lit "SECOND_TIME_DONE: " ++ dec P.clockTimeAddr).all isGraphic = true := by
      simp only [List.all_append, isGraphic_dec]
      rfl
    exact (read_second hbody).trans rfl
  | notSupported =>
    have hbody : (lit "Does not support REQ type from verifier").all isGraphic = true := rfl
    exact read_body hbody
  | aggPath path =>
    have hbody : (lit "agg_path: " ++ path.flatMap fun id => hex id.toNat ++ lit ",").all
        isGraphic = true := by
      rw [List.all_append, isGraphic_ids]
      rfl
    rw [text, read_body hbody, readLine_path]
    rfl
  | receivedChecksum checksum id =>
    have hbody : (lit "Received checksum: " ++ hex checksum.toNat ++ lit ", from " ++
        hex id.toNat).all isGraphic = true := by
      simp only [List.all_append, isGraphic_hex]
      rfl
    rw [text, read_body hbody, readLine_checksum]
    rfl
  | received cnt =>
    have hbody : (lit "Received " ++ dec cnt).all isGraphic = true := by
      rw [List.all_append, isGraphic_dec]
      rfl
    rw [text, read_body hbody, readLine_received]
    rfl

/-- Nothing is read from it. -/
def Mute (v : Nat) (i : Item) : Prop := i.frames.filterMap (readFrame v) = []

theorem mute_body {body : List Char} (h : body.all isGraphic = true)
    (hnone : readLine v body = none) : Mute v (.print (str (body ++ lit "\n"))) := by
  rw [Mute, read_body h, hnone]
  rfl

theorem mute_type {label : List Char} (h : label.all isGraphic = true)
    (hnone : ∀ cs, readLine v (label ++ cs) = none) (type : Byte) :
    Mute v (.print (str label ++ [type] ++ str (lit "\n"))) := by
  have hchars : ∀ bs, readLine v (chars (str label ++ bs)) = none := by
    intro bs
    rw [chars, List.map_append, ← chars, chars_str h]
    exact hnone _
  have hempty : readLine v (chars []) = none := rfl
  rw [Mute, read_print]
  by_cases hnl : type = newline
  · have hlines : lines (str label ++ [type] ++ str (lit "\n")) = [str label, []] := by
      rw [hnl, List.append_assoc]
      exact lines_line (newline_notMem_str h) [newline]
    have hlabel := hchars []
    rw [List.append_nil] at hlabel
    rw [hlines, List.filterMap_cons, hlabel, List.filterMap_cons, hempty]
    rfl
  · have hnot : newline ∉ str label ++ [type] := by
      refine List.not_mem_append (newline_notMem_str h) fun hmem => hnl ?_
      exact (List.mem_singleton.1 hmem).symm
    have hlines : lines (str label ++ [type] ++ str (lit "\n")) = [str label ++ [type]] :=
      lines_line hnot []
    rw [hlines, List.filterMap_cons, hchars]
    rfl

theorem mute_addrs {P : Platform} (hP : P.Documented) (addrs : List IpAddr) :
    Mute v (printLocalAddresses P addrs) := by
  have hlines : lines (str (addrs.flatMap fun a => lit " " ++ P.print6addr a ++ lit "\n")) =
      addrs.map fun a => str (lit " " ++ P.print6addr a) := by
    induction addrs with
    | nil => rfl
    | cons a addrs ih =>
      have hbody : (lit " " ++ P.print6addr a).all isGraphic = true := by
        rw [List.all_append, hP.print6addr]
        rfl
      rw [List.flatMap_cons, str, List.map_append, List.map_append, List.append_assoc]
      refine (lines_line (newline_notMem_str hbody) _).trans ?_
      exact congrArg _ ih
  have hhead : str (lit "Server IPv6 addresses:\n" ++
      addrs.flatMap fun a => lit " " ++ P.print6addr a ++ lit "\n") =
        str (lit "Server IPv6 addresses:") ++ newline ::
          str (addrs.flatMap fun a => lit " " ++ P.print6addr a ++ lit "\n") := by
    rw [str, List.map_append]
    rfl
  rw [Mute, printLocalAddresses, read_print, hhead,
    lines_line (newline_notMem_str (rfl : (lit "Server IPv6 addresses:").all isGraphic = true)),
    hlines]
  refine List.filterMap_eq_nil_iff.2 (List.forall_mem_cons.2 ⟨?_, ?_⟩)
  · rw [chars_str rfl]
    rfl
  · intro l hl
    obtain ⟨a, -, rfl⟩ := List.mem_map.1 hl
    rw [chars_str]
    · rfl
    · rw [List.all_append, hP.print6addr]
      rfl

theorem mute_send {p : List Byte} (hp : ∀ c ∈ p.head?, c ≠ carriageReturn) :
    Mute v (.send p) := by
  cases p with
  | nil => rfl
  | cons c cs =>
    have hnone : readFrame v (c :: cs) = none := if_neg (hp c rfl)
    rw [Mute, Item.frames, List.filterMap_cons, hnone]
    rfl

theorem mute_slipInput {P : Platform} (hP : P.Documented) {w : Nat} (s : State w) :
    ∀ i ∈ (slipInputCallback P s).2, Mute v i := by
  have hconf : Mute v (gotConfiguration s) := mute_type rfl (fun _ => rfl) _
  have hreq : Mute v (gotRequest s) := mute_type rfl (fun _ => rfl) _
  rcases slipInputCallback_cases P s with ⟨-, -, h⟩ | ⟨-, -, h⟩ | ⟨-, -, h⟩ | ⟨-, -, h⟩ |
      ⟨-, -, h⟩ <;> rw [h]
  · refine List.forall_mem_cons.2 ⟨hconf, List.forall_mem_singleton.2 (mute_body ?_ rfl)⟩
    rw [List.all_append, hP.print6addr]
    rfl
  · exact List.forall_mem_singleton.2 hconf
  · refine List.forall_mem_cons.2 ⟨hreq, List.forall_mem_singleton.2 (mute_send ?_)⟩
    rintro c ⟨⟩
    exact Ne.symm (by decide : carriageReturn ≠ toByte '!')
  · exact List.forall_mem_singleton.2 hreq
  · simp

theorem mute_resume {P : Platform} (hP : P.Documented) {w : Nat} (s : State w)
    (addrs : List IpAddr) : ∀ i ∈ (resume P s addrs).2, Mute v i := by
  rw [resume]
  split
  · simp
  · split
    · refine List.forall_mem_cons.2 ⟨mute_addrs hP addrs, List.forall_mem_singleton.2 ?_⟩
      refine mute_body ?_ rfl
      rw [List.all_append, isGraphic_dec]
      rfl
    · refine List.forall_mem_singleton.2 (mute_send ?_)
      rintro c ⟨⟩
      exact Ne.symm (by decide : carriageReturn ≠ toByte '?')

theorem mute_output {w : Nat} (s : State w) (p : IpPacket) :
    ∀ i ∈ output (s.load p.bytes), Mute v i := by
  rw [output]
  split
  · simp
  · refine List.forall_mem_singleton.2 (mute_send ?_)
    have htake : ((s.load p.bytes).uipBuf.take (s.load p.bytes).uipLen) = p.bytes :=
      Buffer.take_put _ p.length_le
    rw [htake]
    intro c hc
    have hne : p.bytes ≠ [] :=
      List.ne_nil_of_length_pos (Nat.lt_of_lt_of_le (by decide) p.length_ge)
    rw [List.head?_eq_some_head hne] at hc
    cases hc
    rintro he
    have hversion := p.version
    rw [he] at hversion
    exact absurd hversion (by decide)

/-! ## Every run -/

/-- What the host reads of some items. -/
def readItems (v : Nat) (items : List Item) : List (Output v) :=
  (items.flatMap Item.frames).filterMap (readFrame v)

theorem readItems_append (items items' : List Item) :
    readItems v (items ++ items') = readItems v items ++ readItems v items' := by
  rw [readItems, List.flatMap_append, List.filterMap_append]
  rfl

theorem readItems_mute {items : List Item} (h : ∀ i ∈ items, Mute v i) :
    readItems v items = [] := by
  induction items with
  | nil => rfl
  | cons i items ih =>
    obtain ⟨hi, h⟩ := List.forall_mem_cons.1 h
    rw [readItems, List.flatMap_cons, List.filterMap_append, hi, ← readItems, ih h]
    rfl

theorem readItems_texts {P : Platform} (hP : P.Documented) (out : List (Output v)) :
    readItems v (out.map fun o => .print (str (text P o))) = out.filter isReport := by
  induction out with
  | nil => rfl
  | cons o out ih =>
    rw [List.map_cons, readItems, List.flatMap_cons, List.filterMap_append, read_text hP,
      ← readItems, ih, ← List.filter_append]
    rfl

/-- The host reads of a step what the border router reports in it. -/
theorem read_step {P : Platform} (hP : P.Documented) {w : Nat} {t : Trace (Event w) Item}
    {s s' : State w} {e : Event w} {items : List Item} (hc : Proper t s e)
    (h : step P v s e = .ok (s', items)) :
    match e.datagram? with
    | none => s'.router = s.router ∧ readItems v items = []
    | some d => ∃ out, BorderRouter.step v s.router d = .ok (s'.router, out) ∧
        readItems v items = out.filter isReport := by
  cases e with
  | resume addrs =>
    refine ⟨?_, readItems_mute ?_⟩
    · have h := Except.ok.inj h
      simp only [resume] at h
      split at h
      · cases h
        rfl
      · split at h <;> cases h <;> rfl
    · have hitems : items = (resume P s addrs).2 := (congrArg Prod.snd (Except.ok.inj h)).symm
      rw [hitems]
      exact mute_resume hP s addrs
  | slipInput p =>
    refine ⟨?_, readItems_mute ?_⟩
    · have h := Except.ok.inj h
      rcases slipInputCallback_cases P (s.load p.bytes) with ⟨-, -, hs⟩ | ⟨-, -, hs⟩ |
          ⟨-, -, hs⟩ | ⟨-, -, hs⟩ | ⟨-, -, hs⟩ <;> rw [hs] at h <;> cases h <;> rfl
    · cases h
      exact mute_slipInput hP _
  | output p =>
    cases h
    exact ⟨rfl, readItems_mute (mute_output s p)⟩
  | stack b len =>
    cases h
    exact ⟨rfl, rfl⟩
  | datagram d =>
    have h := Except.ok.inj h
    rw [datagram, if_pos (hc.2 rfl)] at h
    split at h
    · rename_i f _
      cases f
    · rename_i router out hs
      cases h
      exact ⟨out, hs, readItems_texts hP out⟩

/-- Along every run the border router handles the datagrams, and what the items printed say are its
reports. -/
theorem read_run {P : Platform} (hP : P.Documented) {w : Nat} {s₀ s : State w}
    {t : Trace (Event w) Item} (hr : (machine P v w).RunIf Proper s₀ t s) :
    ∃ τ, (BorderRouter.machine v w).Run s₀.router τ s.router ∧
      τ.map Prod.fst = (t.map Prod.fst).filterMap Event.datagram? ∧
      readItems v t.outputs = τ.outputs.filter isReport := by
  refine hr.invariant (P := fun t s => ∃ τ, (BorderRouter.machine v w).Run s₀.router τ s.router ∧
    τ.map Prod.fst = (t.map Prod.fst).filterMap Event.datagram? ∧
    readItems v t.outputs = τ.outputs.filter isReport) ⟨[], .start, rfl, rfl⟩ ?_
  rintro t s₁ e s₂ items ⟨τ, hτ, hevents, hread⟩ hc hs
  have hstep := read_step hP hc hs
  cases hd : e.datagram? with
  | none =>
    rw [hd] at hstep
    obtain ⟨hrouter, hmute⟩ := hstep
    refine ⟨τ, by rwa [hrouter], ?_, ?_⟩
    · simp [hd, hevents]
    · rw [Trace.outputs_snoc, readItems_append, hmute, List.append_nil, hread]
  | some d =>
    rw [hd] at hstep
    obtain ⟨out, hout, hitems⟩ := hstep
    refine ⟨τ ++ [(d, out)], hτ.next trivial hout, ?_, ?_⟩
    · simp [hd, hevents]
    · rw [Trace.outputs_snoc, readItems_append, hitems, hread, Trace.outputs_snoc,
        List.filter_append]

theorem host_uart {P : Platform} (hP : P.Documented) {w : Nat} {s₀ s : State w}
    {t : Trace (Event w) Item} (hr : (machine P v w).RunIf Proper s₀ t s) :
    host v (uart P false t.outputs).2 = readItems v t.outputs := by
  rw [host, decode_uart hP (good_outputs hP (hr.imp fun _ _ _ hc => hc.1))]
  rfl

/-- What the host reads depends on the datagrams only. -/
theorem host_eq {P : Platform} (hP : P.Documented) {w : Nat} {s₀ s : State w}
    {t : Trace (Event w) Item} (hr : (machine P v w).RunIf Proper s₀ t s)
    {b : BorderRouter.State w} {τ : Trace (BorderRouter.Event w) (Output v)}
    (hτ : (BorderRouter.machine v w).Run s₀.router τ b)
    (hevents : (t.map Prod.fst).filterMap Event.datagram? = τ.map Prod.fst) :
    host v (uart P false t.outputs).2 = τ.outputs.filter isReport := by
  obtain ⟨τ', hτ', hevents', hread⟩ := read_run hP hr
  have heq : τ' = τ := hτ'.eq_of_events hτ (hevents'.trans hevents)
  rw [host_uart hP hr, hread, heq]

/-- In every run the host reads the reports of the border router, as they were made and in that
order. -/
theorem host_reads {P : Platform} (hP : P.Documented) {w : Nat} {s₀ s : State w}
    {t : Trace (Event w) Item} (hr : (machine P v w).RunIf Proper s₀ t s) :
    ∃ τ, (BorderRouter.machine v w).Run s₀.router τ s.router ∧
      τ.map Prod.fst = (t.map Prod.fst).filterMap Event.datagram? ∧
      host v (uart P false t.outputs).2 = τ.outputs.filter isReport := by
  obtain ⟨τ, hτ, hevents, hread⟩ := read_run hP hr
  exact ⟨τ, hτ, hevents, (host_uart hP hr).trans hread⟩

end

/-- Any datagrams can come once the border router has started. -/
theorem boot_datagrams (router : BorderRouter.State 32) (ds : List (BorderRouter.Event 32)) :
    ∃ t s, (machine board 32 32).RunIf Proper (boot router) t s ∧ s.phase = .running ∧
      (t.map Prod.fst).filterMap Event.datagram? = ds := by
  induction ds using List.reverseRecOn with
  | nil =>
    have hnone : (none : Option (BorderRouter.Event 32)).isSome → ∀ q : Prop, q :=
      fun h => by cases h
    obtain ⟨t, s, hr, hphase, hevents, -⟩ := boot_run (C := Proper)
      (fun _ _ => ⟨trivial, fun h => hnone h _⟩)
      (fun _ _ => ⟨prefixMessage_typed, fun h => hnone h _⟩) router
    exact ⟨t, s, hr, hphase, by rw [hevents]; rfl⟩
  | append_singleton ds d ih =>
    obtain ⟨t, s, hr, hphase, hevents⟩ := ih
    obtain ⟨s', items, hstep, hphase'⟩ : ∃ s' items,
        (machine board 32 32).step s (.datagram d) = .ok (s', items) ∧ s'.phase = .running := by
      cases hd : BorderRouter.step 32 s.router d with
      | error f => cases f
      | ok r =>
        exact ⟨{ s with router := r.1 }, r.2.map fun o => .print (str (text board o)),
          by simp [machine, step, datagram, hphase, hd], hphase⟩
    refine ⟨_, s', hr.next ?_ hstep, hphase', by simp [hevents, Event.datagram?]⟩
    exact ⟨trivial, fun _ => hphase⟩

/-- A response is read as it was reported. -/
theorem host_reads_boot : ∃ t s, (machine board 32 32).Run (boot ⟨0, 0, 0, 0, 0⟩) t s ∧
    host 32 (uart board false t.outputs).2 = [.receivedChecksum 5 0x1062, .received 1] := by
  obtain ⟨t, s, hr, -, hevents⟩ := boot_datagrams ⟨0, 0, 0, 0, 0⟩
    [.response 0xfd000000000000000000000000001062 (.attestation 5)]
  obtain ⟨τ, hτ, hτe, hread⟩ := host_reads (v := 32) board_documented hr
  have hτ' : τ = [(_, _)] := hτ.eq_of_events (.next (t := []) .start trivial rfl)
    (hτe.trans hevents)
  rw [hτ'] at hread
  exact ⟨t, s, hr.run, hread⟩

end SerialLine
end Swarna
