import Swarna.BorderRouter
import Swarna.Ipaddr
import Swarna.Slip

/-!
# Swarna.SerialLine

The serial line of the border router (`slip-bridge.c`; the texts and the start of
`border-router.c`). Log text and packets share it: `putchar` puts each line of text into a SLIP
frame of its own, marked by a carriage return.

* `printf_whole`: printed text that ends with a line is one frame for each line.
* `frames_exact`: in every run, what comes out of the line are the lines printed and the packets
  sent, whole and in order.

`LOG_DBG` and `LOG_INFO` are `printf`, as `project-conf.h` has them. What the RPL and IP stacks do
with the prefix and with packets is left out. `UIP_LLH_LEN` is 0.
-/

namespace Swarna
namespace SerialLine

open Slip (Byte Plain slipEnd)
open Digits (skip number listed)

/-! ## Text -/

/-- A string literal. -/
def lit (s : String) : List Char := s.toList

def toByte (c : Char) : Byte := BitVec.ofNat 8 c.toNat

def str (cs : List Char) : List Byte := cs.map toByte

def newline : Byte := 10
def carriageReturn : Byte := 13

/-- `%d` and `%u`. -/
def dec (n : Nat) : List Char := Nat.toDigits 10 n

/-- `%x`. -/
def hex (n : Nat) : List Char := Nat.toDigits 16 n

/-- `uip_ipaddr_t`, in network order. -/
abbrev IpAddr := Vector Byte 16

/-- What the border router takes from its platform. -/
structure Platform where
  /-- What `slip_send` writes for a packet. -/
  slipSend : List Byte → List Byte
  /-- `PRINT6ADDR`. -/
  print6addr : IpAddr → List Char
  /-- `%08lx`, which not every `printf` knows. -/
  longHex : BitVec 32 → List Char
  /-- The address of `clock_time`, as `%u` shows it. -/
  clockTimeAddr : Nat
  uipLladdr : Vector Byte 8

/-- A character one sees. -/
def isGraphic (c : Char) : Bool := decide (32 ≤ c.toNat) && decide (c.toNat < 127)

structure Platform.Documented (P : Platform) : Prop where
  slipSend : ∀ p, P.slipSend p = Slip.encode p
  print6addr : ∀ a, (P.print6addr a).all isGraphic
  longHex : ∀ x, (P.longHex x).all isGraphic

/-- What `printf` is given for an output. -/
def text (P : Platform) {v : Nat} : BorderRouter.Output v → List Char
  | .receivedRequest reqType =>
    lit "Received request " ++ dec reqType.toNat ++ lit " from verifier\n"
  | .multicast pkt =>
    -- `sizeof(mpkt)`, `sizeof(uint32_t)` and `sizeof(uint8_t)`
    lit "Multicast Send to: " ++ lit " (msg=0x" ++ P.longHex pkt.seed ++ lit ")" ++
      lit " " ++ dec 5 ++ lit " bytes, token; " ++ dec pkt.pktType.toNat ++ lit ", " ++
      dec 4 ++ lit ", " ++ dec 1 ++ lit "\n"
  | .secondTimeStart ct2 => lit "\nSECOND_TIME_START: " ++ dec ct2.toNat ++ lit "\n"
  | .secondTimeStop runCount diff first second =>
    lit "\nSECOND_TIME_STOP, run_count: " ++ dec runCount.toNat ++ lit ", diff: " ++
      dec diff.toNat ++ lit ", first: " ++ dec first.toNat ++ lit ", second: " ++
      dec second.toNat ++ lit "\n"
  | .secondTimeDone => lit "\nSECOND_TIME_DONE: " ++ dec P.clockTimeAddr ++ lit "\n"
  | .notSupported => lit "Does not support REQ type from verifier\n"
  | .aggPath path =>
    lit "agg_path: " ++ path.flatMap (fun id => hex id.toNat ++ lit ",") ++ lit "\n"
  | .receivedChecksum checksum id =>
    lit "Received checksum: " ++ hex checksum.toNat ++ lit ", from " ++ hex id.toNat ++
      lit "\n"
  | .received cnt => lit "Received " ++ dec cnt ++ lit "\n"

/-! ## The line -/

/-- One call of `printf`, or one of `slip_send`. -/
inductive Item where
  | print (cs : List Byte)
  | send (p : List Byte)
  deriving DecidableEq, Repr

/-- With `debug_frame`, and what goes to the UART. -/
def putchar (debugFrame : Bool) (c : Byte) : Bool × List Byte :=
  let start := if debugFrame then [] else [slipEnd, carriageReturn]
  if c = newline then (false, start ++ [c, slipEnd]) else (true, start ++ [c])

def printf : (debugFrame : Bool) → List Byte → Bool × List Byte
  | debugFrame, [] => (debugFrame, [])
  | debugFrame, c :: cs =>
    let (debugFrame, out) := putchar debugFrame c
    let (debugFrame, out') := printf debugFrame cs
    (debugFrame, out ++ out')

/-- The bytes on the line. -/
def uart (P : Platform) : (debugFrame : Bool) → List Item → Bool × List Byte
  | debugFrame, [] => (debugFrame, [])
  | debugFrame, .print cs :: items =>
    let (debugFrame, out) := printf debugFrame cs
    let (debugFrame, out') := uart P debugFrame items
    (debugFrame, out ++ out')
  | debugFrame, .send p :: items =>
    let (debugFrame, out) := uart P debugFrame items
    (debugFrame, P.slipSend p ++ out)

/-! ## The program -/

/-- `UIP_BUFSIZE`. -/
abbrev uipBufSize : Nat := 1280

/-- `uip_buf`. -/
abbrev Buffer := Fin uipBufSize → Byte

namespace Buffer

/-- A packet at `off`; the rest stays as it is. -/
def put (b : Buffer) (off : Nat) (p : List Byte) : Buffer := fun i =>
  if off ≤ i.val ∧ i.val < off + p.length then p.getD (i.val - off) 0 else b i

/-- Byte `i`; nothing is read past the buffer. -/
def byte (b : Buffer) (i : Nat) : Byte := if h : i < uipBufSize then b ⟨i, h⟩ else 0

/-- The first `n` bytes. -/
def take (b : Buffer) (n : Nat) : List Byte := (List.range n).map b.byte

def slice (b : Buffer) (off n : Nat) : Vector Byte n := .ofFn fun i => b.byte (off + i.val)

/-- `UIP_IP_BUF->srcipaddr`. -/
def srcipaddr (b : Buffer) : IpAddr := b.slice 8 16

end Buffer

/-- What comes in over SLIP: a packet or a message, not empty. -/
structure Message where
  bytes : List Byte
  ne_nil : bytes ≠ []
  length_le : bytes.length ≤ uipBufSize

/-- An IPv6 packet: at least a header, which starts with the version. -/
structure IpPacket where
  bytes : List Byte
  length_ge : 40 ≤ bytes.length
  length_le : bytes.length ≤ uipBufSize
  version : (bytes.head (List.ne_nil_of_length_pos (by omega))).toNat / 16 = 6

inductive Phase where
  | booting
  /-- In the loop that asks for the prefix. -/
  | waiting
  | running
  deriving DecidableEq, Repr

structure State (w : Nat) where
  phase : Phase
  uipBuf : Buffer
  uipLen : Nat
  lastSender : IpAddr
  /-- `prefix`. -/
  prefix64 : IpAddr
  prefixSet : Bool
  router : BorderRouter.State w

/-- A packet in `uip_buf`. -/
def State.load {w : Nat} (s : State w) (p : List Byte) : State w :=
  { s with uipBuf := s.uipBuf.put 0 p, uipLen := p.length }

inductive Event (w : Nat) where
  /-- The pause or the timer the process waits for is over; the addresses in use. -/
  | resume (addrs : List IpAddr)
  | slipInput (p : Message)
  /-- The IP stack hands a packet to the fallback interface. -/
  | output (p : IpPacket)
  /-- The IP stack uses `uip_buf` for something else. -/
  | stack (b : Buffer) (len : Nat)
  | datagram (e : BorderRouter.Event w)

section

variable (P : Platform) {w : Nat}

/-- The packet `slip_send` sends. -/
def slipSend (s : State w) : Item := .send (s.uipBuf.take s.uipLen)

def setPrefix64 (s : State w) (prefix64 : IpAddr) : State w :=
  { s with prefix64, prefixSet := true }

def hexchar (n : Byte) : Byte := toByte ("0123456789abcdef".toList.getD n.toNat '0')

/-- The loop over `uip_lladdr.addr`. -/
def hexLladdr (lladdr : Vector Byte 8) : List Byte :=
  lladdr.toList.flatMap fun b : Byte => [hexchar (b >>> 4), hexchar (b &&& 15)]

def slipInputCallback (s : State w) : State w × List Item :=
  let (s, items) :=
    if s.uipBuf.byte 0 = toByte '!' then
      let log := Item.print
        (str (lit "Got configuration message of type ") ++ [s.uipBuf.byte 1] ++ str (lit "\n"))
      let s := { s with uipLen := 0 }
      if s.uipBuf.byte 1 = toByte 'P' then
        let p := s.uipBuf.slice 2 8 ++ Vector.replicate 8 (0 : Byte)
        (setPrefix64 s p,
          [log, .print (str (lit "Setting prefix " ++ P.print6addr p ++ lit "\n"))])
      else (s, [log])
    else if s.uipBuf.byte 0 = toByte '?' then
      let log := Item.print
        (str (lit "Got request message of type ") ++ [s.uipBuf.byte 1] ++ str (lit "\n"))
      if s.uipBuf.byte 1 = toByte 'M' then
        let s := { s with
          uipBuf := (s.uipBuf.put 0 [toByte '!']).put 2 (hexLladdr P.uipLladdr), uipLen := 18 }
        ({ s with uipLen := 0 }, [log, slipSend s])
      else ({ s with uipLen := 0 }, [log])
    else (s, [])
  ({ s with lastSender := s.uipBuf.srcipaddr }, items)

def output (s : State w) : List Item :=
  if s.lastSender = s.uipBuf.srcipaddr then [] else [slipSend s]

def requestPrefix (s : State w) : State w × List Item :=
  let s := { s with uipBuf := s.uipBuf.put 0 [toByte '?', toByte 'P'], uipLen := 2 }
  ({ s with uipLen := 0 }, [slipSend s])

def printLocalAddresses (addrs : List IpAddr) : Item :=
  .print (str (lit "Server IPv6 addresses:\n" ++
    addrs.flatMap fun a => lit " " ++ P.print6addr a ++ lit "\n"))

/-- `CHECKSUM_PORT` is 4010. -/
def createBroadcastConnServer : Item :=
  .print (str (lit "Listening on broadcast conn port " ++ dec 4010 ++ lit "\n"))

/-- `border_router_process`, up to its event loop. -/
def resume (s : State w) (addrs : List IpAddr) : State w × List Item :=
  if s.phase = .running then (s, [])
  else if s.prefixSet then
    ({ s with phase := .running }, [printLocalAddresses P addrs, createBroadcastConnServer])
  else requestPrefix { s with phase := .waiting }

/-- A datagram that comes before the ports are bound is dropped. -/
def datagram (v : Nat) (s : State w) (e : BorderRouter.Event w) : State w × List Item :=
  if s.phase = .running then
    match BorderRouter.step v s.router e with
    | .error f => nomatch f
    | .ok (router, out) => ({ s with router }, out.map fun o => .print (str (text P o)))
  else (s, [])

def step (v : Nat) (s : State w) : Event w → Except Empty (State w × List Item)
  | .resume addrs => .ok (resume P s addrs)
  | .slipInput p => .ok (slipInputCallback P (s.load p.bytes))
  | .output p => .ok (s.load p.bytes, output (s.load p.bytes))
  | .stack b len => .ok ({ s with uipBuf := b, uipLen := len }, [])
  | .datagram e => .ok (datagram P v s e)

def machine (v w : Nat) : Machine (State w) (Event w) Item Empty := ⟨step P v⟩

end

/-- The border router before its process is started, with any contents of its variables but
`prefix_set`. -/
def start {w : Nat} (uipBuf : Buffer) (uipLen : Nat) (lastSender prefix64 : IpAddr)
    (router : BorderRouter.State w) : State w :=
  ⟨.booting, uipBuf, uipLen, lastSender, prefix64, false, router⟩

/-! ## Frames -/

/-- The lines of a text, without their newlines. -/
def lines : List Byte → List (List Byte)
  | [] => []
  | c :: cs =>
    if c = newline then [] :: lines cs
    else match lines cs with
      | [] => [[c]]
      | l :: ls => (c :: l) :: ls

/-- Text that ends with a line. -/
def Whole (cs : List Byte) : Prop := ∀ c ∈ cs.getLast?, c = newline

theorem newline_notMem_lines (cs : List Byte) : ∀ l ∈ lines cs, newline ∉ l := by
  fun_induction lines cs with
  | case1 => simp
  | case2 cs ih => exact List.forall_mem_cons.2 ⟨List.not_mem_nil, ih⟩
  | case3 c cs hc _ _ => simpa using fun h => hc h.symm
  | case4 c cs hc l ls hls ih =>
    rw [hls] at ih
    obtain ⟨hl, ih⟩ := List.forall_mem_cons.1 ih
    refine List.forall_mem_cons.2 ⟨fun h => ?_, ih⟩
    rcases List.mem_cons.1 h with h | h
    · exact hc h.symm
    · exact hl h

theorem Whole.of_cons {c : Byte} {cs : List Byte} (h : Whole (c :: cs)) : Whole cs := by
  intro d hd
  cases cs with
  | nil => cases hd
  | cons c' cs => exact h d (by rwa [List.getLast?_cons_cons])

theorem flatMap_lines {cs : List Byte} (h : Whole cs) :
    ((lines cs).flatMap fun l => l ++ [newline]) = cs := by
  fun_induction lines cs with
  | case1 => rfl
  | case2 cs ih => exact congrArg (newline :: ·) (ih h.of_cons)
  | case3 c cs hc hls ih =>
    have hnil : cs = [] := by
      rw [← ih h.of_cons, hls]
      rfl
    subst hnil
    exact absurd (h c rfl) hc
  | case4 c cs hc l ls hls ih =>
    have := ih h.of_cons
    rw [hls] at this
    exact congrArg (c :: ·) this

theorem lines_line {l : List Byte} (hl : newline ∉ l) (cs : List Byte) :
    lines (l ++ newline :: cs) = l :: lines cs := by
  induction l with
  | nil => exact if_pos rfl
  | cons c l ih =>
    obtain ⟨hc, hl⟩ := not_or.1 (mt List.mem_cons.2 hl)
    rw [List.cons_append, lines, if_neg (Ne.symm hc), ih hl]

/-- How a line goes over SLIP: the type of the frame, the text and its newline. -/
def lineFrame (l : List Byte) : List Byte := carriageReturn :: (l ++ [newline])

def Item.frames : Item → List (List Byte)
  | .print cs => (lines cs).map lineFrame
  | .send p => [p]

/-- Whole lines without bytes special to SLIP, or a packet. -/
def Item.Good : Item → Prop
  | .print cs => Whole cs ∧ ∀ c ∈ cs, Plain c
  | .send p => p ≠ []

theorem printf_line (debugFrame : Bool) {l : List Byte} (hl : newline ∉ l) (cs : List Byte) :
    printf debugFrame (l ++ newline :: cs) =
      ((printf false cs).1, (if debugFrame then [] else [slipEnd, carriageReturn]) ++
        l ++ [newline, slipEnd] ++ (printf false cs).2) := by
  induction l generalizing debugFrame with
  | nil =>
    rw [List.nil_append, printf, putchar, if_pos rfl]
    simp
  | cons c l ih =>
    obtain ⟨hc, hl⟩ := not_or.1 (mt List.mem_cons.2 hl)
    rw [List.cons_append, printf, putchar, if_neg (Ne.symm hc)]
    simp [ih true hl]

/-- Printed text that ends with a line is one frame for each line. -/
theorem printf_whole {cs : List Byte} (h : Whole cs) (hp : ∀ c ∈ cs, Plain c) :
    printf false cs = (false, ((lines cs).map lineFrame).flatMap Slip.encode) := by
  have hall : ∀ ls : List (List Byte), (∀ l ∈ ls, newline ∉ l) → (∀ l ∈ ls, ∀ c ∈ l, Plain c) →
      printf false (ls.flatMap fun l => l ++ [newline]) =
        (false, (ls.map lineFrame).flatMap Slip.encode) := by
    intro ls
    induction ls with
    | nil => exact fun _ _ => rfl
    | cons l ls ih =>
      intro hnl hplain
      obtain ⟨hl, hnl⟩ := List.forall_mem_cons.1 hnl
      obtain ⟨hpl, hplain⟩ := List.forall_mem_cons.1 hplain
      have hframe : Slip.encode (lineFrame l) =
          [slipEnd, carriageReturn] ++ l ++ [newline, slipEnd] := by
        rw [Slip.encode_plain]
        · simp [lineFrame]
        · intro b hb
          rcases List.mem_cons.1 hb with rfl | hb
          · exact ⟨by decide, by decide⟩
          · rcases List.mem_append.1 hb with hb | hb
            · exact hpl b hb
            · cases List.mem_singleton.1 hb
              exact ⟨by decide, by decide⟩
      rw [List.flatMap_cons, List.append_assoc, List.singleton_append, printf_line false hl,
        ih hnl hplain, List.map_cons, List.flatMap_cons, hframe]
      rfl
  have hlines := hall (lines cs) (newline_notMem_lines cs) fun l hl c hc => by
    refine hp c ?_
    rw [← flatMap_lines h]
    exact List.mem_flatMap.2 ⟨l, hl, List.mem_append_left _ hc⟩
  rwa [flatMap_lines h] at hlines

theorem uart_frames {P : Platform} (hP : P.Documented) {items : List Item}
    (h : ∀ i ∈ items, i.Good) :
    uart P false items = (false, (items.flatMap Item.frames).flatMap Slip.encode) := by
  induction items with
  | nil => rfl
  | cons i items ih =>
    obtain ⟨hi, hrest⟩ := List.forall_mem_cons.1 h
    cases i with
    | print cs =>
      rw [uart, printf_whole hi.1 hi.2]
      simp [ih hrest, Item.frames]
    | send p =>
      rw [uart, ih hrest, hP.slipSend]
      simp [Item.frames]

theorem Item.Good.frames {i : Item} (h : i.Good) : ∀ f ∈ i.frames, f ≠ [] := by
  cases i with
  | print cs =>
    intro f hf
    obtain ⟨l, -, rfl⟩ := List.mem_map.1 hf
    exact List.cons_ne_nil _ _
  | send p =>
    intro f hf
    cases List.mem_singleton.1 hf
    exact h

/-- What was printed and sent is read from the line, line by line and packet by packet. -/
theorem decode_uart {P : Platform} (hP : P.Documented) {items : List Item}
    (h : ∀ i ∈ items, i.Good) :
    Slip.decode (uart P false items).2 = items.flatMap Item.frames := by
  rw [uart_frames hP h]
  refine Slip.decode_encode fun f hf => ?_
  obtain ⟨i, hi, hf⟩ := List.mem_flatMap.1 hf
  exact (h i hi).frames f hf

/-! ## Every run -/

def isText (c : Char) : Bool := c = '\n' || isGraphic c

theorem plain_toByte {c : Char} (h : isText c = true) : Plain (toByte c) := by
  have hlt : c.toNat < 127 := by
    simp only [isText, isGraphic, Bool.or_eq_true, Bool.and_eq_true, decide_eq_true_eq] at h
    rcases h with rfl | h
    · decide
    · exact h.2
  have hne : ∀ b : Byte, 127 ≤ b.toNat → toByte c ≠ b := by
    rintro b hb rfl
    rw [toByte, BitVec.toNat_ofNat] at hb
    omega
  exact ⟨hne _ (by decide), hne _ (by decide)⟩

theorem plain_str {cs : List Char} (h : cs.all isText = true) : ∀ b ∈ str cs, Plain b := by
  intro b hb
  obtain ⟨c, hc, rfl⟩ := List.mem_map.1 hb
  exact plain_toByte (List.all_eq_true.1 h c hc)

theorem isText_of_isGraphic {cs : List Char} (h : cs.all isGraphic = true) :
    cs.all isText = true := by
  rw [List.all_eq_true] at h ⊢
  exact fun c hc => Bool.or_eq_true_iff.2 (.inr (h c hc))

theorem isGraphic_toDigits {b : Nat} (hb : 1 < b) (hle : b ≤ 16) (n : Nat) :
    (Nat.toDigits b n).all isGraphic = true := by
  have hdigit : ∀ d < 16, isGraphic (Nat.digitChar d) = true := by decide
  exact List.all_eq_true.2
    (Digits.forall_mem_toDigits hb (fun d hd => hdigit d (Nat.lt_of_lt_of_le hd hle)) n)

theorem isText_dec (n : Nat) : (dec n).all isText = true :=
  isText_of_isGraphic (isGraphic_toDigits (by decide) (by decide) n)

theorem isText_hex (n : Nat) : (hex n).all isText = true :=
  isText_of_isGraphic (isGraphic_toDigits (by decide) (by decide) n)

theorem Whole.append {a b : List Byte} (ha : Whole a) (hb : Whole b) : Whole (a ++ b) := by
  intro c hc
  rw [List.getLast?_append] at hc
  cases hlast : b.getLast? with
  | none =>
    rw [hlast] at hc
    exact ha c hc
  | some d =>
    rw [hlast] at hc
    cases hc
    exact hb _ hlast

theorem whole_append {a b : List Byte} (hb : b.getLast? = some newline) : Whole (a ++ b) := by
  intro c hc
  rw [List.getLast?_append, hb] at hc
  cases hc
  rfl

theorem whole_str {a b : List Char} (hb : (str b).getLast? = some newline) :
    Whole (str (a ++ b)) := by
  rw [str, List.map_append]
  exact whole_append hb

theorem isText_ids (ids : List NodeId) :
    (ids.flatMap fun id => hex id.toNat ++ lit ",").all isText = true := by
  rw [List.all_flatMap, List.all_eq_true]
  intro id _
  rw [List.all_append, isText_hex]
  rfl

/-- The texts of all outputs are whole lines. -/
theorem good_text {P : Platform} (hP : P.Documented) {v : Nat} (o : BorderRouter.Output v) :
    (Item.print (str (text P o))).Good := by
  constructor
  · cases o with
    | notSupported => exact whole_str (a := []) rfl
    | _ => exact whole_str rfl
  · refine plain_str ?_
    cases o <;> simp only [text, List.all_append, isText_dec, isText_hex, isText_ids,
      isText_of_isGraphic (hP.longHex _), Bool.and_true, Bool.and_eq_true] <;> decide

/-- A line of text and the type of a message. -/
theorem good_type {label : List Char} (hlabel : label.all isText = true) {type : Byte}
    (ht : Plain type) : (Item.print (str label ++ [type] ++ str (lit "\n"))).Good := by
  refine ⟨whole_append rfl, fun b hb => ?_⟩
  rcases List.mem_append.1 hb with hb | hb
  · rcases List.mem_append.1 hb with hb | hb
    · exact plain_str hlabel b hb
    · cases List.mem_singleton.1 hb
      exact ht
  · exact plain_str (rfl : (lit "\n").all isText = true) b hb

theorem good_addrs {P : Platform} (hP : P.Documented) (addrs : List IpAddr) :
    (printLocalAddresses P addrs).Good := by
  constructor
  · have hlines : Whole (str (addrs.flatMap fun a => lit " " ++ P.print6addr a ++ lit "\n")) := by
      induction addrs with
      | nil => exact fun c hc => by cases hc
      | cons a addrs ih =>
        rw [List.flatMap_cons, str, List.map_append]
        exact Whole.append (whole_str rfl) ih
    rw [str, List.map_append]
    exact Whole.append (whole_str (a := []) rfl) hlines
  · refine plain_str ?_
    rw [List.all_append, List.all_flatMap]
    refine Bool.and_eq_true_iff.2 ⟨by decide, List.all_eq_true.2 fun a _ => ?_⟩
    rw [List.all_append, List.all_append, isText_of_isGraphic (hP.print6addr a)]
    rfl

theorem good_send {w : Nat} {s : State w} (h : s.uipLen ≠ 0) : (slipSend s).Good := by
  intro hnil
  have hlen := congrArg List.length hnil
  rw [Buffer.take, List.length_map, List.length_range] at hlen
  exact h hlen

/-- A byte of a packet in the buffer. -/
theorem Buffer.byte_put (b : Buffer) {p : List Byte} (hp : p.length ≤ uipBufSize) {i : Nat}
    (hi : i < p.length) : (b.put 0 p).byte i = p.getD i 0 := by
  have hlt : i < uipBufSize := Nat.lt_of_lt_of_le hi hp
  rw [byte, dif_pos hlt, put, if_pos ⟨Nat.zero_le _, by simpa using hi⟩]
  rfl

/-- A packet in the buffer, as it is sent. -/
theorem Buffer.take_put (b : Buffer) {p : List Byte} (hp : p.length ≤ uipBufSize) :
    (b.put 0 p).take p.length = p := by
  refine List.ext_getElem (by simp [take]) fun i hi hip => ?_
  simp only [take, List.getElem_map, List.getElem_range]
  rw [byte_put b hp hip, List.getD_eq_getElem?_getD, List.getElem?_eq_getElem hip]
  rfl

/-- A configuration message says its type, with a byte that is not special to SLIP. -/
def Message.Typed (p : Message) : Prop :=
  ∀ c cs, p.bytes = c :: cs → c = toByte '!' ∨ c = toByte '?' →
    ∃ type rest, cs = type :: rest ∧ Plain type

section

variable {P : Platform} {v w : Nat}

/-- A run in which configuration messages are `Typed`. -/
def Typed (_ : Trace (Event w) Item) (_ : State w) : Event w → Prop
  | .slipInput p => p.Typed
  | _ => True

def Event.datagram? : Event w → Option (BorderRouter.Event w)
  | .datagram e => some e
  | _ => none

/-- A run in which moreover datagrams come when the ports are bound. -/
def Proper (t : Trace (Event w) Item) (s : State w) (e : Event w) : Prop :=
  Typed t s e ∧ (e.datagram?.isSome → s.phase = .running)

/-- What is printed about a message. -/
def gotConfiguration (s : State w) : Item :=
  .print (str (lit "Got configuration message of type ") ++ [s.uipBuf.byte 1] ++ str (lit "\n"))

def gotRequest (s : State w) : Item :=
  .print (str (lit "Got request message of type ") ++ [s.uipBuf.byte 1] ++ str (lit "\n"))

/-- The prefix a message has. -/
def prefixOf (b : Buffer) : IpAddr := b.slice 2 8 ++ Vector.replicate 8 (0 : Byte)

/-- The buffer with the answer to a request for the address. -/
def answered (P : Platform) (b : Buffer) : Buffer :=
  (b.put 0 [toByte '!']).put 2 (hexLladdr P.uipLladdr)

/-- What the callback can do. -/
theorem slipInputCallback_cases (P : Platform) (s : State w) :
    (s.uipBuf.byte 0 = toByte '!' ∧ s.uipBuf.byte 1 = toByte 'P' ∧ slipInputCallback P s =
      ({ s with
          uipLen := 0, prefix64 := prefixOf s.uipBuf, prefixSet := true
          lastSender := s.uipBuf.srcipaddr },
        [gotConfiguration s, .print (str (lit "Setting prefix " ++
          P.print6addr (prefixOf s.uipBuf) ++ lit "\n"))])) ∨
    (s.uipBuf.byte 0 = toByte '!' ∧ s.uipBuf.byte 1 ≠ toByte 'P' ∧ slipInputCallback P s =
      ({ s with uipLen := 0, lastSender := s.uipBuf.srcipaddr }, [gotConfiguration s])) ∨
    (s.uipBuf.byte 0 = toByte '?' ∧ s.uipBuf.byte 1 = toByte 'M' ∧ slipInputCallback P s =
      ({ s with
          uipBuf := answered P s.uipBuf, uipLen := 0
          lastSender := (answered P s.uipBuf).srcipaddr },
        [gotRequest s, .send ((answered P s.uipBuf).take 18)])) ∨
    (s.uipBuf.byte 0 = toByte '?' ∧ s.uipBuf.byte 1 ≠ toByte 'M' ∧ slipInputCallback P s =
      ({ s with uipLen := 0, lastSender := s.uipBuf.srcipaddr }, [gotRequest s])) ∨
    (s.uipBuf.byte 0 ≠ toByte '!' ∧ s.uipBuf.byte 0 ≠ toByte '?' ∧
      slipInputCallback P s = ({ s with lastSender := s.uipBuf.srcipaddr }, [])) := by
  have hne : toByte '?' ≠ toByte '!' := by decide
  by_cases h : s.uipBuf.byte 0 = toByte '!'
  · by_cases ht : s.uipBuf.byte 1 = toByte 'P'
    · refine .inl ⟨h, ht, ?_⟩
      simp [slipInputCallback, h, ht, setPrefix64, prefixOf, gotConfiguration]
    · refine .inr (.inl ⟨h, ht, ?_⟩)
      simp [slipInputCallback, h, ht, gotConfiguration]
  · by_cases hq : s.uipBuf.byte 0 = toByte '?'
    · by_cases ht : s.uipBuf.byte 1 = toByte 'M'
      · refine .inr (.inr (.inl ⟨hq, ht, ?_⟩))
        simp [slipInputCallback, hq, hne, ht, slipSend, answered, gotRequest]
      · refine .inr (.inr (.inr (.inl ⟨hq, ht, ?_⟩)))
        simp [slipInputCallback, hq, hne, ht, gotRequest]
    · refine .inr (.inr (.inr (.inr ⟨h, hq, ?_⟩)))
      simp [slipInputCallback, h, hq]

theorem good_slipInput (hP : P.Documented) (s : State w) {p : Message} (hp : p.Typed) :
    ∀ i ∈ (slipInputCallback P (s.load p.bytes)).2, i.Good := by
  obtain ⟨bytes, hne, hlen⟩ := p
  obtain ⟨c, cs, rfl⟩ := List.exists_cons_of_ne_nil hne
  have hhead : (s.uipBuf.put 0 (c :: cs)).byte 0 = c := Buffer.byte_put _ hlen (by simp)
  have htype : ∀ label : List Char, label.all isText = true →
      c = toByte '!' ∨ c = toByte '?' →
      (Item.print (str label ++ [(s.uipBuf.put 0 (c :: cs)).byte 1] ++ str (lit "\n"))).Good := by
    intro label hlabel hc
    obtain ⟨type, rest, rfl, hplain⟩ := hp c cs rfl hc
    rw [Buffer.byte_put _ hlen (by simp)]
    exact good_type hlabel hplain
  rcases slipInputCallback_cases P (s.load (c :: cs)) with ⟨hc, -, h⟩ | ⟨hc, -, h⟩ | ⟨hc, -, h⟩ |
      ⟨hc, -, h⟩ | ⟨-, -, h⟩ <;> rw [h]
  · refine List.forall_mem_cons.2 ⟨htype _ rfl (.inl (hhead.symm.trans hc)),
      List.forall_mem_singleton.2 ⟨whole_str rfl, plain_str ?_⟩⟩
    rw [List.all_append, List.all_append, isText_of_isGraphic (hP.print6addr _)]
    rfl
  · exact List.forall_mem_singleton.2 (htype _ rfl (.inl (hhead.symm.trans hc)))
  · refine List.forall_mem_cons.2 ⟨htype _ rfl (.inr (hhead.symm.trans hc)),
      List.forall_mem_singleton.2 ?_⟩
    exact List.cons_ne_nil _ _
  · exact List.forall_mem_singleton.2 (htype _ rfl (.inr (hhead.symm.trans hc)))
  · simp

/-- What one step prints and sends. -/
theorem good_step (hP : P.Documented) {s s' : State w} {e : Event w} {t : Trace (Event w) Item}
    {items : List Item} (hc : Typed t s e) (h : step P v s e = .ok (s', items)) :
    ∀ i ∈ items, i.Good := by
  cases e with
  | resume addrs =>
    have h := Except.ok.inj h
    simp only [resume] at h
    split at h
    · cases h
      simp
    · split at h
      · cases h
        exact List.forall_mem_cons.2 ⟨good_addrs hP addrs, List.forall_mem_singleton.2
          ⟨whole_str rfl, plain_str (by simp only [List.all_append, isText_dec]; rfl)⟩⟩
      · cases h
        exact List.forall_mem_singleton.2 (good_send (by simp))
  | slipInput p =>
    cases h
    exact good_slipInput hP s hc
  | output p =>
    cases h
    rw [output]
    split
    · simp
    · refine List.forall_mem_singleton.2 (good_send ?_)
      exact Nat.ne_of_gt (Nat.lt_of_lt_of_le (by decide) p.length_ge)
  | stack b len =>
    cases h
    simp
  | datagram e =>
    have h := Except.ok.inj h
    simp only [datagram] at h
    split at h
    · split at h
      · rename_i f _
        cases f
      · cases h
        intro i hi
        obtain ⟨o, -, rfl⟩ := List.mem_map.1 hi
        exact good_text hP o
    · cases h
      simp

theorem good_outputs (hP : P.Documented) {s₀ s : State w} {t : Trace (Event w) Item}
    (hr : (machine P v w).RunIf Typed s₀ t s) : ∀ i ∈ t.outputs, i.Good := by
  refine hr.invariant (P := fun t _ => ∀ i ∈ t.outputs, i.Good) (by simp) ?_
  intro t s e s' items hall hc hs
  rw [Trace.outputs_snoc]
  exact List.forall_mem_append.2 ⟨hall, good_step hP hc hs⟩

/-- In every run the line carries the lines printed and the packets sent, whole and in order. -/
theorem frames_exact (hP : P.Documented) {s₀ s : State w} {t : Trace (Event w) Item}
    (hr : (machine P v w).RunIf Typed s₀ t s) :
    Slip.decode (uart P false t.outputs).2 = t.outputs.flatMap Item.frames ∧
      (uart P false t.outputs).1 = false :=
  ⟨decode_uart hP (good_outputs hP hr), by rw [uart_frames hP (good_outputs hP hr)]⟩

end

/-! ### A border router -/

/-- The groups of an address. -/
def ipWords (a : IpAddr) : List (BitVec 16) :=
  (List.range 8).map fun i => a.toList.getD (2 * i) 0 ++ a.toList.getD (2 * i + 1) 0

def board : Platform where
  slipSend := Slip.encode
  print6addr a := Ipaddr.ipaddrLoop 0 0 (ipWords a)
  longHex x := List.replicate (8 - (hex x.toNat).length) '0' ++ hex x.toNat
  clockTimeAddr := 0x0800a101
  uipLladdr := #v[2, 0, 0, 0, 0, 0, 0x10, 0x62]

theorem isGraphic_ipaddrLoop (i : Nat) (f : Int) (ws : List (BitVec 16)) :
    (Ipaddr.ipaddrLoop i f ws).all isGraphic = true := by
  induction ws generalizing i f with
  | nil => rfl
  | cons a ws ih =>
    have hcolon : (if 0 < i then [':'] else []).all isGraphic = true := by split <;> rfl
    rw [Ipaddr.ipaddrLoop]
    split
    · rw [List.all_append, ih]
      split <;> rfl
    · rw [List.all_append, List.all_append, ih, isGraphic_toDigits (by decide) (by decide)]
      split
      · rfl
      · rw [hcolon]
        rfl

theorem board_documented : board.Documented where
  slipSend _ := rfl
  print6addr a := isGraphic_ipaddrLoop 0 0 _
  longHex x := by
    have hzero : ∀ n, (List.replicate n '0').all isGraphic = true := fun n => by
      simp only [List.all_replicate]
      split <;> rfl
    have hhex : (hex x.toNat).all isGraphic = true :=
      isGraphic_toDigits (by decide) (by decide) _
    simp only [board, List.all_append, hzero, hhex, Bool.and_self]

def boot (router : BorderRouter.State 32) : State 32 :=
  start (fun _ => 0) 0 (Vector.replicate 16 0) (Vector.replicate 16 0) router

/-- The message that sets the prefix to fd00::. -/
def prefixMessage : Message where
  bytes := [toByte '!', toByte 'P', 0xfd, 0, 0, 0, 0, 0, 0, 0]
  ne_nil := List.cons_ne_nil _ _
  length_le := Nat.le_of_ble_eq_true rfl

theorem prefixMessage_typed : prefixMessage.Typed := by
  rintro c cs ⟨rfl, rfl⟩ -
  exact ⟨_, _, rfl, by decide, by decide⟩

/-- The border router asks for its prefix, is given it, and starts. -/
theorem boot_run {C : Trace (Event 32) Item → State 32 → Event 32 → Prop}
    (hresume : ∀ t s, C t s (.resume [])) (hset : ∀ t s, C t s (.slipInput prefixMessage))
    (router : BorderRouter.State 32) : ∃ t s,
    (machine board 32 32).RunIf C (boot router) t s ∧ s.phase = .running ∧
      t.map Prod.fst = [.resume [], .slipInput prefixMessage, .resume []] ∧
      ∃ items, t.outputs = .send [toByte '?', toByte 'P'] :: items :=
  ⟨_, _, .next (.next (.next .start (hresume _ _) rfl) (hset _ _) rfl) (hresume _ _) rfl, rfl,
    rfl, _, rfl⟩

/-- The request for the prefix is the first frame. -/
theorem frames_exact_boot : ∃ t s, (machine board 32 32).Run (boot ⟨0, 0, 0, 0, 0⟩) t s ∧
    ∃ fs, Slip.decode (uart board false t.outputs).2 = [toByte '?', toByte 'P'] :: fs := by
  obtain ⟨t, s, hr, -, -, items, hout⟩ := boot_run (C := Typed) (fun _ _ => trivial)
    (fun _ _ => prefixMessage_typed) ⟨0, 0, 0, 0, 0⟩
  have hframes := (frames_exact board_documented hr).1
  rw [hout] at hframes
  exact ⟨t, s, hr.run, _, by rw [hout]; exact hframes⟩

end SerialLine
end Swarna
