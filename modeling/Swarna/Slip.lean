import Mathlib.Data.BitVec
import Mathlib.Data.List.Basic

/-!
# Swarna.Slip

Packets on a serial line: SLIP. An `END` stands before and after each packet; an `END` or `ESC` of
the packet is sent as two bytes.

* `encode`, `decode`: the bytes of a packet, and the packets in a stream of bytes.
* `decode_encode`: packets sent one after the other are read as they were.
* `encode_plain`: a packet without special bytes is sent as it is.
-/

namespace Swarna
namespace Slip

abbrev Byte := BitVec 8

/-- `SLIP_END`, octal 300. -/
def slipEnd : Byte := 192
def slipEsc : Byte := 219
def slipEscEnd : Byte := 220
def slipEscEsc : Byte := 221

def escape (b : Byte) : List Byte :=
  if b = slipEnd then [slipEsc, slipEscEnd]
  else if b = slipEsc then [slipEsc, slipEscEsc]
  else [b]

def encode (p : List Byte) : List Byte := slipEnd :: (p.flatMap escape ++ [slipEnd])

/-- The packets read so far, the bytes of the next one, and whether an `ESC` was read last. -/
structure Reader where
  done : List (List Byte)
  cur : List Byte
  esc : Bool
  deriving DecidableEq, Repr

namespace Reader

def init : Reader := ⟨[], [], false⟩

/-- Nothing between two `END` is no packet. -/
def read (r : Reader) (b : Byte) : Reader :=
  if b = slipEnd then ⟨if r.cur = [] then r.done else r.done ++ [r.cur], [], false⟩
  else if r.esc then
    { r with
      cur := r.cur ++ [if b = slipEscEnd then slipEnd else if b = slipEscEsc then slipEsc else b]
      esc := false }
  else if b = slipEsc then { r with esc := true }
  else { r with cur := r.cur ++ [b] }

end Reader

def decode (bs : List Byte) : List (List Byte) := (bs.foldl Reader.read .init).done

theorem read_escape (done : List (List Byte)) (cur : List Byte) (b : Byte) :
    (escape b).foldl Reader.read ⟨done, cur, false⟩ = ⟨done, cur ++ [b], false⟩ := by
  rw [escape]
  split
  · rename_i hb
    subst hb
    rfl
  · split
    · rename_i hb
      subst hb
      rfl
    · rename_i hend hesc
      simp [Reader.read, hend, hesc]

theorem read_packet (done : List (List Byte)) (cur p : List Byte) :
    (p.flatMap escape).foldl Reader.read ⟨done, cur, false⟩ = ⟨done, cur ++ p, false⟩ := by
  induction p generalizing cur with
  | nil => rw [List.append_nil]; rfl
  | cons b p ih =>
    rw [List.flatMap_cons, List.foldl_append, read_escape, ih, List.append_assoc]
    rfl

/-- A packet is read whole. -/
theorem read_encode (done : List (List Byte)) {p : List Byte} (hp : p ≠ []) :
    (encode p).foldl Reader.read ⟨done, [], false⟩ = ⟨done ++ [p], [], false⟩ := by
  have hstart : Reader.read ⟨done, [], false⟩ slipEnd = ⟨done, [], false⟩ := rfl
  rw [encode, List.foldl_cons, hstart, List.foldl_append, read_packet, List.nil_append]
  simp [Reader.read, hp]

theorem decode_encode {ps : List (List Byte)} (hps : ∀ p ∈ ps, p ≠ []) :
    decode (ps.flatMap encode) = ps := by
  have hall : ∀ done, (ps.flatMap encode).foldl Reader.read ⟨done, [], false⟩ =
      ⟨done ++ ps, [], false⟩ := by
    induction ps with
    | nil => exact fun done => by rw [List.append_nil]; rfl
    | cons p ps ih =>
      intro done
      obtain ⟨hp, hps⟩ := List.forall_mem_cons.1 hps
      rw [List.flatMap_cons, List.foldl_append, read_encode done hp, ih hps, List.append_assoc]
      rfl
  rw [decode, Reader.init, hall, List.nil_append]

/-- A byte that is sent as it is. -/
def Plain (b : Byte) : Prop := b ≠ slipEnd ∧ b ≠ slipEsc

theorem escape_plain {b : Byte} (h : Plain b) : escape b = [b] := by
  rw [escape, if_neg h.1, if_neg h.2]

theorem flatMap_escape {p : List Byte} (hp : ∀ b ∈ p, Plain b) : p.flatMap escape = p := by
  induction p with
  | nil => rfl
  | cons b p ih =>
    obtain ⟨hb, hp⟩ := List.forall_mem_cons.1 hp
    rw [List.flatMap_cons, escape_plain hb, ih hp]
    rfl

theorem encode_plain {p : List Byte} (hp : ∀ b ∈ p, Plain b) :
    encode p = slipEnd :: (p ++ [slipEnd]) := by
  rw [encode, flatMap_escape hp]

end Slip
end Swarna
