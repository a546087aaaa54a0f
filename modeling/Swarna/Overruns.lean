import Swarna.LineRuns

/-!
# Swarna.Overruns

The tables of the verifier: `map`, and `node_addr` in `rpkt` and `local_rpkt`. Rows and ids come
from files, and `node_index` moves with the datagrams.

* `NeverOverrun`: for a map file and a request file, whatever datagrams come.
* `never_overrun_iff`: it is so exactly when the table has room for the map file, and no line that
  is reached has more ids than the array.
* `shipped_map_overruns`: the map file of the repository has ten rows.
-/

namespace Swarna
namespace Verifier

open CString

section

variable (L : Libc)

/-- `rpkt.size` is the number of ids on the line read last. -/
def Counted (file : List (List Char)) : Process → List Request → Prop
  | .running s, _ => ∃ before toks fp, s.fp = some fp ∧
      tokenLines L file = before ++ toks :: tokenLines L fp ∧
      s.localRpkt.size.toNat = toks.length
  | .exited _, _ => True

def NeverOverrun (f : MapFile) (text : List Char) : Prop :=
  Throughout L (Counted L (fgetsAll lineSize text)) (main L (some f.text) (some text))

end

variable {L : Libc} {file : List (List Char)}

theorem fits_invariant (L : Libc) (m : NodeMap) :
    LineInvariant L m (fun toks => toks.length ≤ maxIds) fun _ _ _ _ => True :=
  ⟨fun h => h, fun _ _ _ => trivial, fun _ _ _ _ _ => trivial, fun _ _ => trivial⟩

/-- `size` is one byte, and the array has fewer places. -/
theorem counted_of_inside {m : NodeMap} {P : List (List Char) → Prop}
    {J : List (List Char) → Nat → State → List Request → Prop}
    (r : Except Fault (Process × List Request)) (h : Inside L m P J file r) :
    Sound (Counted L file) r := by
  cases r with
  | error f => exact h
  | ok x =>
    obtain ⟨p, out⟩ := x
    cases p with
    | exited code => trivial
    | running s =>
      obtain ⟨toks, fp, k, hr, ⟨before, hb⟩, -, -⟩ := h
      have hmax : maxIds = 150 := rfl
      have hfits := hr.fits
      refine ⟨before, toks, fp, hr.fp, hb, ?_⟩
      rw [hr.size, BitVec.toNat_ofNat, Nat.mod_eq_of_lt (by omega)]

theorem never_overrun_iff (L : Libc) (f : MapFile) (text : List Char) :
    NeverOverrun L f text ↔ Room f.rows maxNodes ∧
      ((∀ r ∈ f.rows, r.Whole) → EachReached (fun toks => toks.length ≤ maxIds)
        (tokenLines L (fgetsAll lineSize text))) := by
  exact throughout_main_iff f text (fun m _ => fits_invariant L m) (fun _ _ => counted_of_inside)
    fun _ _ {_ _ _ _} _ hr _ _ _ => hr.fits

/-! ## The map file of the repository -/

def shippedMap : MapFile where
  rows := [plainRow "109" "fd00::1062" (by decide),
    plainRow "112" "fd00::a578" (by decide),
    plainRow "113" "fd00::a671" (by decide),
    plainRow "116" "fd00::8969" (by decide),
    plainRow "117" "fd00::2262" (by decide),
    plainRow "120" "fd00::a469" (by decide),
    plainRow "121" "fd00::8572" (by decide),
    plainRow "124" "fd00::9772" (by decide),
    plainRow "125" "fd00::9672" (by decide),
    plainRow "128" "fd00::9980" (by decide)]
  ended := by decide

theorem shipped_map_overruns :
    (∃ e, main (hostLibc intMax) (some shippedMap.text) (some "109\n".toList) = .error e ∧
      e.overruns = true) ∧ ¬ NeverOverrun (hostLibc intMax) shippedMap "109\n".toList := by
  have hrows : ¬ Room shippedMap.rows (maxNodes - NodeMap.empty.entries.length) :=
    fun h => absurd h.rows (by decide)
  obtain ⟨e, hmain, he⟩ : ∃ e, main (hostLibc intMax) (some shippedMap.text)
      (some "109\n".toList) = .error e ∧ e.overruns = true := by
    have hloaded := loadMap_text (L := hostLibc intMax) shippedMap
    rw [main]
    generalize loadMap (hostLibc intMax) (fgetsAll lineSize shippedMap.text) .empty = r at hloaded ⊢
    cases hloaded with
    | table _ hroom _ _ | broken hroom _ => exact absurd hroom hrows
    | overrun e _ he => exact ⟨e, rfl, he⟩
  refine ⟨⟨e, hmain, he⟩, fun h => ?_⟩
  rw [NeverOverrun, hmain] at h
  have hsound : e.overruns = false := h.here
  rw [he] at hsound
  cases hsound

end Verifier
end Swarna
