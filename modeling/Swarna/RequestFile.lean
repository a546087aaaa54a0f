import Swarna.VerifierSpec

/-!
# Swarna.RequestFile

Request files as they are written: run numbers, numbers of faulty nodes, lines of stars and lines
of node ids (`FileLine`, `RequestFile`).

* `classify_runNo`, `classify_faultyNodes`, `classify_stars`, `classify_nodes`: what the verifier
  takes each kind of line for.
* `rounds_text`: it reads from the text of a file what was written into it (`nodeLines`).
-/

namespace Swarna
namespace Verifier

open CString

/-! ## Request files -/

structure Numeral where
  digits : List Char
  ne_nil : digits ≠ []
  isDigit : ∀ c ∈ digits, c.isDigit = true

def Numeral.value (n : Numeral) : Nat := Nat.ofDigitChars 10 n.digits 0

inductive Separator where
  | comma
  | blank
  deriving DecidableEq, Repr

def Separator.text : Separator → List Char
  | .comma => [',', ' ']
  | .blank => [' ']

/-- A line that the reader skips for its stars. -/
structure Stars where
  text : List Char
  stars : "****".toList <:+: text
  not_runNo : strstr text "Run_no".toList = false
  not_faulty : strstr text "faulty_nodes".toList = false
  no_newline : '\n' ∉ text
  no_nul : '\x00' ∉ text

inductive FileLine where
  | runNo (r : Numeral)
  | faultyNodes (f : Numeral)
  | stars (s : Stars)
  | nodes (first : Numeral) (rest : List (Separator × Numeral))

def FileLine.text : FileLine → List Char
  | .runNo r => "Run_no: ".toList ++ r.digits
  | .faultyNodes f => "faulty_nodes: ".toList ++ f.digits
  | .stars s => s.text
  | .nodes first rest => first.digits ++ rest.flatMap fun x => x.1.text ++ x.2.digits

@[simp] theorem FileLine.text_runNo (r : Numeral) :
    (FileLine.runNo r).text = "Run_no: ".toList ++ r.digits := rfl

@[simp] theorem FileLine.text_faultyNodes (f : Numeral) :
    (FileLine.faultyNodes f).text = "faulty_nodes: ".toList ++ f.digits := rfl

@[simp] theorem FileLine.text_stars (s : Stars) : (FileLine.stars s).text = s.text := rfl

@[simp] theorem FileLine.text_nodes (first : Numeral) (rest : List (Separator × Numeral)) :
    (FileLine.nodes first rest).text =
      first.digits ++ rest.flatMap fun x => x.1.text ++ x.2.digits := rfl

/-- Every line fits the buffer with its newline, which the last may lack. -/
structure RequestFile where
  lines : List FileLine
  last : Option FileLine
  short : ∀ l ∈ lines, l.text.length + 1 < lineSize
  last_short : ∀ l ∈ last, l.text.length < lineSize

namespace RequestFile

def all (f : RequestFile) : List FileLine := f.lines ++ f.last.toList

def text (f : RequestFile) : List Char :=
  f.lines.flatMap (fun l => l.text ++ ['\n']) ++ f.last.toList.flatMap FileLine.text

end RequestFile

/-- The lines of node ids, each with the number of the last `Run_no` line before it. -/
def nodeLines : List FileLine → (runNo : Nat) → List (Nat × List Nat)
  | [], _ => []
  | .runNo r :: ls, _ => nodeLines ls r.value
  | .nodes first rest :: ls, n =>
    (n, (first :: rest.map Prod.snd).map Numeral.value) :: nodeLines ls n
  | .faultyNodes _ :: ls, n => nodeLines ls n
  | .stars _ :: ls, n => nodeLines ls n

/-! ## What is read -/

theorem digit_notMem {c : Char} (hc : c.isDigit = true) {l : List Char}
    (hl : ∀ d ∈ l, d.isDigit = false) : c ∉ l := by
  intro h
  rw [hl c h] at hc
  cases hc

/-- The end of a line as `fgets` returns it. -/
def LineEnd (tail : List Char) : Prop := tail = [] ∨ tail = ['\n']

theorem Numeral.token_notMem (n : Numeral) {tail : List Char} (ht : LineEnd tail)
    {delims : List Char} (hd : ∀ d ∈ delims, d.isDigit = false) (hnl : '\n' ∉ delims) :
    ∀ c ∈ n.digits ++ tail, c ∉ delims := by
  intro c hc
  rcases List.mem_append.1 hc with hc | hc
  · exact digit_notMem (n.isDigit c hc) hd
  · rcases ht with rfl | rfl
    · cases hc
    · rw [List.mem_singleton.1 hc]
      exact hnl

theorem LineEnd.head_not_digit {tail : List Char} (ht : LineEnd tail) :
    ∀ c ∈ tail.head?, c.isDigit = false := by
  rcases ht with rfl | rfl
  · intro c hc
    cases hc
  · intro c hc
    cases hc
    rfl

section

variable {L : Libc}

theorem Numeral.atoi_eq (hlong : intMax ≤ L.longMax) (n : Numeral) (hn : n.value ≤ intMax)
    {tail : List Char} (ht : ∀ c ∈ tail.head?, c.isDigit = false) :
    atoi L.longMax (n.digits ++ tail) = n.value :=
  atoi_digits hlong n.ne_nil n.isDigit ht hn

/-- `atoi` of the digits alone. -/
theorem Numeral.atoi_alone (hlong : intMax ≤ L.longMax) (n : Numeral) (hn : n.value ≤ intMax) :
    atoi L.longMax n.digits = n.value := by
  have h := n.atoi_eq hlong hn (LineEnd.head_not_digit (.inl rfl))
  rwa [List.append_nil] at h

/-- The number after a label such as `Run_no`. -/
theorem secondToken_numeral {label : List Char} (hne : label ≠ [])
    (hlabel : ∀ c ∈ label, c ∉ ": ".toList) (n : Numeral) {tail : List Char} (ht : LineEnd tail) :
    secondToken ": ".toList (label ++ (": ".toList ++ (n.digits ++ tail))) =
      some (n.digits ++ tail) := by
  have hfirst : strtok ": ".toList (label ++ (": ".toList ++ (n.digits ++ tail))) =
      some (label, ' ' :: (n.digits ++ tail)) :=
    strtok_token hne hlabel fun c hc => by
      cases hc
      decide
  have hsecond : strtok ": ".toList (n.digits ++ tail) = some (n.digits ++ tail, []) :=
    strtok_end (by simp [n.ne_nil]) (n.token_notMem ht (by simp) (by simp))
  simp only [secondToken, hfirst]
  rw [strtok_delim (by decide), hsecond]
  rfl

/-- The ids of a line of node ids. -/
theorem nodeIds_text (hlong : intMax ≤ L.longMax) (first : Numeral)
    (rest : List (Separator × Numeral)) {tail : List Char} (ht : LineEnd tail)
    (hmax : ∀ n ∈ first :: rest.map Prod.snd, n.value ≤ intMax) :
    nodeIds L (strtokAll ", ".toList ((FileLine.nodes first rest).text ++ tail)) =
      ((first :: rest.map Prod.snd).map Numeral.value).map (BitVec.ofNat 8) := by
  induction rest generalizing first with
  | nil =>
    have hstr : strtokAll ", ".toList (first.digits ++ tail) = [first.digits ++ tail] :=
      strtokAll_end (by simp [first.ne_nil]) (first.token_notMem ht (by simp) (by simp))
    have hatoi := first.atoi_eq hlong (hmax first (List.mem_cons_self ..)) ht.head_not_digit
    simp only [FileLine.text_nodes, List.flatMap_nil, List.append_nil, hstr, nodeIds, List.map_cons,
      List.map_nil, hatoi, BitVec.ofInt_natCast]
  | cons x rest ih =>
    obtain ⟨sep, n⟩ := x
    have hrest := ih n fun n' hn' => hmax n' (List.mem_cons_of_mem _ hn')
    have hdigits : ∀ c ∈ first.digits, c ∉ ", ".toList := fun c hc =>
      digit_notMem (first.isDigit c hc) (by simp)
    have htext : (FileLine.nodes first ((sep, n) :: rest)).text ++ tail =
        first.digits ++ (sep.text ++ ((FileLine.nodes n rest).text ++ tail)) := by
      simp
    have hstr : strtokAll ", ".toList ((FileLine.nodes first ((sep, n) :: rest)).text ++ tail) =
        first.digits :: strtokAll ", ".toList ((FileLine.nodes n rest).text ++ tail) := by
      rw [htext]
      cases sep with
      | comma =>
        rw [strtokAll_token first.ne_nil hdigits fun c hc => by cases hc; decide]
        exact congrArg _ (strtokAll_delim (by decide) _)
      | blank =>
        rw [strtokAll_token first.ne_nil hdigits fun c hc => by cases hc; decide]
        rfl
    have hatoi := first.atoi_alone hlong (hmax first (List.mem_cons_self ..))
    rw [hstr, nodeIds, List.map_cons, ← nodeIds, hrest, hatoi, BitVec.ofInt_natCast]
    rfl

theorem nodes_char {first : Numeral} {rest : List (Separator × Numeral)} {c : Char}
    (hc : c ∈ (FileLine.nodes first rest).text) : c.isDigit = true ∨ c = ',' ∨ c = ' ' := by
  rw [FileLine.text_nodes] at hc
  rcases List.mem_append.1 hc with hc | hc
  · exact .inl (first.isDigit c hc)
  · obtain ⟨⟨sep, n⟩, -, hc⟩ := List.mem_flatMap.1 hc
    rcases List.mem_append.1 hc with hc | hc
    · cases sep <;> simp only [Separator.text, List.mem_cons, List.not_mem_nil, or_false] at hc
      · exact .inr hc
      · exact .inr (.inr hc)
    · exact .inl (n.isDigit c hc)

/-- A line of the file is one line, and one string. -/
theorem control_notMem (l : FileLine) {c : Char} (hc : c ∈ ['\n', '\x00']) : c ∉ l.text := by
  have hdigit : ∀ c ∈ ['\n', '\x00'], c.isDigit = false := by simp
  have hnum : ∀ n : Numeral, c ∉ n.digits := fun n h =>
    digit_notMem (n.isDigit c h) hdigit hc
  intro h
  cases l with
  | runNo r =>
    have hlabel : ∀ c ∈ ['\n', '\x00'], c ∉ "Run_no: ".toList := by simp
    rcases List.mem_append.1 h with h | h
    · exact hlabel c hc h
    · exact hnum r h
  | faultyNodes f =>
    have hlabel : ∀ c ∈ ['\n', '\x00'], c ∉ "faulty_nodes: ".toList := by simp
    rcases List.mem_append.1 h with h | h
    · exact hlabel c hc h
    · exact hnum f h
  | stars s =>
    rcases List.mem_cons.1 hc with rfl | hc
    · exact s.no_newline h
    · rw [List.mem_singleton.1 hc] at h
      exact s.no_nul h
  | nodes first rest =>
    have hsep : ∀ c ∈ ['\n', '\x00'], c ≠ ',' ∧ c ≠ ' ' := by simp
    rcases nodes_char h with hd | hd | hd
    · rw [hdigit c hc] at hd
      cases hd
    · exact (hsep c hc).1 hd
    · exact (hsep c hc).2 hd

theorem cstr_line (l : FileLine) {tail : List Char} (ht : LineEnd tail) :
    cstr (l.text ++ tail) = l.text ++ tail := by
  refine cstr_eq fun h => ?_
  rcases List.mem_append.1 h with h | h
  · exact control_notMem l (by decide) h
  · rcases ht with rfl | rfl
    · cases h
    · exact absurd h (by decide)

theorem classify_runNo (hlong : intMax ≤ L.longMax) (r : Numeral) (hr : r.value ≤ intMax)
    {tail : List Char} (ht : LineEnd tail) :
    classify L ((FileLine.runNo r).text ++ tail) = .ok (.runNo r.value) := by
  have hlabel : "Run_no: ".toList = "Run_no".toList ++ ": ".toList := by decide
  have hfound : strstr ((FileLine.runNo r).text ++ tail) "Run_no".toList = true := by
    rw [strstr_iff, FileLine.text_runNo, hlabel]
    exact ⟨[], ": ".toList ++ (r.digits ++ tail), by simp⟩
  have htok : secondToken ": ".toList ((FileLine.runNo r).text ++ tail) =
      some (r.digits ++ tail) := by
    rw [FileLine.text_runNo, hlabel, List.append_assoc, List.append_assoc]
    exact secondToken_numeral (by decide) (by simp) r ht
  rw [classify, if_pos hfound, htok]
  simp only [r.atoi_eq hlong hr ht.head_not_digit]

theorem classify_faultyNodes (f : Numeral) {tail : List Char} (ht : LineEnd tail) :
    classify L ((FileLine.faultyNodes f).text ++ tail) = .ok .ignored := by
  have hlabel : "faulty_nodes: ".toList = "faulty_nodes".toList ++ ": ".toList := by decide
  have hR : 'R' ∉ (FileLine.faultyNodes f).text ++ tail := by
    intro h
    rw [FileLine.text_faultyNodes, List.append_assoc] at h
    rcases List.mem_append.1 h with h | h
    · exact absurd h (by decide)
    · exact f.token_notMem ht (by simp) (by simp) _ h (List.mem_singleton_self 'R')
  have hfound : strstr ((FileLine.faultyNodes f).text ++ tail) "faulty_nodes".toList = true := by
    rw [strstr_iff, FileLine.text_faultyNodes, hlabel]
    exact ⟨[], ": ".toList ++ (f.digits ++ tail), by simp⟩
  have htok : secondToken ": ".toList ((FileLine.faultyNodes f).text ++ tail) =
      some (f.digits ++ tail) := by
    rw [FileLine.text_faultyNodes, hlabel, List.append_assoc, List.append_assoc]
    exact secondToken_numeral (by decide) (by simp) f ht
  have hnot := strstr_eq_false (show 'R' ∈ "Run_no".toList by decide) hR
  rw [classify, if_neg (by rw [hnot]; decide), if_pos hfound, htok]

theorem classify_stars (s : Stars) {tail : List Char} (ht : LineEnd tail) :
    classify L ((FileLine.stars s).text ++ tail) = .ok .ignored := by
  have hsame : ∀ sub : List Char, sub ≠ [] → '\n' ∉ sub →
      strstr (s.text ++ tail) sub = strstr s.text sub := by
    intro sub hne hnl
    rcases ht with rfl | rfl
    · rw [List.append_nil]
    · exact strstr_snoc hne hnl
  rw [FileLine.text_stars, classify, if_neg, if_neg, if_pos]
  · rw [hsame _ (by decide) (by decide), strstr_iff]
    exact s.stars
  · rw [hsame _ (by decide) (by decide), s.not_faulty]
    decide
  · rw [hsame _ (by decide) (by decide), s.not_runNo]
    decide

theorem classify_nodes (first : Numeral) (rest : List (Separator × Numeral)) {tail : List Char}
    (ht : LineEnd tail) : classify L ((FileLine.nodes first rest).text ++ tail) =
      .ok (.nodes (strtokAll ", ".toList ((FileLine.nodes first rest).text ++ tail))) := by
  have hnot : ∀ c ∈ ['R', 'f', '*'], c ∉ (FileLine.nodes first rest).text ++ tail := by
    intro c hc h
    have hdigit : ∀ c ∈ ['R', 'f', '*'], c.isDigit = false ∧ c ≠ ',' ∧ c ≠ ' ' ∧ c ≠ '\n' := by
      simp
    obtain ⟨h₁, h₂, h₃, h₄⟩ := hdigit c hc
    rcases List.mem_append.1 h with h | h
    · rcases nodes_char h with hd | hd | hd
      · rw [h₁] at hd
        cases hd
      · exact h₂ hd
      · exact h₃ hd
    · rcases ht with rfl | rfl
      · cases h
      · exact h₄ (List.mem_singleton.1 h)
  have hno : ∀ sub : List Char, ∀ c ∈ ['R', 'f', '*'], c ∈ sub →
      ¬ strstr ((FileLine.nodes first rest).text ++ tail) sub = true := by
    intro sub c hc hsub
    rw [strstr_eq_false hsub (hnot c hc)]
    decide
  rw [classify, if_neg (hno _ 'R' (by decide) (by decide)),
    if_neg (hno _ 'f' (by decide) (by decide)), if_neg (hno _ '*' (by decide) (by decide))]

/-! ## The whole file -/

/-- The numbers of a line that count. -/
def FileLine.numbers : FileLine → List Numeral
  | .runNo r => [r]
  | .nodes first rest => first :: rest.map Prod.snd
  | .faultyNodes _ => []
  | .stars _ => []

/-- A line of node ids as the verifier has it. -/
def toRound (x : Nat × List Nat) : Round := ⟨x.1, x.2.map (BitVec.ofNat 8)⟩

theorem rounds_cons (hlong : intMax ≤ L.longMax) {l : FileLine} {tail : List Char}
    (ht : LineEnd tail) (hl : ∀ n ∈ l.numbers, n.value ≤ intMax) {fp : List (List Char)}
    {ls : List FileLine} (ih : ∀ r : Nat, rounds L fp r = (nodeLines ls r).map toRound) (r : Nat) :
    rounds L ((l.text ++ tail) :: fp) r = (nodeLines (l :: ls) r).map toRound := by
  rw [rounds, cstr_line l ht]
  cases l with
  | runNo n =>
    simp only [classify_runNo hlong n (hl n (List.mem_cons_self ..)) ht]
    exact ih n.value
  | faultyNodes f =>
    simp only [classify_faultyNodes f ht]
    exact ih r
  | stars s =>
    simp only [classify_stars s ht]
    exact ih r
  | nodes first rest =>
    simp only [classify_nodes first rest ht]
    rw [nodeIds_text hlong first rest ht hl, ih r]
    rfl

theorem text_ne_nil (l : FileLine) : l.text ≠ [] := by
  cases l with
  | runNo r => simp
  | faultyNodes f => simp
  | stars s =>
    intro h
    have := s.stars
    rw [FileLine.text_stars] at h
    rw [h] at this
    exact absurd (List.eq_nil_of_infix_nil this) (by decide)
  | nodes first rest => simp [first.ne_nil]

/-- The lines of the file, as they are read. -/
theorem fgetsAll_text (f : RequestFile) : fgetsAll lineSize f.text =
    f.lines.map (fun l => l.text ++ ['\n']) ++ f.last.toList.map FileLine.text := by
  obtain ⟨lines, last, hshort, hlast⟩ := f
  simp only [RequestFile.text]
  induction lines with
  | nil =>
    cases last with
    | none => exact readAll_none rfl
    | some l =>
      simp only [List.flatMap_nil, List.nil_append, Option.toList_some, List.flatMap_singleton]
      exact fgetsAll_end (control_notMem l (by decide)) (text_ne_nil l) (hlast l rfl)
  | cons l lines ih =>
    rw [List.flatMap_cons, List.append_assoc, List.append_assoc, List.singleton_append,
      fgetsAll_line _ (control_notMem l (by decide)) (hshort l (List.mem_cons_self ..)),
      ih fun l' hl' => hshort l' (List.mem_cons_of_mem _ hl')]
    rfl

theorem rounds_text (hlong : intMax ≤ L.longMax) (f : RequestFile)
    (hf : ∀ l ∈ f.all, ∀ n ∈ l.numbers, n.value ≤ intMax) :
    rounds L (fgetsAll lineSize f.text) 0 = (nodeLines f.all 0).map toRound := by
  rw [fgetsAll_text]
  obtain ⟨lines, last, hshort, hlast⟩ := f
  simp only [RequestFile.all] at hf ⊢
  have hend : ∀ r : Nat, rounds L (last.toList.map FileLine.text) r =
      (nodeLines last.toList r).map toRound := by
    intro r
    cases last with
    | none => rfl
    | some l =>
      have hnil : ∀ r : Nat, rounds L [] r = (nodeLines [] r).map toRound := fun _ => rfl
      have hl := rounds_cons hlong (.inl rfl) (hf l (by simp)) hnil r
      rwa [List.append_nil] at hl
  suffices h : ∀ r : Nat, rounds L (lines.map (fun l => l.text ++ ['\n']) ++
      last.toList.map FileLine.text) r = (nodeLines (lines ++ last.toList) r).map toRound from h 0
  clear hshort
  induction lines with
  | nil => exact hend
  | cons l lines ih =>
    intro r
    exact rounds_cons hlong (.inr rfl) (hf l (List.mem_cons_self ..))
      (ih fun l' hl' => hf l' (List.mem_cons_of_mem _ hl')) r

theorem not_breaks (hlong : intMax ≤ L.longMax) (f : RequestFile)
    (hf : ∀ l ∈ f.all, ∀ n ∈ l.numbers, n.value ≤ intMax) (e : Fault) :
    ¬ Breaks L (fgetsAll lineSize f.text) e := by
  have hok : ∀ l ∈ f.all, ∀ tail, LineEnd tail →
      ∃ x, classify L (cstr (l.text ++ tail)) = .ok x := by
    intro l hl tail ht
    rw [cstr_line l ht]
    cases l with
    | runNo r => exact ⟨_, classify_runNo hlong r (hf _ hl r (List.mem_cons_self ..)) ht⟩
    | faultyNodes f => exact ⟨_, classify_faultyNodes f ht⟩
    | stars s => exact ⟨_, classify_stars s ht⟩
    | nodes first rest => exact ⟨_, classify_nodes first rest ht⟩
  rintro ⟨line, hline, he⟩
  rw [fgetsAll_text] at hline
  rcases List.mem_append.1 hline with hline | hline
  · obtain ⟨l, hl, rfl⟩ := List.mem_map.1 hline
    obtain ⟨x, hx⟩ := hok l (List.mem_append_left _ hl) _ (.inr rfl)
    rw [hx] at he
    cases he
  · obtain ⟨l, hl, rfl⟩ := List.mem_map.1 hline
    obtain ⟨x, hx⟩ := hok l (List.mem_append_right _ hl) _ (.inl rfl)
    rw [List.append_nil] at hx
    rw [hx] at he
    cases he

end

/-! ## Files for a map -/

/-- There is a line of node ids, such lines have no more ids than fit, all of them in the map, and
run numbers are in the range of `int`, outside which C leaves `atoi` undefined. -/
structure RequestFile.For (f : RequestFile) (m : NodeMap) : Prop where
  nonempty : nodeLines f.all 0 ≠ []
  length_le : ∀ x ∈ nodeLines f.all 0, x.2.length ≤ maxIds
  mapped : ∀ x ∈ nodeLines f.all 0, ∀ id ∈ x.2, ∃ e ∈ m.entries, e.id.toNat = id
  range : ∀ r, .runNo r ∈ f.all → r.value ≤ intMax

/-- The same, but there may be no line of node ids. -/
structure RequestFile.Lists (f : RequestFile) (m : NodeMap) : Prop where
  length_le : ∀ x ∈ nodeLines f.all 0, x.2.length ≤ maxIds
  mapped : ∀ x ∈ nodeLines f.all 0, ∀ id ∈ x.2, ∃ e ∈ m.entries, e.id.toNat = id
  range : ∀ r, .runNo r ∈ f.all → r.value ≤ intMax

theorem RequestFile.For.lists {f : RequestFile} {m : NodeMap} (h : f.For m) : f.Lists m :=
  ⟨h.length_le, h.mapped, h.range⟩

theorem mem_nodeLines {first : Numeral} {rest : List (Separator × Numeral)} {ls : List FileLine}
    (h : .nodes first rest ∈ ls) (r : Nat) :
    ∃ x ∈ nodeLines ls r, x.2 = (first :: rest.map Prod.snd).map Numeral.value := by
  induction ls generalizing r with
  | nil => cases h
  | cons l ls ih =>
    rcases List.mem_cons.1 h with rfl | hmem
    · exact ⟨_, List.mem_cons_self .., rfl⟩
    · cases l with
      | runNo n => exact ih hmem n.value
      | faultyNodes f => exact ih hmem r
      | stars s => exact ih hmem r
      | nodes first' rest' =>
        obtain ⟨x, hx, he⟩ := ih hmem r
        exact ⟨x, List.mem_cons_of_mem _ hx, he⟩

theorem nodeLines_ne_nil {ls : List FileLine} {r : Nat} {x : Nat × List Nat}
    (h : x ∈ nodeLines ls r) : x.2 ≠ [] := by
  induction ls generalizing r with
  | nil => cases h
  | cons l ls ih =>
    cases l with
    | runNo n => exact ih h
    | faultyNodes f => exact ih h
    | stars s => exact ih h
    | nodes first rest =>
      rcases List.mem_cons.1 h with rfl | h
      · simp
      · exact ih h

namespace RequestFile.Lists

variable {f : RequestFile} {m : NodeMap}

theorem numbers (h : f.Lists m) : ∀ l ∈ f.all, ∀ n ∈ l.numbers, n.value ≤ intMax := by
  intro l hl n hn
  cases l with
  | runNo r =>
    rw [List.mem_singleton.1 hn]
    exact h.range r hl
  | faultyNodes f => cases hn
  | stars s => cases hn
  | nodes first rest =>
    obtain ⟨x, hx, he⟩ := mem_nodeLines hl 0
    obtain ⟨e, -, hid⟩ := h.mapped x hx n.value (he ▸ List.mem_map_of_mem hn)
    have h₁ := e.id.isLt
    have h₂ : intMax = 2 ^ 31 - 1 := rfl
    omega

theorem valid (h : f.Lists m) : ∀ rd ∈ (nodeLines f.all 0).map toRound, rd.Valid m := by
  intro rd hrd
  obtain ⟨x, hx, rfl⟩ := List.mem_map.1 hrd
  refine ⟨?_, ?_, fun id hid => ?_⟩
  · simpa [toRound] using nodeLines_ne_nil hx
  · simpa [toRound] using h.length_le x hx
  · obtain ⟨n, hn, rfl⟩ := List.mem_map.1 hid
    obtain ⟨e, he, rfl⟩ := h.mapped x hx n hn
    exact ⟨e, he, by simp⟩

end RequestFile.Lists

end Verifier
end Swarna
