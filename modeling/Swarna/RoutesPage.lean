import Mathlib.Logic.Function.Basic
import Swarna.Ipaddr
import Swarna.Machine

/-!
# Swarna.RoutesPage

The page of the border router: `handle_output` of its web server and `generate_routes`, as compiled
(`WEBSERVER` is 1; its options and `RPL_WITH_NON_STORING` are 0). All connections write to one
static buffer and walk the tables with static pointers. A connection gives the processor away in
`SEND_STRING` only; the string is taken as it is when it is handed over.

* `adds_eq`: what fits is written as it is.
* `page_whole`: over every interleaving of connections and changes of the tables, no `ADD` is given
  a size that has wrapped around, and what is sent consists of whole entries.
* `page_sent`: a connection that is not disturbed gets the page.
-/

namespace Swarna
namespace RoutesPage

/-! ## The buffer -/

/-- `sizeof(buf)`. -/
def bufSize : Nat := 256

/-- The string in `buf`, and `blen`. -/
structure Buf where
  text : List Char
  blen : Nat
  deriving DecidableEq, Repr

inductive Fault where
  /-- `sizeof(buf) - blen` has wrapped around. -/
  | overrun
  deriving DecidableEq, Repr

/-- `ADD`. `snprintf` writes what fits before a zero, and returns the length of the whole text. -/
def add (s : List Char) (b : Buf) : Except Fault Buf :=
  if bufSize < b.blen then .error .overrun
  else .ok ⟨b.text.take b.blen ++ s.take (bufSize - 1 - b.blen), b.blen + s.length⟩

def adds : List (List Char) → Buf → Except Fault Buf
  | [], b => .ok b
  | s :: ss, b =>
    match add s b with
    | .error f => .error f
    | .ok b => adds ss b

/-! ## The entries -/

/-- The loop of `ipaddr_add`, one text for each `ADD`. -/
def ipaddrAddLoop : (i : Nat) → (f : Int) → List (BitVec 16) → List (List Char)
  | _, _, [] => []
  | i, f, a :: as =>
    if a = 0 ∧ 0 ≤ f then
      (if f = 0 then [[':', ':']] else []) ++ ipaddrAddLoop (i + 2) (f + 1) as
    else
      (if 0 < f then [] else if 0 < i then [[':']] else []) ++ Nat.toDigits 16 a.toNat ::
        ipaddrAddLoop (i + 2) (if 0 < f then -1 else f) as

def ipaddrAdds (addr : Addr) : List (List Char) := ipaddrAddLoop 0 0 addr.words

structure Route where
  ipaddr : Addr
  length : BitVec 8
  nexthop : Addr
  lifetime : BitVec 32
  deriving DecidableEq, Repr

def neighborsHead : List Char := "Neighbors<pre>".toList

def neighborAdds (nbr : Addr) : List (List Char) := ipaddrAdds nbr ++ [['\n']]

def routesHead : List Char := "</pre>Routes<pre>\n".toList

/-- `/%u (via `. -/
def viaText (length : BitVec 8) : List Char :=
  '/' :: Nat.toDigits 10 length.toNat ++ [' ', '(', 'v', 'i', 'a', ' ']

/-- `) %us` and a newline. -/
def lifetimeText (lifetime : BitVec 32) : List Char :=
  ')' :: ' ' :: Nat.toDigits 10 lifetime.toNat ++ ['s', '\n']

def routeAdds (r : Route) : List (List Char) :=
  ipaddrAdds r.ipaddr ++ [viaText r.length] ++ ipaddrAdds r.nexthop ++ [lifetimeText r.lifetime]

def routesEnd : List Char := "</pre>".toList

/-! ## The connections -/

/-- Where a connection goes on: in `send_headers`, or after a `SEND_STRING` of `generate_routes`. -/
inductive Point where
  | start | statushdr | contentType | top | neighbor | routes | route | last | bottom | closed
  deriving DecidableEq, Repr

/-- The tables, and what the static pointers `nbr` and `r` have yet to come to. -/
structure Tables where
  neighbors : List Addr
  routes : List Route
  nbr : List Addr
  r : List Route

structure State (κ : Type) where
  buf : Buf
  tables : Tables
  point : κ → Point

inductive Event (κ : Type) where
  /-- The string sent last has arrived. -/
  | resume (c : κ)
  /-- The tables change, and with them what follows the entries pointed to. -/
  | tables (x : Tables)

structure Output (κ : Type) where
  conn : κ
  text : List Char
  deriving DecidableEq, Repr

def httpHeader200 : List Char :=
  "HTTP/1.0 200 OK\r\nServer: Contiki/2.4 http://www.sics.se/contiki/\r\n".toList ++
    "Connection: close\r\n".toList

def httpContentTypeHtml : List Char := "Content-type: text/html\r\n\r\n".toList

def pageTop : List Char := "<html><head><title>ContikiRPL</title></head><body>\n".toList

def pageBottom : List Char := "</body></html>\n".toList

/-- The loop over the neighbors, until it ends or the buffer is nearly full. -/
def neighborsFrom : List Addr → Buf → Except Fault (Buf × Point × List Addr)
  | [], b =>
    match add routesHead b with
    | .error f => .error f
    | .ok b => .ok (b, .routes, [])
  | nbr :: rest, b =>
    match adds (neighborAdds nbr) b with
    | .error f => .error f
    | .ok b => if bufSize - 45 < b.blen then .ok (b, .neighbor, rest) else neighborsFrom rest b

/-- The loop over the routes, up to its next `SEND_STRING`. -/
def routesFrom : List Route → Buf → Except Fault (Buf × Point × List Route)
  | [], b =>
    match add routesEnd b with
    | .error f => .error f
    | .ok b => .ok (b, .last, [])
  | r :: rest, b =>
    match adds (routeAdds r) b with
    | .error f => .error f
    | .ok b => .ok (b, .route, rest)

variable {κ : Type}

section

variable [DecidableEq κ]

namespace State

/-- `blen = 0`. -/
def reset (s : State κ) : Buf := ⟨s.buf.text, 0⟩

def goto (s : State κ) (c : κ) (p : Point) : State κ :=
  { s with point := Function.update s.point c p }

def send (s : State κ) (c : κ) (p : Point) (text : List Char) :
    Except Fault (State κ × List (Output κ)) := .ok (s.goto c p, [⟨c, text⟩])

def sendNeighbors (s : State κ) (c : κ) :
    Except Fault (Buf × Point × List Addr) → Except Fault (State κ × List (Output κ))
  | .error f => .error f
  | .ok (b, p, rest) => { s with buf := b, tables.nbr := rest }.send c p b.text

def sendRoutes (s : State κ) (c : κ) :
    Except Fault (Buf × Point × List Route) → Except Fault (State κ × List (Output κ))
  | .error f => .error f
  | .ok (b, p, rest) => { s with buf := b, tables.r := rest }.send c p b.text

end State

def step (s : State κ) : Event κ → Except Fault (State κ × List (Output κ))
  | .tables x => .ok ({ s with tables := x }, [])
  | .resume c =>
    match s.point c with
    | .start => s.send c .statushdr httpHeader200
    | .statushdr => s.send c .contentType httpContentTypeHtml
    | .contentType => s.send c .top pageTop
    | .top =>
      match add neighborsHead s.reset with
      | .error f => .error f
      | .ok b => s.sendNeighbors c (neighborsFrom s.tables.neighbors b)
    | .neighbor => s.sendNeighbors c (neighborsFrom s.tables.nbr s.reset)
    | .routes => s.sendRoutes c (routesFrom s.tables.routes s.reset)
    | .route => s.sendRoutes c (routesFrom s.tables.r s.reset)
    | .last => s.send c .bottom pageBottom
    | .bottom => .ok (s.goto c .closed, [])
    | .closed => .ok (s, [])

def machine : Machine (State κ) (Event κ) (Output κ) Fault := ⟨step⟩

end

/-! ## What fits is written as it is -/

/-- The text added since `blen` was 0. -/
structure Holds (b : Buf) (text : List Char) : Prop where
  take : b.text.take b.blen = text
  blen : b.blen = text.length

theorem holds_self (text : List Char) : Holds ⟨text, text.length⟩ text := ⟨List.take_length, rfl⟩

theorem State.holds_reset (s : State κ) : Holds s.reset [] := ⟨rfl, rfl⟩

theorem add_eq {b : Buf} {text s : List Char} (h : Holds b text)
    (hlen : (text ++ s).length < bufSize) : add s b = .ok ⟨text ++ s, (text ++ s).length⟩ := by
  rw [List.length_append] at hlen
  have hsize : ¬ bufSize < b.blen := by
    rw [h.blen]
    omega
  have hs : s.length ≤ bufSize - 1 - b.blen := by
    rw [h.blen]
    omega
  rw [add, if_neg hsize, h.take, List.take_of_length_le hs, h.blen, List.length_append]

theorem adds_eq {b : Buf} {text : List Char} {ss : List (List Char)} (h : Holds b text)
    (hne : ss ≠ []) (hlen : (text ++ ss.flatten).length < bufSize) :
    adds ss b = .ok ⟨text ++ ss.flatten, (text ++ ss.flatten).length⟩ := by
  induction ss generalizing b text with
  | nil => exact absurd rfl hne
  | cons s ss ih =>
    rw [List.flatten_cons, ← List.append_assoc] at hlen ⊢
    have hadd : add s b = .ok ⟨text ++ s, (text ++ s).length⟩ :=
      add_eq h (Nat.lt_of_le_of_lt (List.sublist_append_left _ _).length_le hlen)
    simp only [adds, hadd]
    cases ss with
    | nil => rw [List.flatten_nil, List.append_nil]; rfl
    | cons s' ss => exact ih (holds_self _) (List.cons_ne_nil _ _) hlen

/-! ## How long the entries are -/

theorem ipaddrAddLoop_flatten (i : Nat) (f : Int) (ws : List (BitVec 16)) :
    (ipaddrAddLoop i f ws).flatten = Ipaddr.ipaddrLoop i f ws := by
  induction ws generalizing i f with
  | nil => rfl
  | cons a as ih =>
    rw [ipaddrAddLoop, Ipaddr.ipaddrLoop]
    split
    · rw [List.flatten_append, ih]
      split <;> rfl
    · rw [List.flatten_append, List.flatten_cons, ih, List.append_assoc]
      split
      · rfl
      · split <;> rfl

theorem length_hex (w : BitVec 16) : (Nat.toDigits 16 w.toNat).length ≤ 4 :=
  (Nat.length_toDigits_le_iff (by decide) (by decide)).2 w.isLt

theorem length_ipaddrLoop (i : Nat) (f : Int) (ws : List (BitVec 16)) :
    (Ipaddr.ipaddrLoop i f ws).length ≤ 5 * ws.length := by
  induction ws generalizing i f with
  | nil => exact Nat.le_refl 0
  | cons a as ih =>
    have hhex := length_hex a
    rw [Ipaddr.ipaddrLoop, List.length_cons]
    split
    · have hrest := ih (i + 2) (f + 1)
      rw [List.length_append]
      split <;> simp only [List.length_cons, List.length_nil] <;> omega
    · generalize (if 0 < f then -1 else f) = f'
      have hrest := ih (i + 2) f'
      rw [List.length_append, List.length_append]
      split
      · simp only [List.length_nil]
        omega
      · split <;> simp only [List.length_cons, List.length_nil] <;> omega

/-- Eight groups and the colons between them. -/
theorem length_ipaddrAdd (addr : Addr) : (Ipaddr.ipaddrAdd addr).length ≤ 39 := by
  have hwords : addr.words.length = 8 := rfl
  rw [Ipaddr.ipaddrAdd]
  cases hw : addr.words with
  | nil => exact Nat.zero_le _
  | cons a as =>
    have hhex := length_hex a
    rw [hw, List.length_cons] at hwords
    rw [Ipaddr.ipaddrLoop]
    split
    · have hrest := length_ipaddrLoop (0 + 2) (0 + 1) as
      simp only [List.length_append, List.length_cons, List.length_nil, if_true]
      omega
    · have hrest := length_ipaddrLoop (0 + 2) (if (0 : Int) < 0 then -1 else 0) as
      rw [List.length_append, List.length_append, if_neg (by decide), if_neg (by decide)]
      simp only [List.length_nil]
      omega

def neighborText (nbr : Addr) : List Char := Ipaddr.ipaddrAdd nbr ++ ['\n']

def routeText (r : Route) : List Char :=
  Ipaddr.ipaddrAdd r.ipaddr ++ viaText r.length ++ Ipaddr.ipaddrAdd r.nexthop ++
    lifetimeText r.lifetime

theorem neighborAdds_flatten (nbr : Addr) : (neighborAdds nbr).flatten = neighborText nbr := by
  rw [neighborAdds, List.flatten_append, ipaddrAdds, ipaddrAddLoop_flatten]
  rfl

theorem routeAdds_flatten (r : Route) : (routeAdds r).flatten = routeText r := by
  simp only [routeAdds, List.flatten_append, ipaddrAdds, ipaddrAddLoop_flatten]
  simp [routeText, Ipaddr.ipaddrAdd]

theorem length_neighborText (nbr : Addr) : (neighborText nbr).length ≤ 40 := by
  have h := length_ipaddrAdd nbr
  simp only [neighborText, List.length_append, List.length_cons, List.length_nil]
  omega

theorem length_routeText (r : Route) : (routeText r).length < bufSize := by
  have hipaddr := length_ipaddrAdd r.ipaddr
  have hnexthop := length_ipaddrAdd r.nexthop
  have hlength : (Nat.toDigits 10 r.length.toNat).length ≤ 3 :=
    (Nat.length_toDigits_le_iff (by decide) (by decide)).2
      (Nat.lt_trans r.length.isLt (by decide))
  have hlifetime : (Nat.toDigits 10 r.lifetime.toNat).length ≤ 10 :=
    (Nat.length_toDigits_le_iff (by decide) (by decide)).2
      (Nat.lt_trans r.lifetime.isLt (by decide))
  simp only [routeText, viaText, lifetimeText, List.length_append, List.length_cons,
    List.length_nil, bufSize]
  omega

/-! ## What is sent at a time -/

/-- A string of whole entries. -/
inductive Whole : List Char → Prop where
  | fixed {text : List Char} : text ∈ [httpHeader200, httpContentTypeHtml, pageTop, routesEnd,
      pageBottom] → Whole text
  | neighbors (head tail : Bool) (ns : List Addr) :
      Whole ((if head then neighborsHead else []) ++ ns.flatMap neighborText ++
        if tail then routesHead else [])
  | route (r : Route) : Whole (routeText r)

theorem length_fixed {text : List Char} (h : text ∈ [httpHeader200, httpContentTypeHtml, pageTop,
    routesEnd, pageBottom]) : text.length < bufSize := by
  simp only [List.mem_cons, List.not_mem_nil, or_false] at h
  rcases h with rfl | rfl | rfl | rfl | rfl <;> decide

/-- Of the neighbors `nbrs` some are written after `text`, and if they are all, what comes next. -/
inductive Written (text : List Char) (nbrs : List Addr) : Buf × Point × List Addr → Prop where
  | full {b : Buf} {rest : List Addr} (ns : List Addr) :
      nbrs = ns ++ rest → rest.length < nbrs.length →
      b.text = text ++ ns.flatMap neighborText → b.text.length < bufSize →
      Written text nbrs (b, .neighbor, rest)
  | all {b : Buf} : b.text = text ++ nbrs.flatMap neighborText ++ routesHead →
      b.text.length < bufSize → Written text nbrs (b, .routes, [])

/-- An entry is written into a buffer that is not nearly full. -/
theorem neighborsFrom_eq {b : Buf} {text : List Char} (nbrs : List Addr) (h : Holds b text)
    (hlen : text.length ≤ bufSize - 45) :
    ∃ r, neighborsFrom nbrs b = .ok r ∧ Written text nbrs r := by
  have hhead : routesHead.length = 18 := by decide
  have hsize : bufSize = 256 := rfl
  induction nbrs generalizing b text with
  | nil =>
    have hfit : (text ++ routesHead).length < bufSize := by
      rw [List.length_append]
      omega
    refine ⟨(⟨text ++ routesHead, (text ++ routesHead).length⟩, .routes, []), ?_, .all ?_ hfit⟩
    · simp only [neighborsFrom, add_eq h hfit]
    · rw [List.flatMap_nil, List.append_nil]
  | cons nbr rest ih =>
    have hnbr := length_neighborText nbr
    have hfit : (text ++ (neighborAdds nbr).flatten).length < bufSize := by
      rw [neighborAdds_flatten, List.length_append]
      omega
    have hadds := adds_eq h (by simp [neighborAdds]) hfit
    rw [neighborAdds_flatten] at hadds hfit
    by_cases hfull : bufSize - 45 < (text ++ neighborText nbr).length
    · refine ⟨(⟨text ++ neighborText nbr, (text ++ neighborText nbr).length⟩, .neighbor, rest), ?_,
        .full [nbr] rfl (Nat.lt_succ_self _) ?_ hfit⟩
      · simp only [neighborsFrom, hadds, if_pos hfull]
      · rw [List.flatMap_singleton]
    · obtain ⟨r, hr, hwritten⟩ := ih (holds_self (text ++ neighborText nbr)) (by omega)
      refine ⟨r, by simp only [neighborsFrom, hadds, if_neg hfull, hr], ?_⟩
      cases hwritten with
      | full ns hrest hshort htext hlen' =>
        refine .full (nbr :: ns) (by rw [hrest]; rfl) (Nat.lt_succ_of_lt hshort) ?_ hlen'
        rw [htext, List.flatMap_cons, List.append_assoc]
      | all htext hlen' =>
        refine .all ?_ hlen'
        rw [htext, List.flatMap_cons]
        simp only [List.append_assoc]

theorem routesFrom_eq {b : Buf} (rs : List Route) (h : Holds b []) :
    (rs = [] ∧ routesFrom rs b = .ok (⟨routesEnd, routesEnd.length⟩, .last, [])) ∨
    ∃ r rest, rs = r :: rest ∧
      routesFrom rs b = .ok (⟨routeText r, (routeText r).length⟩, .route, rest) := by
  cases rs with
  | nil =>
    have hadd : add routesEnd b = .ok ⟨routesEnd, routesEnd.length⟩ :=
      add_eq (s := routesEnd) h (length_fixed (by simp))
    exact .inl ⟨rfl, by simp only [routesFrom, hadd]⟩
  | cons r rest =>
    have hadds := adds_eq h (by simp [routeAdds] : routeAdds r ≠ [])
      (by rw [routeAdds_flatten]; exact length_routeText r)
    rw [routeAdds_flatten] at hadds
    refine .inr ⟨r, rest, rfl, ?_⟩
    simp only [routesFrom, hadds]
    rfl

/-! ## Connections -/

/-- What a connection alone has yet to be sent. -/
def routesLeft (rs : List Route) : List Char := rs.flatMap routeText ++ routesEnd ++ pageBottom

def neighborsLeft (x : Tables) (nbrs : List Addr) : List Char :=
  nbrs.flatMap neighborText ++ routesHead ++ routesLeft x.routes

def page (x : Tables) : List Char := pageTop ++ neighborsHead ++ neighborsLeft x x.neighbors

/-- The header and the page. -/
def response (x : Tables) : List Char := httpHeader200 ++ httpContentTypeHtml ++ page x

def left (x : Tables) : Point → List Char
  | .start => response x
  | .statushdr => httpContentTypeHtml ++ page x
  | .contentType => page x
  | .top => neighborsHead ++ neighborsLeft x x.neighbors
  | .neighbor => neighborsLeft x x.nbr
  | .routes => routesLeft x.routes
  | .route => routesLeft x.r
  | .last => pageBottom
  | .bottom => []
  | .closed => []

/-- How often it has to be resumed at most. -/
def stepsLeft (x : Tables) : Point → Nat
  | .start => x.neighbors.length + x.routes.length + 9
  | .statushdr => x.neighbors.length + x.routes.length + 8
  | .contentType => x.neighbors.length + x.routes.length + 7
  | .top => x.neighbors.length + x.routes.length + 6
  | .neighbor => x.nbr.length + x.routes.length + 5
  | .routes => x.routes.length + 4
  | .route => x.r.length + 3
  | .last => 2
  | .bottom => 1
  | .closed => 0

/-- What one connection does when it is resumed. -/
structure Resumed (s : State κ) (c : κ) (s' : State κ) (out : List (Output κ)) : Prop where
  whole : ∀ o ∈ out, Whole o.text ∧ o.text.length < bufSize
  neighbors : s'.tables.neighbors = s.tables.neighbors
  routes : s'.tables.routes = s.tables.routes
  sent : out.flatMap Output.text ++ left s'.tables (s'.point c) = left s.tables (s.point c)
  steps : stepsLeft s'.tables (s'.point c) ≤ stepsLeft s.tables (s.point c) - 1

variable [DecidableEq κ]

@[simp] theorem goto_point (s : State κ) (c : κ) (p : Point) : (s.goto c p).point c = p :=
  Function.update_self ..

theorem resumed_send {s : State κ} {c : κ} {p : Point} {text : List Char} {b : Buf} {x : Tables}
    (hwhole : Whole text) (hlen : text.length < bufSize)
    (hneighbors : x.neighbors = s.tables.neighbors) (hroutes : x.routes = s.tables.routes)
    (hleft : text ++ left x p = left s.tables (s.point c))
    (hsteps : stepsLeft x p ≤ stepsLeft s.tables (s.point c) - 1) :
    Resumed s c ((⟨b, x, s.point⟩ : State κ).goto c p) [⟨c, text⟩] := by
  refine ⟨?_, hneighbors, hroutes, ?_, ?_⟩
  · intro o ho
    rw [List.mem_singleton.1 ho]
    exact ⟨hwhole, hlen⟩
  · rw [goto_point, List.flatMap_singleton]
    exact hleft
  · rw [goto_point]
    exact hsteps

theorem resumed_neighbors {s : State κ} {c : κ} (head : Bool) {nbrs : List Addr}
    {r : Buf × Point × List Addr}
    (h : Written (if head then neighborsHead else []) nbrs r)
    (hleft : left s.tables (s.point c) =
      (if head then neighborsHead else []) ++ neighborsLeft s.tables nbrs)
    (hsteps : nbrs.length + s.tables.routes.length + 5 ≤ stepsLeft s.tables (s.point c)) :
    ∃ s' out, s.sendNeighbors c (.ok r) = .ok (s', out) ∧ Resumed s c s' out := by
  cases h with
  | @full b rest ns hrest hshort htext hlen =>
    refine ⟨_, _, rfl, resumed_send ?_ hlen rfl rfl ?_ ?_⟩
    · have hwhole := Whole.neighbors head false ns
      rw [if_neg Bool.false_ne_true, List.append_nil] at hwhole
      rwa [htext]
    · rw [htext, hleft, hrest]
      simp only [left, neighborsLeft, List.flatMap_append, List.append_assoc]
    · change rest.length + s.tables.routes.length + 5 ≤ stepsLeft s.tables (s.point c) - 1
      omega
  | @all b htext hlen =>
    refine ⟨_, _, rfl, resumed_send ?_ hlen rfl rfl ?_ ?_⟩
    · rw [htext]
      exact Whole.neighbors head true nbrs
    · rw [htext, hleft]
      simp only [left, neighborsLeft, List.append_assoc]
    · change s.tables.routes.length + 4 ≤ stepsLeft s.tables (s.point c) - 1
      omega

theorem resumed_routes {s : State κ} {c : κ} (rs : List Route)
    (hleft : left s.tables (s.point c) = routesLeft rs)
    (hsteps : rs.length + 3 ≤ stepsLeft s.tables (s.point c)) :
    ∃ s' out, s.sendRoutes c (routesFrom rs s.reset) = .ok (s', out) ∧ Resumed s c s' out := by
  rcases routesFrom_eq rs s.holds_reset with ⟨rfl, hres⟩ | ⟨r, rest, rfl, hres⟩
  · rw [hres]
    refine ⟨_, _, rfl, resumed_send (.fixed (by simp)) (length_fixed (by simp)) rfl rfl ?_ ?_⟩
    · rw [hleft]
      rfl
    · change 2 ≤ stepsLeft s.tables (s.point c) - 1
      omega
  · rw [hres]
    refine ⟨_, _, rfl, resumed_send (.route r) (length_routeText r) rfl rfl ?_ ?_⟩
    · rw [hleft]
      simp only [left, routesLeft, List.flatMap_cons, List.append_assoc]
    · change rest.length + 3 ≤ stepsLeft s.tables (s.point c) - 1
      rw [List.length_cons] at hsteps
      omega

theorem resume_step (s : State κ) (c : κ) :
    ∃ s' out, step s (.resume c) = .ok (s', out) ∧ Resumed s c s' out := by
  cases hp : s.point c with
  | start | statushdr | contentType | last =>
    refine ⟨_, _, by simp only [step, hp]; rfl, resumed_send (.fixed (by simp))
      (length_fixed (by simp)) rfl rfl ?_ ?_⟩
    · rw [hp]
      simp only [left, response, page, List.append_assoc, List.append_nil]
    · rw [hp]
      simp only [stepsLeft]
      omega
  | top =>
    have hlen : neighborsHead.length = 14 := by decide
    have hadd := add_eq s.holds_reset (s := neighborsHead) (by decide)
    obtain ⟨r, hr, hwritten⟩ := neighborsFrom_eq s.tables.neighbors
      (holds_self ([] ++ neighborsHead)) (by decide)
    obtain ⟨s', out, hsend, hres⟩ := resumed_neighbors (s := s) (c := c) true hwritten
      (by rw [hp]; rfl) (by rw [hp]; simp only [stepsLeft]; omega)
    refine ⟨s', out, ?_, hres⟩
    simp only [step, hp, hadd, hr, hsend]
  | neighbor =>
    obtain ⟨r, hr, hwritten⟩ := neighborsFrom_eq s.tables.nbr s.holds_reset (Nat.zero_le _)
    obtain ⟨s', out, hsend, hres⟩ := resumed_neighbors (s := s) (c := c) false hwritten
      (by rw [hp]; rfl) (by rw [hp]; exact Nat.le_refl _)
    refine ⟨s', out, ?_, hres⟩
    simp only [step, hp, hr, hsend]
  | routes =>
    obtain ⟨s', out, hsend, hres⟩ := resumed_routes (s := s) (c := c) s.tables.routes
      (by rw [hp]; rfl) (by rw [hp]; simp only [stepsLeft]; omega)
    exact ⟨s', out, by simp only [step, hp, hsend], hres⟩
  | route =>
    obtain ⟨s', out, hsend, hres⟩ := resumed_routes (s := s) (c := c) s.tables.r
      (by rw [hp]; rfl) (by rw [hp]; exact Nat.le_refl _)
    exact ⟨s', out, by simp only [step, hp, hsend], hres⟩
  | bottom =>
    refine ⟨s.goto c .closed, [], by simp only [step, hp], by simp, rfl, rfl, ?_, ?_⟩
    · rw [goto_point, hp]
      rfl
    · rw [goto_point, hp]
      exact Nat.le_refl _
  | closed =>
    refine ⟨s, [], by simp only [step, hp], by simp, rfl, rfl, ?_, ?_⟩
    · rw [hp]
      rfl
    · rw [hp]
      exact Nat.le_refl _

/-- Whatever connections are resumed in whatever order and however the tables change: no size wraps
around, and all that is sent are whole entries that have fitted into the buffer. -/
theorem page_whole {s₀ s : State κ} {t : Trace (Event κ) (Output κ)}
    (hr : (machine (κ := κ)).Run s₀ t s) :
    (∀ e, ∃ r, machine.step s e = .ok r) ∧
      ∀ o ∈ t.outputs, Whole o.text ∧ o.text.length < bufSize := by
  refine ⟨fun e => ?_, ?_⟩
  · cases e with
    | tables x => exact ⟨_, rfl⟩
    | resume c =>
      obtain ⟨s', out, hs, -⟩ := resume_step s c
      exact ⟨_, hs⟩
  · induction hr with
    | start => simp
    | @next t s s' e out _ _ hs ih =>
      intro o ho
      rw [Trace.outputs_snoc] at ho
      rcases List.mem_append.1 ho with ho | ho
      · exact ih o ho
      · cases e with
        | tables x =>
          cases hs
          cases ho
        | resume c =>
          obtain ⟨s₁, out₁, hs₁, hres⟩ := resume_step s c
          cases hs₁.symm.trans hs
          exact hres.whole o ho

/-- A neighbor, and a route over it. -/
def sampleTables : Tables :=
  ⟨[0xfe800000000000000000000000001062],
    [⟨0xfd00000000000000000000000000a578, 128, 0xfe800000000000000000000000001062, 1790⟩], [], []⟩

def sampleStart : State Bool := ⟨⟨[], 0⟩, sampleTables, fun _ => .start⟩

/-- Two connections, the second of which overtakes the first while it waits in its tables. -/
def overtaking : List (Event Bool) :=
  List.replicate 5 (.resume true) ++ List.replicate 8 (.resume false) ++
    List.replicate 3 (.resume true)

theorem page_whole_overtaking : ∃ t s, machine.exec sampleStart overtaking = .ok (t, s) ∧
    s.point true = .closed ∧ ∀ o ∈ t.outputs, Whole o.text ∧ o.text.length < bufSize := by
  obtain ⟨t, s, h, hs⟩ : ∃ t s, machine.exec sampleStart overtaking = .ok (t, s) ∧
    s.point true = .closed := ⟨_, _, rfl, rfl⟩
  exact ⟨t, s, h, hs, (page_whole (Machine.run_of_exec h)).2⟩

/-- Only this connection is resumed, and the tables stay as they are. -/
def Alone (c : κ) (_ : Trace (Event κ) (Output κ)) (_ : State κ) (e : Event κ) : Prop :=
  e = .resume c

/-- A connection that is not disturbed is sent the header and the page, whatever others have left in
the buffer and the pointers: a part of them at any time, all of them once it is closed, which takes
no longer than the tables are. -/
theorem page_sent {s₀ s : State κ} {c : κ} {t : Trace (Event κ) (Output κ)}
    (h₀ : s₀.point c = .start) (hr : machine.RunIf (Alone c) s₀ t s) :
    t.outputs.flatMap Output.text <+: response s₀.tables ∧
      (s.point c = .closed → t.outputs.flatMap Output.text = response s₀.tables) ∧
      (s₀.tables.neighbors.length + s₀.tables.routes.length + 9 ≤ t.length →
        s.point c = .closed) := by
  have hrun : t.outputs.flatMap Output.text ++ left s.tables (s.point c) = response s₀.tables ∧
      stepsLeft s.tables (s.point c) ≤
        s₀.tables.neighbors.length + s₀.tables.routes.length + 9 - t.length := by
    induction hr with
    | start =>
      rw [h₀]
      exact ⟨rfl, Nat.le_refl _⟩
    | @next t s s' e out _ hc hs ih =>
      obtain rfl : e = .resume c := hc
      obtain ⟨s₁, out₁, hs₁, hres⟩ := resume_step s c
      cases hs₁.symm.trans hs
      obtain ⟨hsent, hsteps⟩ := ih
      refine ⟨?_, ?_⟩
      · rw [Trace.outputs_snoc, List.flatMap_append, List.append_assoc, hres.sent, hsent]
      · have := hres.steps
        rw [List.length_append, List.length_singleton]
        omega
  obtain ⟨hsent, hsteps⟩ := hrun
  refine ⟨⟨_, hsent⟩, fun hclosed => ?_, fun hlong => ?_⟩
  · rw [hclosed] at hsent
    rw [← hsent]
    exact (List.append_nil _).symm
  · rw [Nat.sub_eq_zero_of_le hlong, Nat.le_zero] at hsteps
    cases hp : s.point c with
    | closed => rfl
    | _ => rw [hp] at hsteps; simp [stepsLeft] at hsteps

theorem alone_of_exec {s₀ s : State κ} {c : κ} {n : Nat} {t : Trace (Event κ) (Output κ)}
    (h : machine.exec s₀ (List.replicate n (.resume c)) = .ok (t, s)) :
    machine.RunIf (Alone c) s₀ t s := by
  refine Machine.runIf_of_run (Machine.run_of_exec h) fun t₁ x t₂ s₁ he _ => ?_
  refine List.eq_of_mem_replicate (n := n) ?_
  rw [← Machine.exec_events h, he]
  exact List.mem_map_of_mem (List.mem_append_right _ (List.mem_cons_self ..))

/-- Another connection has left a part of the page in the buffer, and the pointers in the tables. -/
theorem page_sent_leftover : ∃ t₁ s₁ t s,
    machine.exec sampleStart (List.replicate 5 (.resume false)) = .ok (t₁, s₁) ∧
      s₁.buf.blen = 38 ∧ s₁.point false = .route ∧ machine.RunIf (Alone true) s₁ t s ∧
      t.outputs.flatMap Output.text = response sampleTables := by
  obtain ⟨t₁, s₁, t, s, h₁, hbuf, hfalse, htrue, htables, h, hclosed⟩ : ∃ t₁ s₁ t s,
      machine.exec sampleStart (List.replicate 5 (.resume false)) = .ok (t₁, s₁) ∧
        s₁.buf.blen = 38 ∧ s₁.point false = .route ∧ s₁.point true = .start ∧
        response s₁.tables = response sampleTables ∧
        machine.exec s₁ (List.replicate 9 (.resume true)) = .ok (t, s) ∧ s.point true = .closed :=
    ⟨_, _, _, _, rfl, rfl, rfl, rfl, rfl, rfl, rfl⟩
  have hr := alone_of_exec h
  exact ⟨t₁, s₁, t, s, h₁, hbuf, hfalse, hr, ((page_sent htrue hr).2.1 hclosed).trans htables⟩

end RoutesPage
end Swarna
