import Kryfo.Catchup.Book
import Kryfo.Catchup.Coverage
import Kryfo.Library.Run

/-!
# Our relay, its entries and the phone

The entries of our relay are ways into one store, with at most one connection to each.  A step is
one move of the clock, the store, a connection or the book, so runs interleave the connections in
every order.
-/

namespace Kryfo.Catchup

open Library

def catchupPage : Nat := 100

def catchupMaxPages : Nat := 200

/-- A wrap and the moment it reached the store, stamped at most ten hours
before that. -/
structure Wrap extends Event where
  reached : Int
  positive : 0 < createdAt
  notAhead : createdAt ≤ reached
  jittered : reached - 36000 ≤ createdAt
deriving DecidableEq

/-- Where a connection has got to.  `asked` holds the first answer, how much of it came and how much
the store held then; `walking` and `walked` hold the mark read when it came full, and where the walk
began. -/
inductive Phase where
  | opened
  | asked (answer : List Event) (brought held : Nat)
  | walking (m : Mark) (origin upto : Int) (res : Result) (left : Nat)
  | walked (m : Mark) (origin : Int) (res : Result)
  | caughtUp
  | stopped
deriving DecidableEq

namespace Phase

/-- Past the end of stored events, on a socket that is up, what reaches the store is handed over. -/
def handsOver : Phase → Bool
  | walking .. => true
  | walked _ _ res => res.complete
  | caughtUp => true
  | _ => false

def unfinished : Phase → Bool
  | caughtUp => false
  | stopped => false
  | _ => true

/-- The connection may be lost here.  A walk is let finish first. -/
def mayDrop : Phase → Bool
  | walking .. => false
  | walked .. => false
  | _ => true

def after (m : Mark) (origin : Int) (left : Nat) : After → Phase
  | .stop res => .walked m origin res
  | .again upto res => .walking m origin upto res left

end Phase

/-- `passed`: a clean pass of another entry, from no later a window, ended while this connection was
past its stored events. -/
structure Session (κ : Type*) where
  conn : Conn κ
  limit : Nat
  passed : Bool
  phase : Phase

/-- The `since` of a connection's window, twelve hours below its base. -/
def Conn.since {κ : Type*} (c : Conn κ) : Int :=
  if 0 < c.base ∧ 0 < c.base - 43200 then c.base - 43200 else 0

structure World (κ : Type*) where
  now : Int
  store : List Wrap
  got : List Event
  book : Book κ
  sessions : κ → Option (Session κ)

/-- The oldest stamp of the first answer, 0 when nothing came. -/
def oldestOf (evs : List Event) : Int :=
  evs.foldl (fun oldest ev =>
    if oldest = 0 ∨ ev.createdAt < oldest then ev.createdAt else oldest) 0

/-- Where a first answer, as far as it came, would be walked from. -/
def firstBelow (limit : Nat) (evs : List Event) : Int :=
  (evs.foldl (fun a ev => a.add ev.createdAt) (newAnswer limit)).below

namespace World

variable {κ : Type*} [DecidableEq κ] (w : World κ)

def fresh (now : Int) : World κ where
  now := now
  store := []
  got := []
  book := newBook
  sessions _ := none

def setSession (k : κ) (s : Session κ) : World κ :=
  { w with sessions := Function.update w.sessions k (some s) }

/-- Some connection is handed the wrap as it reaches the store. -/
def Live (x : Wrap) : Prop :=
  ∃ k s, w.sessions k = some s ∧ s.phase.handsOver = true ∧ s.conn.since ≤ x.createdAt

def window (c : Conn κ) (held : Nat) : List Event :=
  ((w.store.take held).map Wrap.toEvent).filter fun ev => c.since ≤ ev.createdAt

def done (k : κ) (s : Session κ) (stepped : Bool) : World κ :=
  { w with
    book := w.book.done s.conn stepped
    sessions := fun e =>
      if e = k then some { s with phase := .caughtUp, passed := false }
      else (w.sessions e).map fun t =>
        { t with passed := t.passed ||
          (!stepped && t.phase.handsOver && decide (s.conn.base ≤ t.conn.base)) } }

end World

inductive Act (κ : Type*) where
  | tick
  | reach (x : Wrap)
  | deliver (ev : Event)
  | start (anchor : Int)
  | connect (k : κ) (last : Int)
  | answer (k : κ)
  | bring (k : κ)
  | keepFirst (k : κ)
  | short (k : κ)
  | full (k : κ)
  | walk (k : κ)
  | done (k : κ)
  | cut (k : κ)
  | drop (k : κ)

open World in
/-- `short` and `full` are the end of stored events: what reached the store since the first answer
was made is handed over after it.  A page is answered from the store as it stood when it was asked
for; what reached it since has been handed over. -/
inductive Step {κ : Type*} [DecidableEq κ] (own : List κ) :
    World κ → Act κ → World κ → Prop
  | tick {w : World κ} (now : Int) (later : w.now ≤ now) :
      Step own w .tick { w with now := now }
  | reach {w : World κ} (x : Wrap) (handed : Bool) (atNow : x.reached = w.now)
      (live : w.Live x → handed = true) :
      Step own w (.reach x)
        { w with
          store := w.store ++ [x]
          got := if handed then w.got ++ [x.toEvent] else w.got }
  | deliver {w : World κ} (ev : Event) :
      Step own w (.deliver ev) { w with got := w.got ++ [ev] }
  | start {w : World κ} (anchor : Int) (notAhead : anchor ≤ w.now) :
      Step own w (.start anchor) { w with book := w.book.start own anchor w.now }
  | connect {w : World κ} (k : κ) (last : Int) (limit : Nat) (isOwn : k ∈ own)
      (closed : w.sessions k = none) (notAhead : last ≤ w.now) (limitPos : 0 < limit) :
      Step own w (.connect k last)
        (w.setSession k ⟨w.book.connect k own last w.now, limit, false, .opened⟩)
  | answer {w : World κ} (k : κ) (s : Session κ) (evs : List Event)
      (isOpen : w.sessions k = some s) (phase : s.phase = .opened)
      (sorted : evs.Pairwise fun first second => second.createdAt ≤ first.createdAt)
      (newest : IsNewest Event.createdAt s.limit evs (w.window s.conn w.store.length)) :
      Step own w (.answer k)
        (w.setSession k { s with phase := .asked evs 0 w.store.length })
  | bring {w : World κ} (k : κ) (s : Session κ) (answer : List Event) (brought held : Nat)
      (ev : Event) (isOpen : w.sessions k = some s)
      (phase : s.phase = .asked answer brought held) (next : answer[brought]? = some ev) :
      Step own w (.bring k)
        ({ w with got := w.got ++ [ev] }.setSession k
          { s with phase := .asked answer (brought + 1) held })
  | keepFirst {w : World κ} (k : κ) (s : Session κ) (answer : List Event)
      (brought held : Nat) (isOpen : w.sessions k = some s)
      (phase : s.phase = .asked answer brought held) :
      Step own w (.keepFirst k)
        { w with
          book := w.book.keepFirst s.conn
            (firstBelow s.limit (answer.take brought)) (w.now + 300) }
  | short {w : World κ} (k : κ) (s : Session κ) (answer : List Event) (held : Nat)
      (isOpen : w.sessions k = some s)
      (phase : s.phase = .asked answer answer.length held)
      (isShort : answer.length < s.limit ∨ oldestOf answer = 0) :
      Step own w (.short k)
        ({ w with got := w.got ++ (w.store.drop held).map Wrap.toEvent }.done k s false)
  | full {w : World κ} (k : κ) (s : Session κ) (answer : List Event) (held : Nat)
      (isOpen : w.sessions k = some s)
      (phase : s.phase = .asked answer answer.length held)
      (isFull : ¬ (answer.length < s.limit ∨ oldestOf answer = 0)) :
      Step own w (.full k)
        ({ w with
            got := w.got ++ (w.store.drop held).map Wrap.toEvent
            book := w.book.owe s.conn }.setSession k
          { s with
            passed := false
            phase := .walking ((w.book.owe s.conn).marks k) (firstBelow s.limit answer)
              (firstBelow s.limit answer) {} catchupMaxPages })
  | exhausted {w : World κ} (k : κ) (s : Session κ) (m : Mark) (origin upto : Int)
      (res : Result) (isOpen : w.sessions k = some s)
      (phase : s.phase = .walking m origin upto res 0) :
      Step own w (.walk k) (w.setSession k { s with phase := .walked m origin res })
  | stop {w : World κ} (k : κ) (s : Session κ) (m : Mark) (origin upto : Int)
      (res res' : Result) (left : Nat) (ended : Bool) (isOpen : w.sessions k = some s)
      (phase : s.phase = .walking m origin upto res (left + 1))
      (stops : turn s.conn.since m ended upto res = .stop res') :
      Step own w (.walk k) (w.setSession k { s with phase := .walked m origin res' })
  | page {w : World κ} (k : κ) (s : Session κ) (m : Mark) (origin upto : Int)
      (res res' : Result) (left : Nat) (pageSince upto' : Int) (above : Bool)
      (held : List Wrap) (page : Page) (fresh : Nat) (isOpen : w.sessions k = some s)
      (phase : s.phase = .walking m origin upto res (left + 1))
      (asks : turn s.conn.since m false upto res = .ask pageSince upto' above res')
      (snapshot : held <+: w.store) (since : ∀ x ∈ w.store, x ∉ held → x.toEvent ∈ w.got)
      (pageOf : PageOf (held.map Wrap.toEvent) pageSince upto' catchupPage page) :
      Step own w (.walk k)
        ({ w with got := w.got ++ page.events }.setSession k
          { s with
            phase := .after m origin left
              (answered catchupPage m above upto' res' page fresh) })
  | done {w : World κ} (k : κ) (s : Session κ) (m : Mark) (origin : Int) (res : Result)
      (isOpen : w.sessions k = some s) (phase : s.phase = .walked m origin res)
      (complete : res.complete = true) :
      Step own w (.done k) (w.done k s m.started)
  | cut {w : World κ} (k : κ) (s : Session κ) (m : Mark) (origin : Int) (res : Result)
      (isOpen : w.sessions k = some s) (phase : s.phase = .walked m origin res)
      (incomplete : res.complete = false) :
      Step own w (.cut k)
        ({ w with book := w.book.cut s.conn (markAfter origin m res) }.setSession k
          { s with phase := .stopped })
  | drop {w : World κ} (k : κ) (s : Session κ) (isOpen : w.sessions k = some s)
      (may : s.phase.mayDrop = true) :
      Step own w (.drop k) { w with sessions := Function.update w.sessions k none }

/-! ## Runs that can be computed -/

section Runs

variable {κ : Type*} [DecidableEq κ] {own : List κ} {w w' : World κ} {k : κ} {s : Session κ}

/-- What an open connection does next.  The relay answers with the newest it has. -/
inductive Session.Move where
  | answer
  | bring
  | keepFirst
  | short
  | full
  | page
  | done
  | drop

def Session.Move.act (k : κ) : Session.Move → Act κ
  | answer => .answer k
  | bring => .bring k
  | keepFirst => .keepFirst k
  | short => .short k
  | full => .full k
  | page => .walk k
  | done => .done k
  | drop => .drop k

def World.move (w : World κ) (k : κ) (s : Session κ) : Session.Move → Phase → Option (World κ)
  | .answer, .opened =>
    let evs := (newestFirst Event.createdAt (w.window s.conn w.store.length)).take s.limit
    some (w.setSession k { s with phase := .asked evs 0 w.store.length })
  | .bring, .asked answer brought held =>
    answer[brought]?.map fun ev => { w with got := w.got ++ [ev] }.setSession k
      { s with phase := .asked answer (brought + 1) held }
  | .keepFirst, .asked answer brought _ =>
    some { w with
      book := w.book.keepFirst s.conn (firstBelow s.limit (answer.take brought)) (w.now + 300) }
  | .short, .asked answer brought held =>
    if brought = answer.length ∧ (answer.length < s.limit ∨ oldestOf answer = 0) then
      some ({ w with got := w.got ++ (w.store.drop held).map Wrap.toEvent }.done k s false)
    else none
  | .full, .asked answer brought held =>
    if brought = answer.length ∧ ¬ (answer.length < s.limit ∨ oldestOf answer = 0) then
      some ({ w with
          got := w.got ++ (w.store.drop held).map Wrap.toEvent
          book := w.book.owe s.conn }.setSession k
        { s with
          passed := false
          phase := .walking ((w.book.owe s.conn).marks k) (firstBelow s.limit answer)
            (firstBelow s.limit answer) {} catchupMaxPages })
    else none
  | .page, .walking m origin upto res (left + 1) =>
    match turn s.conn.since m false upto res with
    | .stop _ => none
    | .ask pageSince upto above res =>
      let inRange := (w.store.map Wrap.toEvent).filter fun ev => InRange pageSince upto ev
      let page : Page := ⟨(newestFirst Event.createdAt inRange).take catchupPage, none⟩
      some ({ w with got := w.got ++ page.events }.setSession k
        { s with phase := .after m origin left (answered catchupPage m above upto res page 0) })
  | .done, .walked m _ res => if res.complete then some (w.done k s m.started) else none
  | .drop, phase =>
    if phase.mayDrop then some { w with sessions := Function.update w.sessions k none } else none
  | _, _ => none

theorem World.step_move {m : Session.Move} (isOpen : w.sessions k = some s)
    (moved : w.move k s m s.phase = some w') : Step own w (m.act k) w' := by
  unfold World.move at moved
  split at moved
  next phase =>
    cases moved
    exact .answer k s _ isOpen phase ((newestFirst_pairwise ..).take) (isNewest_take ..)
  next phase =>
    obtain ⟨ev, next, rfl⟩ := Option.map_eq_some_iff.mp moved
    exact .bring k s _ _ _ ev isOpen phase next
  next phase =>
    cases moved
    exact .keepFirst k s _ _ _ isOpen phase
  next phase =>
    split_ifs at moved with all
    cases moved
    exact .short k s _ _ isOpen (all.1 ▸ phase) all.2
  next phase =>
    split_ifs at moved with all
    cases moved
    exact .full k s _ _ isOpen (all.1 ▸ phase) all.2
  next phase =>
    split at moved
    next => cases moved
    next asks =>
      cases moved
      exact .page k s _ _ _ _ _ _ _ _ _ w.store _ 0 isOpen phase asks (List.prefix_refl _)
        (fun x inStore missing => (missing inStore).elim)
        ⟨_, [], isNewest_take .., by simp, by simp⟩
  next phase =>
    split_ifs at moved with complete
    cases moved
    exact .done k s _ _ _ isOpen phase complete
  next =>
    split_ifs at moved with may
    cases moved
    exact .drop k s isOpen may
  next => cases moved

inductive Order (κ : Type*) where
  | tick (now : Int)
  | reach (x : Wrap)
  | connect (k : κ) (last : Int) (limit : Nat)
  | move (k : κ) (m : Session.Move)

def Order.act : Order κ → Act κ
  | tick _ => .tick
  | reach x => .reach x
  | connect k last _ => .connect k last
  | move k m => m.act k

/-- A wrap reaches the store here only while no connection is open. -/
def World.follow [Fintype κ] (own : List κ) (w : World κ) : Order κ → Option (World κ)
  | .tick now => if w.now ≤ now then some { w with now := now } else none
  | .reach x =>
    if x.reached = w.now ∧ ∀ k, (w.sessions k).isNone then
      some { w with store := w.store ++ [x] }
    else none
  | .connect k last limit =>
    if k ∈ own ∧ (w.sessions k).isNone ∧ last ≤ w.now ∧ 0 < limit then
      some (w.setSession k ⟨w.book.connect k own last w.now, limit, false, .opened⟩)
    else none
  | .move k m => (w.sessions k).bind fun s => w.move k s m s.phase

variable [Fintype κ]

def World.next (own : List κ) (w : World κ) (order : Order κ) : World κ :=
  (w.follow own order).getD w

theorem World.step_next (order : Order κ) (may : (w.follow own order).isSome) :
    Step own w order.act (w.next own order) := by
  obtain ⟨w', followed⟩ := Option.isSome_iff_exists.mp may
  rw [World.next, followed, Option.getD_some]
  cases order with
  | tick now =>
    obtain ⟨later, ⟨⟩⟩ := Option.ite_none_right_eq_some.mp followed
    exact .tick now later
  | reach x =>
    obtain ⟨⟨atNow, closed⟩, ⟨⟩⟩ := Option.ite_none_right_eq_some.mp followed
    refine .reach x false atNow ?_
    rintro ⟨k, s, isOpen, -⟩
    simpa [isOpen] using closed k
  | connect k last limit =>
    obtain ⟨⟨isOwn, closed, notAhead, limitPos⟩, ⟨⟩⟩ := Option.ite_none_right_eq_some.mp followed
    exact .connect k last limit isOwn (by simpa using closed) notAhead limitPos
  | move k m =>
    obtain ⟨s, isOpen, moved⟩ := Option.bind_eq_some_iff.mp followed
    exact World.step_move isOpen moved

/-- Orders that can be followed, each within the rule, make a run. -/
theorem run_of_orders {rule : World κ → Act κ → Prop} {orders : List (Order κ)}
    (allowed : Allowed (World.next own)
      (fun w order => (w.follow own order).isSome ∧ rule w order.act) w orders) :
    Run (Step own) rule w (orders.foldl (World.next own) w) :=
  .of_acts Order.act (fun _ _ may => ⟨World.step_next _ may.1, may.2⟩) allowed

end Runs

end Kryfo.Catchup
