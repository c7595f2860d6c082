import Kryfo.Nostr

/-!
# The catch-up walk

A relay hands back stored events newest first and stops at its cap.  The walk pages back from
the oldest event of the first answer, stepping over a stretch that earlier walks have covered.
The loop of `walk` is cut in two: `turn` is what its head decides, `answered` what a page does.
-/

namespace Kryfo.Catchup

/-- `Below`: the `limit`-th newest stamp of a full answer, the oldest of any
other. -/
def below (stamps : List Int) (limit : Nat) : Int :=
  if stamps.length = 0 then 0
  else
    let s := stamps.insertionSort (· ≤ ·)
    if 0 < limit ∧ limit ≤ s.length then s.getD (s.length - limit) 0
    else s.getD 0 0

/-- `Answer`: the stamps of an answer still coming, never more than twice the limit. -/
structure Answer where
  limit : Nat
  stamps : List Int
deriving DecidableEq, Repr

def newAnswer (limit : Nat) : Answer := ⟨limit, []⟩

def Answer.add (a : Answer) (ts : Int) : Answer :=
  let stamps := a.stamps ++ [ts]
  if 0 < a.limit ∧ 2 * a.limit ≤ stamps.length then
    let s := stamps.insertionSort (· ≤ ·)
    { a with stamps := s.drop (s.length - a.limit) }
  else { a with stamps := stamps }

def Answer.below (a : Answer) : Int := Catchup.below a.stamps a.limit

/-- `Result`; `untilAt` is the source's `Until`. -/
structure Result where
  pages : Nat := 0
  fetched : Nat := 0
  fresh : Nat := 0
  complete : Bool := false
  untilAt : Int := 0
deriving DecidableEq, Repr

/-- `Mark`: everything between `cursor` and `top` has been walked. -/
structure Mark where
  top : Int := 0
  cursor : Int := 0
deriving DecidableEq, Repr

def Mark.started (m : Mark) : Bool := decide (0 < m.top)

structure Page where
  events : List Event
  err : Option String
deriving DecidableEq, Repr

/-- The callers' side of a walk: the context, the relay and the delivery. -/
structure Host (σ : Type*) where
  ctxErr : σ → Bool × σ
  fetch : Int → Int → Nat → σ → Page × σ
  deliver : Event → σ → Bool × σ

def Host.deliverAll {σ : Type*} (host : Host σ) : List Event → σ → Nat × σ
  | [], s => (0, s)
  | ev :: evs, s =>
    let one := host.deliver ev s
    let rest := host.deliverAll evs one.2
    (rest.1 + one.1.toNat, rest.2)

inductive Turn where
  | stop (res : Result)
  | ask (pageSince upto : Int) (above : Bool) (res : Result)
deriving DecidableEq, Repr

/-- The head of the loop.  The cursor jumps over the walked stretch; a page above it stops at its
top. -/
def turn (since : Int) (skip : Mark) (ended : Bool) (upto : Int)
    (res : Result) : Turn :=
  let upto :=
    if skip.started ∧ upto ≤ skip.top ∧ skip.cursor < upto then skip.cursor else upto
  let res := { res with untilAt := upto }
  if ended then .stop res
  else if upto ≤ 0 ∨ (0 < since ∧ upto < since) then .stop { res with complete := true }
  else
    let above := skip.started && decide (skip.top < upto)
    .ask (if above ∧ since < skip.top then skip.top else since) upto above res

/-- What a page leads to: the end of the walk, or a lower cursor. -/
inductive After where
  | stop (res : Result)
  | again (upto : Int) (res : Result)
deriving DecidableEq, Repr

/-- The rest of the loop's body, once the page has come and been delivered. -/
def answered (limit : Nat) (skip : Mark) (above : Bool) (upto : Int)
    (res : Result) (page : Page) (fresh : Nat) : After :=
  let stamps := page.events.map Event.createdAt
  match page.err with
  | some _ =>
    .stop { res with
      fetched := res.fetched + page.events.length
      fresh := res.fresh + fresh
      untilAt := if 0 < stamps.length then min (below stamps limit) upto else upto }
  | none =>
    let res := { res with pages := res.pages + 1 }
    if page.events.length = 0 then
      if above then .again skip.cursor { res with untilAt := skip.cursor }
      else .stop { res with complete := true }
    else
      let low := min (below stamps limit) upto
      let low := if low = upto then upto - 1 else low
      .again low { res with
        fetched := res.fetched + page.events.length
        fresh := res.fresh + fresh
        untilAt := low }

/-- The loop of `walk`, `left` pages before `maxPages` runs out. -/
def walkLoop {σ : Type*} (host : Host σ) (since : Int) (limit : Nat)
    (skip : Mark) : Nat → Int → Result → σ → Result × σ
  | 0, _, res, s => (res, s)
  | left + 1, upto, res, s =>
    let ctx := host.ctxErr s
    match turn since skip ctx.1 upto res with
    | .stop res => (res, ctx.2)
    | .ask pageSince upto above res =>
      let page := host.fetch pageSince upto limit ctx.2
      let fresh := host.deliverAll page.1.events page.2
      match answered limit skip above upto res page.1 fresh.1 with
      | .stop res => (res, fresh.2)
      | .again upto res => walkLoop host since limit skip left upto res fresh.2

/-- `walk`: page from `oldest` down to `since`, stepping over `skip`. -/
def walk {σ : Type*} (host : Host σ) (since oldest : Int)
    (limit maxPages : Nat) (skip : Mark) (s : σ) : Result × σ :=
  walkLoop host since limit skip maxPages oldest {} s

/-- The mark `Continue` returns with a walk's result. -/
def markAfter (oldest : Int) (m : Mark) (r : Result) : Mark :=
  if r.complete then {} else { top := max oldest m.top, cursor := r.untilAt }

/-- `Continue`: walk on from a mark, and the mark to keep for next time. -/
def continueFrom {σ : Type*} (host : Host σ) (since oldest : Int)
    (limit maxPages : Nat) (m : Mark) (s : σ) : Result × Mark × σ :=
  let r := walk host since oldest limit maxPages m s
  (r.1, markAfter oldest m r.1, r.2)

/-- `Back`: a walk that has nothing to step over. -/
def back {σ : Type*} (host : Host σ) (since oldest : Int)
    (limit maxPages : Nat) (s : σ) : Result × σ :=
  walk host since oldest limit maxPages {} s

end Kryfo.Catchup
