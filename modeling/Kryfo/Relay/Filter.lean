import Kryfo.Nostr

/-!
# What the engine asks our relay for

Our relay takes a filter that names ids and nothing else, or one that asks for wraps to named
addresses.  Of the engine's five kinds of request the ask for held events by their ids names both,
so our relay refuses it.
-/

namespace Kryfo.Relay

open Library List

structure Filter where
  ids : List ID := []
  kinds : List Nat := []
  tags : List (List Char × List (List Char)) := []
  since : Int := 0
  upto : Int := 0
  limit : Nat := 0
  limitZero : Bool := false
deriving DecidableEq, Repr

/-- `nostr.Filter` as our relay reads it. -/
structure Req where
  ids : List (List Char)
  kinds : List Nat
  authors : List (List Char)
  tags : List (List Char × List (List Char))
  since : Option Int
  upto : Option Int
  limit : Nat
  limitZero : Bool
  search : List Char
deriving DecidableEq, Repr

/-- A filter on the wire: ids in hexadecimal, stamps that are zero left out. -/
def Filter.wire (f : Filter) : Req where
  ids := f.ids.map hex
  kinds := f.kinds
  authors := []
  tags := f.tags
  since := if f.since = 0 then none else some f.since
  upto := if f.upto = 0 then none else some f.upto
  limit := f.limit
  limitZero := f.limitZero
  search := []

/-! ## The relay's check -/

def wrapKind : Nat := 1059

def maxIDs : Nat := 20

def maxAddrs : Nat := 10

/-- `isKey`: sixty-four hexadecimal digits. -/
def isKey (s : List Char) : Bool := s.length = 64 && (unhex s).isSome

/-- `filterOK`: by id alone, or wraps to named addresses. -/
def filterOK (f : Req) : Bool :=
  if f.search ≠ [] ∨ 0 < f.authors.length then false
  else if 0 < f.ids.length then
    if maxIDs < f.ids.length ∨ 0 < f.kinds.length ∨ 0 < f.tags.length then false
    else f.ids.all isKey
  else if f.kinds ≠ [wrapKind] ∨ f.tags.length ≠ 1 then false
  else
    match f.tags.lookup "p".toList with
    | none => false
    | some ps => if ps.length = 0 ∨ maxAddrs < ps.length then false else ps.all isKey

/-- `limits.limitZero`: `filter` is never shown a request with limit 0, so it is checked here.
`taken`: the connection's rate allows one more. -/
def limitZero (taken : Bool) (f : Req) : Req :=
  if ¬ f.limitZero then f
  else if filterOK f && taken then f
  else { f with limitZero := false }

/-- `limits.filter`: why a request is refused. -/
def filter (taken : Bool) (f : Req) : Option String :=
  if ¬ taken then some "rate-limited: slow down"
  else if ¬ filterOK f then some "blocked: ask for wraps by address"
  else none

/-- What a connection that is not over its rate is told about a request. -/
def verdict (f : Req) : Option String :=
  let f := limitZero true f
  if f.limitZero then none else filter true f

theorem filterOK_limitZero (f : Req) (zero : Bool) :
    filterOK { f with limitZero := zero } = filterOK f := rfl

/-- With or without limit 0, a request passes exactly when its filter does. -/
theorem verdict_eq_none_iff (f : Req) : verdict f = none ↔ filterOK f = true := by
  cases passes : filterOK f <;> cases zero : f.limitZero <;>
    simp [verdict, limitZero, filter, passes, zero, filterOK_limitZero f false]

/-! ## The engine's requests -/

def catchupResumeLimit : Nat := 5

def heldAskChunk : Nat := 100

def pairQueryLimit : Nat := 100

variable (rcvPk : List Char)

def toAddress : Filter :=
  { kinds := [wrapKind], tags := [("p".toList, [rcvPk])] }

/-- Twenty when the last connection was alive within five minutes, five when a walk is part way
through. -/
def liveLimit (recent resumed : Bool) : Nat :=
  let limit := if recent then 20 else 100
  if resumed ∧ catchupResumeLimit < limit then catchupResumeLimit else limit

def liveFilter (base : Int) (recent resumed : Bool) : Filter :=
  { toAddress rcvPk with
    limit := liveLimit recent resumed
    since := if 0 < base ∧ 0 < base - 12 * 3600 then base - 12 * 3600 else 0 }

/-- The filter of `relayPage`. -/
def pageFilter (since upto : Int) (limit : Nat) : Filter :=
  { toAddress rcvPk with since := since, upto := upto, limit := limit }

def probeFilter (now : Int) : Filter :=
  { toAddress rcvPk with since := now, limitZero := true }

/-- The filter of `pairCodeQueryOn`: a code lives ten minutes, and one more is
allowed for. -/
def pairFilter (pk : List Char) (now : Int) : Filter :=
  { toAddress pk with since := now - 600 - 60, limit := pairQueryLimit }

/-- The ids of one ask: some, and no more than a chunk. -/
structure Chunk where
  ids : List ID
  asked : ids ≠ []
  short : ids.length ≤ heldAskChunk

/-- The filter of `relayIDsOnce`. -/
def idsFilter (chunk : Chunk) : Filter :=
  { toAddress rcvPk with ids := chunk.ids, limit := chunk.ids.length }

/-- Every request the engine makes. -/
inductive Request where
  | live (base : Int) (recent resumed : Bool)
  | page (since upto : Int) (limit : Nat)
  | probe (now : Int)
  | pairCode (now : Int)
  | byIDs (chunk : Chunk)

def Request.filter : Request → Filter
  | live base recent resumed => liveFilter rcvPk base recent resumed
  | page since upto limit => pageFilter rcvPk since upto limit
  | probe now => probeFilter rcvPk now
  | pairCode now => pairFilter rcvPk now
  | byIDs chunk => idsFilter rcvPk chunk

def Request.isByIDs : Request → Bool
  | byIDs _ => true
  | _ => false

/-- Whatever its window and limit, a filter for one address passes. -/
theorem filterOK_toAddress {rcvPk : List Char} (isAddress : isKey rcvPk = true) {f : Filter}
    (noIDs : f.ids = []) (kinds : f.kinds = [wrapKind])
    (tags : f.tags = [("p".toList, [rcvPk])]) : filterOK f.wire = true := by
  simp [filterOK, Filter.wire, noIDs, kinds, tags, isAddress, maxAddrs]

theorem not_filterOK_ids {f : Filter} (ids : f.ids ≠ []) (kinds : f.kinds ≠ []) :
    filterOK f.wire = false := by
  have someIDs := length_pos_of_ne_nil ids
  have someKinds := length_pos_of_ne_nil kinds
  simp [filterOK, Filter.wire, someIDs, someKinds]

/-- Our relay accepts a request of the engine exactly when it is not an ask by
ids. -/
theorem filterOK_request_iff {rcvPk : List Char} (isAddress : isKey rcvPk = true)
    (req : Request) : filterOK (req.filter rcvPk).wire = true ↔ req.isByIDs = false := by
  cases req with
  | byIDs chunk =>
    have refused : filterOK (idsFilter rcvPk chunk).wire = false :=
      not_filterOK_ids chunk.asked (by simp [idsFilter, toAddress])
    simp [Request.filter, Request.isByIDs, refused]
  | _ => exact iff_of_true (filterOK_toAddress isAddress rfl rfl rfl) rfl

section Requests

def zeroAddress : List Char := List.replicate 64 '0'

theorem filterOK_request_iff_live :
    filterOK ((Request.live 100000 true false).filter zeroAddress).wire = true :=
  (filterOK_request_iff (by decide) _).mpr rfl

/-- An ask for a single id is refused. -/
theorem not_filterOK_request :
    ¬ ∀ req : Request, filterOK (req.filter zeroAddress).wire = true := by
  intro accepted
  exact absurd (accepted (.byIDs ⟨[0], by decide, by decide⟩)) (by decide)

end Requests

end Kryfo.Relay
