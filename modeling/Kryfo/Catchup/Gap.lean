import Kryfo.Catchup.Book

/-!
# After a clean pass

While our relay is out of reach, what public relays hand over goes on moving the anchor from which
the window of its next connection is taken.  After a clean pass that window takes in whatever may
have reached our relay meanwhile exactly when an entry still holds or the anchor has moved no more
than two hours past the loss.
-/

namespace Kryfo.Catchup

/-- `anchorStamp`: an event moves the anchor at most five minutes past this phone's clock. -/
def anchorStamp (ts now : Int) : Int := if now + 300 < ts then now + 300 else ts

/-- `anchorNow`: an anchor read back is never later than now. -/
def anchorNow (v now : Int) : Int := if now < v then now else v

/-- `saveLast`: the anchor only moves forward. -/
def saveLast (lastSaved ts : Int) : Int := if lastSaved < ts then ts else lastSaved

structure Public where
  last : Int := 0
  caughtUp : Bool := false
  pending : Int := 0
deriving DecidableEq, Repr

/-- The runner is handed an event that opened.  Its stamp is only saved once the catch-up has
ended. -/
def Public.take (p : Public) (ts : Int) : Public where
  last := if p.last < ts then ts else p.last
  caughtUp := p.caughtUp
  pending := if ¬ p.caughtUp ∧ p.pending < ts then ts else p.pending

inductive PublicOp (κ : Type*) where
  | owe (c : Conn κ)
  | cut (c : Conn κ) (m : Mark)
  | keepFirst (c : Conn κ) (oldest top : Int)
  | done (c : Conn κ) (stepped : Bool)
  | refused (c : Conn κ)

def PublicOp.conn {κ : Type*} : PublicOp κ → Conn κ
  | owe c => c
  | cut c _ => c
  | keepFirst c _ _ => c
  | done c _ => c
  | refused c => c

/-- What happens while our relay is out of reach: time, and the public relays `ρ` connecting,
handing over an event, ending their catch-up and writing to the book. -/
inductive Move (κ ρ : Type*) where
  | tick (seconds : Nat)
  | join (r : ρ)
  | opened (r : ρ) (createdAt : Int)
  | caughtUp (r : ρ)
  | book (op : PublicOp κ)

/-- One of these, or a wrap reaching our relay's store, stamped `jitter`
seconds before. -/
inductive AwayAct (κ ρ : Type*) where
  | move (m : Move κ ρ)
  | reach (id : ID) (jitter : Fin 36001)

structure Away (κ ρ : Type*) where
  now : Int
  lastSaved : Int
  book : Book κ
  publics : ρ → Public
  arrived : List Event

namespace Away

variable {κ ρ : Type*} (s : Away κ ρ)

def loadLast : Int := anchorNow s.lastSaved s.now

variable [DecidableEq κ] [DecidableEq ρ]

def setPublic (r : ρ) (p : Public) : Away κ ρ :=
  { s with publics := Function.update s.publics r p }

def applyOp (b : Book κ) : PublicOp κ → Book κ
  | .owe c => b.owe c
  | .cut c m => b.cut c m
  | .keepFirst c oldest top => b.keepFirst c oldest top
  | .done c stepped => b.done c stepped
  | .refused c => b.refused c

def move (s : Away κ ρ) : Move κ ρ → Away κ ρ
  | .tick seconds => { s with now := s.now + seconds }
  | .join r => s.setPublic r { last := s.loadLast }
  | .opened r createdAt =>
    let p := (s.publics r).take (anchorStamp createdAt s.now)
    { s.setPublic r p with
      lastSaved := if p.caughtUp then saveLast s.lastSaved p.last else s.lastSaved }
  | .caughtUp r =>
    { s.setPublic r { s.publics r with caughtUp := true } with
      lastSaved := saveLast s.lastSaved (s.publics r).pending }
  | .book op => { s with book := applyOp s.book op }

def step (s : Away κ ρ) : AwayAct κ ρ → Away κ ρ
  | .move m => s.move m
  | .reach id jitter => { s with arrived := s.arrived ++ [⟨id, s.now - jitter.val⟩] }

def run (s : Away κ ρ) (acts : List (AwayAct κ ρ)) : Away κ ρ := acts.foldl step s

def reconnect (key : κ) (own : List κ) : Conn κ := s.book.connect key own s.loadLast s.now

end Away

variable {κ ρ : Type*}

def AwayAct.move? : AwayAct κ ρ → Option (Move κ ρ)
  | move m => some m
  | reach _ _ => none

def Move.Outside (own : List κ) : Move κ ρ → Prop
  | book op => op.conn.own = false ∧ op.conn.key ∉ own
  | _ => True

namespace Away

variable [DecidableEq κ] [DecidableEq ρ] {own : List κ}

theorem applyOp_holds {b : Book κ} {op : PublicOp κ} (notOwn : op.conn.own = false)
    {e : κ} (other : e ≠ op.conn.key) : (applyOp b op).holds e = b.holds e := by
  cases op with
  | owe c => simp [applyOp, Book.owe, show c.own = false from notOwn]
  | cut c m =>
    simp only [applyOp, Book.cut, show c.own = false from notOwn]
    split_ifs <;> simp_all
  | keepFirst c oldest top =>
    simp only [applyOp, Book.keepFirst, show c.own = false from notOwn]
    split_ifs
    · rfl
    · simp_all
    · cases Book.firstMark (b.marks c.key) oldest top <;> rfl
  | done c stepped => simp [applyOp, Book.done, show c.own = false from notOwn]
  | refused c => simp [applyOp, Book.refused, show e ≠ c.key from other]

def forget (s : Away κ ρ) : Away κ ρ := { s with arrived := [] }

theorem move_forget (s : Away κ ρ) (m : Move κ ρ) : (s.move m).forget = s.forget.move m := by
  cases m <;> rfl

theorem run_forget (s : Away κ ρ) (acts : List (AwayAct κ ρ)) :
    (s.run acts).forget = (acts.filterMap AwayAct.move?).foldl move s.forget := by
  induction acts generalizing s with
  | nil => rfl
  | cons act acts ih =>
    have onward := ih (s.step act)
    cases act with
    | move m =>
      rw [step, move_forget] at onward
      exact onward
    | reach id jitter => exact onward

theorem now_le_move (s : Away κ ρ) (m : Move κ ρ) : s.now ≤ (s.move m).now := by
  cases m with
  | tick seconds => simp [move]
  | _ => exact le_rfl

theorem arrived_move (s : Away κ ρ) (m : Move κ ρ) : (s.move m).arrived = s.arrived := by
  cases m <;> rfl

theorem arrived_run {s : Away κ ρ} {t : Int} (since : t ≤ s.now)
    (before : ∀ ev ∈ s.arrived, t - 36000 ≤ ev.createdAt) (acts : List (AwayAct κ ρ)) :
    ∀ ev ∈ (s.run acts).arrived, t - 36000 ≤ ev.createdAt := by
  induction acts generalizing s with
  | nil => exact before
  | cons act acts ih =>
    cases act with
    | move m =>
      apply ih (s := s.move m) (le_trans since (s.now_le_move m))
      rw [arrived_move]
      exact before
    | reach id jitter =>
      refine ih (s := s.step (.reach id jitter)) since ?_
      intro ev member
      rcases List.mem_append.mp member with old | isNew
      · exact before ev old
      · obtain rfl := List.mem_singleton.mp isNew
        simp only
        omega

theorem holds_moves {moves : List (Move κ ρ)} (outside : ∀ m ∈ moves, m.Outside own)
    (s : Away κ ρ) {e : κ} (isOwn : e ∈ own) :
    (moves.foldl move s).book.holds e = s.book.holds e := by
  induction moves generalizing s with
  | nil => rfl
  | cons m moves ih =>
    rw [List.foldl_cons, ih (fun m' member => outside m' (by simp [member]))]
    have here := outside m (by simp)
    cases m with
    | book op =>
      exact applyOp_holds here.1 fun same => here.2 (same ▸ isOwn)
    | _ => rfl

/-- A clean pass leaves its own entry holding nothing, and no other holding anything new. -/
theorem clean_holds {b : Book κ} {c : Conn κ} (isOwn : c.own = true)
    (notTwin : c.key ∉ c.twins) (e : κ) :
    (b.done c false).holds e = {} ∨ (b.done c false).holds e = b.holds e := by
  by_cases at_ : e = c.key
  · subst at_
    left
    rw [b.done_holds_self false isOwn notTwin, Hold.done_unstepped]
  · rw [b.done_holds_of_ne false isOwn at_]
    split_ifs
    · exact .inl rfl
    · exact .inr rfl

omit [DecidableEq ρ] in
theorem reconnect_base_le {s : Away κ ρ} {key : κ} (ownsKey : key ∈ own) :
    (s.reconnect key own).base ≤ s.loadLast ∧ ∀ e ∈ own, (s.book.holds e).held = true →
        (s.reconnect key own).base ≤ (s.book.holds e).floor :=
  ⟨Book.connect_base_le_last _ _ ownsKey,
    fun _ member isHeld => Book.connect_base_le_floor _ _ ownsKey member isHeld⟩

omit [DecidableEq ρ] in
theorem reconnect_base_eq {s : Away κ ρ} {key : κ} (ownsKey : key ∈ own)
    (free : ∀ e ∈ own, (s.book.holds e).held = false) :
    (s.reconnect key own).base = s.loadLast := by
  rcases s.book.connect_base_eq s.loadLast s.now ownsKey with atLast | ⟨e, member, isHeld, -⟩
  · exact atLast
  · rw [free e member] at isHeld
    cases isHeld

def reachFirst (moves : List (Move κ ρ)) : List (AwayAct κ ρ) :=
  .reach 0 ⟨36000, by decide⟩ :: moves.map .move

omit [DecidableEq κ] [DecidableEq ρ] in
theorem reachFirst_moves (moves : List (Move κ ρ)) :
    (reachFirst moves).filterMap AwayAct.move? = moves := by
  change (moves.map AwayAct.move).filterMap AwayAct.move? = moves
  rw [List.filterMap_map]
  exact List.filterMap_some

theorem run_moves_arrived (s : Away κ ρ) (moves : List (Move κ ρ)) :
    (s.run (moves.map .move)).arrived = s.arrived := by
  induction moves generalizing s with
  | nil => rfl
  | cons m moves ih => exact (ih (s.move m)).trans (s.arrived_move m)

/-- Whatever the public relays do since our relay is out of reach: the next window takes in every
wrap that may have come exactly when an entry still holds or the anchor is at most two hours past
that moment. -/
theorem takes_in_iff {s : Away κ ρ} (none : s.arrived = []) {key : κ} (ownsKey : key ∈ own)
    (floors : ∀ e ∈ own, (s.book.holds e).held = true → (s.book.holds e).floor ≤ s.now)
    {moves : List (Move κ ρ)} (outside : ∀ m ∈ moves, m.Outside own) :
    (∀ acts : List (AwayAct κ ρ), acts.filterMap AwayAct.move? = moves →
      ∀ ev ∈ (s.run acts).arrived, ((s.run acts).reconnect key own).base - 43200 ≤ ev.createdAt) ↔
      (∃ e ∈ own, (s.book.holds e).held = true) ∨ (moves.foldl move s).loadLast ≤ s.now + 7200 := by
  have forgets : s.forget = s := by rw [forget, ← none]
  have ending : ∀ acts : List (AwayAct κ ρ), acts.filterMap AwayAct.move? = moves →
      (s.run acts).reconnect key own = (moves.foldl move s).reconnect key own := by
    intro acts same
    have := s.run_forget acts
    rw [same, forgets] at this
    rw [← this]
    rfl
  constructor
  · intro takesIn
    by_contra neither
    push Not at neither
    obtain ⟨free, late⟩ := neither
    have same := reachFirst_moves moves
    have oldest : (⟨0, s.now - 36000⟩ : Event) ∈ (s.run (reachFirst moves)).arrived := by
      change _ ∈ ((s.step (.reach 0 ⟨36000, _⟩)).run (moves.map .move)).arrived
      rw [run_moves_arrived]
      exact List.mem_append_right _ (List.mem_singleton.mpr rfl)
    have taken := takesIn _ same _ oldest
    rw [ending _ same, reconnect_base_eq ownsKey fun e member => by
      rw [holds_moves outside s member]
      simpa using free e member] at taken
    simp only at taken
    omega
  · rintro condition acts same ev arrived
    have stamped := arrived_run (le_refl s.now) (by simp [none]) acts ev arrived
    obtain ⟨below, belowFloors⟩ := reconnect_base_le (s := moves.foldl move s) ownsKey
    rw [ending acts same]
    rcases condition with ⟨e, member, isHeld⟩ | early
    · have kept := holds_moves outside s member
      have := belowFloors e member (by rwa [kept])
      have := floors e member isHeld
      rw [kept] at *
      omega
    · omega

/-- After a clean pass on one of our relay's entries and the loss of its
connection at `t`: the next window takes in every wrap that may have reached the
store exactly when an entry still holds or the anchor is at most two hours past
`t`. -/
theorem reconnect_takes_in_iff {b : Book κ} {c : Conn κ} {t lastSaved : Int}
    {publics : ρ → Public} (ownsKey : c.key ∈ own) (isOwn : c.own = true)
    (notTwin : c.key ∉ c.twins)
    (floors : ∀ e, (b.holds e).held = true → (b.holds e).floor ≤ t)
    {moves : List (Move κ ρ)} (outside : ∀ m ∈ moves, m.Outside own) :
    (∀ acts : List (AwayAct κ ρ), acts.filterMap AwayAct.move? = moves →
      ∀ ev ∈ (run ⟨t, lastSaved, b.done c false, publics, []⟩ acts).arrived,
        ((run ⟨t, lastSaved, b.done c false, publics, []⟩ acts).reconnect c.key own).base
          - 43200 ≤ ev.createdAt) ↔
      (∃ e ∈ own, ((b.done c false).holds e).held = true) ∨
        (moves.foldl move ⟨t, lastSaved, b.done c false, publics, []⟩).loadLast
          ≤ t + 7200 := by
  refine takes_in_iff (s := ⟨t, lastSaved, b.done c false, publics, []⟩) rfl ownsKey ?_ outside
  intro e _ isHeld
  rcases clean_holds (b := b) isOwn notTwin e with gone | same
  · rw [gone] at isHeld
    cases isHeld
  · rw [same] at isHeld ⊢
    exact floors e isHeld

section Runs

def passBook : Book Unit := newBook.start [()] 100000 100000

def passConn : Conn Unit := passBook.connect () [()] 100000 100000

/-- The pass was clean and the connection is gone, at 100000. -/
def lost : Away Unit Unit := ⟨100000, 100000, passBook.done passConn false, fun _ => {}, []⟩

def handedOver (seconds : Nat) : List (Move Unit Unit) :=
  [.join (), .caughtUp (), .tick seconds, .opened () (100000 + seconds)]

theorem reconnect_takes_in_iff_two_hours :
    (∀ m ∈ handedOver 7200, m.Outside [()]) ∧
      ∀ acts : List (AwayAct Unit Unit), acts.filterMap AwayAct.move? = handedOver 7200 →
        ∀ ev ∈ (lost.run acts).arrived,
          ((lost.run acts).reconnect () [()]).base - 43200 ≤ ev.createdAt := by
  have outside : ∀ m ∈ handedOver 7200, m.Outside [()] := by
    simp [handedOver, Move.Outside]
  exact ⟨outside, (reconnect_takes_in_iff (c := passConn) (t := 100000)
    (show passConn.key ∈ [()] by decide) (by decide) (by decide) (by decide) outside).mpr
      (.inr (by decide))⟩

/-- Ten thousand seconds later a wrap that reached our relay at the start of
them is outside the window. -/
theorem not_reconnect_takes_in :
    ¬ ∀ ev ∈ (lost.run (reachFirst (handedOver 10000))).arrived,
        ((lost.run (reachFirst (handedOver 10000))).reconnect () [()]).base - 43200
          ≤ ev.createdAt := by
  decide

end Runs

end Away

end Kryfo.Catchup
