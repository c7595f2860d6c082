import Kryfo.Moat.Ends

/-!
# What becomes of the dials

A connection that a dial left with its call is closed once the call is shut, and a dial that
begins on an ended context comes to nothing.
-/

namespace Kryfo.Moat

open Library

/-! ## Connections -/

namespace DialStage

def conn : DialStage → Option Nat
  | dialed conn => some conn
  | kept conn => some conn
  | handed conn => some conn
  | _ => none

def keptConn : DialStage → Option Nat
  | kept conn => some conn
  | handed conn => some conn
  | _ => none

end DialStage

structure Conns (s : State) : Prop where
  made : ∀ j conn, (s.dials j).stage.conn = some conn → conn < s.nextConn
  held : ∀ j conn, (s.dials j).stage.keptConn = some conn →
    s.openConn conn = false ∨ conn ∈ (s.calls (s.dials j).call).conns
  shut : ∀ c, (s.calls c).shut = true → (s.calls c).conns = []
  asked : ∀ j, (s.dials j).stage ≠ .idle → (s.calls (s.dials j).call).asked.isSome = true

variable {conn : Nat} {stage : DialStage}

theorem conn_of_keptConn (kept : stage.keptConn = some conn) : stage.conn = some conn := by
  cases stage <;> first | exact kept | exact nomatch kept

theorem conns_init : Conns {} where
  made _ _ made := nomatch made
  held _ _ kept := nomatch kept
  shut _ shut := nomatch shut
  asked _ begun := (begun rfl).elim

variable {s s' : State}

theorem Conns.same (conns : Conns s) (dials : s'.dials = s.dials)
    (openConn : s'.openConn = s.openConn) (nextConn : s'.nextConn = s.nextConn)
    (calls : ∀ c, (s'.calls c).conns = (s.calls c).conns ∧ (s'.calls c).shut = (s.calls c).shut ∧
      ((s.calls c).asked.isSome = true → (s'.calls c).asked.isSome = true)) :
    Conns s' where
  made j conn made := by
    rw [dials] at made
    rw [nextConn]
    exact conns.made j conn made
  held j conn kept := by
    rw [dials] at kept ⊢
    rw [openConn, (calls _).1]
    exact conns.held j conn kept
  shut c shut := by
    rw [(calls c).2.1] at shut
    rw [(calls c).1]
    exact conns.shut c shut
  asked j begun := by
    rw [dials] at begun ⊢
    exact (calls _).2.2 (conns.asked j begun)

variable {c : Nat}

theorem Conns.setCall {call : Call} (conns : Conns s) (kept : call.conns = (s.calls c).conns)
    (shut : call.shut = (s.calls c).shut)
    (asked : (s.calls c).asked.isSome = true → call.asked.isSome = true) :
    Conns (s.setCall c call) := by
  refine conns.same rfl rfl rfl fun d => ?_
  rw [State.calls_setCall]
  split
  next same =>
    subst same
    exact ⟨kept, shut, asked⟩
  next => exact ⟨rfl, rfl, id⟩

theorem Conns.closeAll (conns : Conns s) (c : Nat) : Conns (s.closeAll c) where
  made j conn made := conns.made j conn made
  held j conn kept := by
    have was := conns.held j conn kept
    show (if conn ∈ (s.calls c).conns then false else s.openConn conn) = false ∨
      conn ∈ ((s.closeAll c).calls (s.dials j).call).conns
    rw [State.calls_closeAll]
    by_cases inside : conn ∈ (s.calls c).conns
    · rw [if_pos inside]
      exact .inl rfl
    · rw [if_neg inside]
      refine was.imp id fun held => ?_
      have other : (s.dials j).call ≠ c := by
        intro same
        rw [same] at held
        exact inside held
      rw [if_neg other]
      exact held
  shut d shut := by
    rw [State.calls_closeAll] at shut ⊢
    split
    · rfl
    next other =>
      rw [if_neg other] at shut
      exact conns.shut d shut
  asked j begun := by
    have was := conns.asked j begun
    show ((s.closeAll c).calls (s.dials j).call).asked.isSome = true
    rw [State.calls_closeAll]
    split
    next same =>
      rw [same] at was
      exact was
    next => exact was

variable {j : Nat}

theorem Conns.setDial {dial : Dial} (conns : Conns s)
    (asked : (s.calls dial.call).asked.isSome = true)
    (made : ∀ conn, dial.stage.conn = some conn → conn < s.nextConn)
    (held : ∀ conn, dial.stage.keptConn = some conn →
      s.openConn conn = false ∨ conn ∈ (s.calls dial.call).conns) : Conns (s.setDial j dial) where
  made k conn now := by
    rw [State.dials_setDial] at now
    split at now
    · exact made conn now
    · exact conns.made k conn now
  held k conn now := by
    rw [State.dials_setDial] at now ⊢
    split at now
    next same =>
      rw [if_pos same]
      exact held conn now
    next other =>
      rw [if_neg other]
      exact conns.held k conn now
  shut := conns.shut
  asked k now := by
    rw [State.dials_setDial] at now ⊢
    split at now
    next same =>
      rw [if_pos same]
      exact asked
    next other =>
      rw [if_neg other]
      exact conns.asked k now

theorem Conns.dialTo (conns : Conns s) (begun : (s.dials j).stage ≠ .idle)
    (made : ∀ conn, stage.conn = some conn → conn < s.nextConn)
    (held : ∀ conn, stage.keptConn = some conn →
      s.openConn conn = false ∨ conn ∈ (s.calls (s.dials j).call).conns) :
    Conns (s.dialTo j stage) :=
  conns.setDial (conns.asked j begun) made held

theorem Conns.newConn (conns : Conns s) : Conns s.newConn where
  made j conn made := Nat.lt_succ_of_lt (conns.made j conn made)
  held j conn kept := by
    have before := conns.made j conn (conn_of_keptConn kept)
    show Function.update s.openConn s.nextConn true conn = false ∨ _
    rw [Function.update_of_ne (Nat.ne_of_lt before)]
    exact conns.held j conn kept
  shut := conns.shut
  asked := conns.asked

theorem Conns.connects (conns : Conns s) (begun : (s.dials j).stage ≠ .idle) :
    Conns (s.newConn.dialTo j (.dialed s.nextConn)) := by
  refine conns.newConn.dialTo begun (fun conn made => ?_) nofun
  cases made
  exact Nat.lt_succ_self s.nextConn

theorem Conns.closeConn (conns : Conns s) (conn : Nat) : Conns (s.closeConn conn) where
  made := conns.made
  held j other kept := by
    refine (conns.held j other kept).imp (fun closed => ?_) id
    show Function.update s.openConn conn false other = false
    rw [Function.update_apply]
    split
    · rfl
    · exact closed
  shut := conns.shut
  asked := conns.asked

theorem Conns.addConn (conns : Conns s) (notShut : ¬(s.calls c).shut = true) :
    Conns (s.setCall c { s.calls c with conns := (s.calls c).conns ++ [conn] }) where
  made := conns.made
  held j other kept := by
    refine (conns.held j other kept).imp id fun inside => ?_
    rw [State.calls_setCall]
    split
    next same =>
      have inside' : other ∈ (s.calls (s.dials j).call).conns := inside
      rw [show (s.dials j).call = c from same] at inside'
      exact List.mem_append_left _ inside'
    next => exact inside
  shut d shut := by
    rw [State.calls_setCall] at shut ⊢
    split
    next same =>
      rw [if_pos same] at shut
      exact (notShut shut).elim
    next other =>
      rw [if_neg other] at shut
      exact conns.shut d shut
  asked j begun := by
    have was := conns.asked j begun
    rw [State.calls_setCall]
    split
    next same =>
      have was' : (s.calls (s.dials j).call).asked.isSome = true := was
      rw [show (s.dials j).call = c from same] at was'
      exact was'
    next => exact was

variable {next : DialStage}

theorem Conns.keep (conns : Conns s) (here : (s.dials j).stage = .dialed conn)
    (own : next.conn = some conn) : Conns (s.keep j conn next) := by
  have begun : (s.dials j).stage ≠ .idle := by simp [here]
  unfold State.keep
  dsimp only
  split
  · exact (conns.closeConn conn).dialTo begun nofun nofun
  next running =>
    have notShut : ¬(s.calls (s.dials j).call).shut = true := by
      intro shut
      exact running (by simp [shut])
    refine (conns.addConn notShut).dialTo begun (fun k made => ?_) (fun k kept => .inr ?_)
    · rw [own] at made
      cases made
      exact conns.made j conn (by rw [here]; rfl)
    · rw [conn_of_keptConn kept] at own
      cases own
      show conn ∈ ((s.setCall (s.dials j).call _).calls (s.dials j).call).conns
      rw [State.calls_setCall, if_pos rfl]
      exact List.mem_append_right _ (List.mem_singleton.mpr rfl)

theorem Conns.step (conns : Conns s) (step : Step s s') : Conns s' := by
  cases step with
  | setBegins | setOn | setOff | setLocks | setReturns =>
    exact conns.same rfl rfl rfl fun _ => ⟨rfl, rfl, id⟩
  | setCancels i c =>
    have cancelled : Conns (s.cancel c) := conns.setCall rfl rfl id
    exact cancelled.same rfl rfl rfl fun _ => ⟨rfl, rfl, id⟩
  | begins | gateRefuses | gatePasses | badBody | hooks | openedSince | clears | noTransport
  | requestFails | failsOpen | failsClosed | answers | cutOff | dropsReply | keepsReply
  | cancels | shows | showsDecoy | expires => exact conns.setCall rfl rfl id
  | tracks c =>
    have listed : Conns { s with moatCalls := c :: s.moatCalls } :=
      conns.same rfl rfl rfl fun _ => ⟨rfl, rfl, id⟩
    exact listed.setCall rfl rfl id
  | requests => exact conns.setCall rfl rfl fun _ => rfl
  | untracks c =>
    have unlisted : Conns { s with moatCalls := s.moatCalls.filter (· ≠ c) } :=
      conns.same rfl rfl rfl fun _ => ⟨rfl, rfl, id⟩
    exact unlisted.setCall rfl rfl id
  | returns c => exact (conns.closeAll c).setCall rfl rfl id
  | hookRuns c => exact conns.closeAll c
  | dialBegins j c kind via _ asked => exact conns.setDial (by rw [asked]; rfl) nofun nofun
  | notAllowed j here | frontOver j here | frontChecked j here | frontDials j here
  | hostDials j here | dialFails j ended here => exact conns.dialTo (by simp [here]) nofun nofun
  | dialConnects j here | tunnelOpens j here =>
    have begun : (s.dials j).stage ≠ .idle := by simp [here]
    exact conns.connects begun
  | keeps j conn here | keepsTunnel j conn here => exact conns.keep here rfl
  | handshakes j conn here =>
    refine conns.dialTo (by simp [here]) (fun k made => ?_) (fun k kept => ?_)
    · exact conns.made j k (by rw [here]; exact made)
    · exact conns.held j k (by rw [here]; exact kept)
  | noHandshake j conn here =>
    have begun : (s.dials j).stage ≠ .idle := by simp [here]
    exact (conns.closeConn conn).dialTo begun nofun nofun

theorem conns_of_reaches (run : Reaches {} s) : Conns s :=
  run.invariant Conns conns_init fun conns _ step => conns.step step

/-! ## Dials on an ended context -/

theorem Step.done (step : Step s s') (done : (s.calls c).ctxDone = true) :
    (s'.calls c).ctxDone = true := by
  cases step.moves with
  | setBegins | setOn | setOff | setLocks | setReturns => exact done
  | setCancels i d left =>
    show ((s.cancel d).calls c).ctxDone = true
    rw [State.calls_cancel]
    split
    · rfl
    · exact done
  | call d move =>
    by_cases same : c = d
    · subst same
      exact move.done done
    · rw [move.others c same]
      exact done

inductive DialMove (s : State) (j : Nat) : DialStage → Prop
  | failed : DialMove s j .failed
  | checked : DialMove s j .checked
  | dialing : DialMove s j (.dialing (s.calls (s.dials j).call).ctxDone)
  | connects (conn : Nat) (here : (s.dials j).stage = .dialing false) : DialMove s j (.dialed conn)
  | tunnel (conn : Nat) (here : (s.dials j).stage = .begun) : DialMove s j (.dialed conn)
  | keeps (stage : DialStage) (running : (s.calls (s.dials j).call).ctxDone = false) :
      DialMove s j stage
  | handed (conn : Nat) (here : (s.dials j).stage = .kept conn) : DialMove s j (.handed conn)

/-- A dial that has begun keeps its call, and stays where it is or moves on. -/
def DialKept (s s' : State) (j : Nat) : Prop :=
  s'.dials j = s.dials j ∨
    ∃ stage, s'.dials j = { s.dials j with stage := stage } ∧ DialMove s j stage ∧ stage ≠ .idle

theorem dialKept_dialTo {k : Nat} (move : DialMove s k stage) (going : stage ≠ .idle)
    (dials : s'.dials = (s.dialTo k stage).dials) : DialKept s s' j := by
  unfold DialKept
  rw [dials, State.dials_dialTo]
  by_cases same : j = k
  · subst same
    rw [if_pos rfl]
    exact .inr ⟨stage, rfl, move, going⟩
  · rw [if_neg same]
    exact .inl rfl

theorem dialKept_keep {k : Nat} (going : next ≠ .idle) : DialKept s (s.keep k conn next) j := by
  unfold State.keep
  dsimp only
  split
  · exact dialKept_dialTo .failed nofun rfl
  next running =>
    have notDone : (s.calls (s.dials k).call).ctxDone = false := by
      simp only [Bool.or_eq_true, not_or, Bool.not_eq_true] at running
      exact running.2
    exact dialKept_dialTo (.keeps next notDone) going rfl

theorem Step.dialKept (step : Step s s') (begun : (s.dials j).stage ≠ .idle) : DialKept s s' j := by
  cases step with
  | dialBegins k c kind via free =>
    left
    have other : j ≠ k := by
      intro same
      rw [same] at begun
      exact begun free
    rw [State.dials_setDial, if_neg other]
  | notAllowed k | frontOver k | dialFails k | noHandshake k conn =>
    exact dialKept_dialTo .failed nofun rfl
  | frontChecked k => exact dialKept_dialTo .checked nofun rfl
  | frontDials k | hostDials k => exact dialKept_dialTo .dialing nofun rfl
  | dialConnects k here => exact dialKept_dialTo (.connects s.nextConn here) nofun rfl
  | tunnelOpens k here => exact dialKept_dialTo (.tunnel s.nextConn here) nofun rfl
  | keeps k conn | keepsTunnel k conn => exact dialKept_keep nofun
  | handshakes k conn here => exact dialKept_dialTo (.handed conn here) nofun rfl
  | _ => exact .inl rfl

/-- The dial is one of an ended call, and has kept no connection. -/
structure Doomed (s : State) (j : Nat) : Prop where
  done : (s.calls (s.dials j).call).ctxDone = true
  begun : (s.dials j).stage ≠ .idle
  ended : (s.dials j).stage ≠ .dialing false
  keptNone : (s.dials j).stage.keptConn = none

theorem Doomed.step (doomed : Doomed s j) (step : Step s s') : Doomed s' j := by
  have done := step.done doomed.done
  rcases step.dialKept doomed.begun with same | ⟨stage, moved, move, going⟩
  · rw [← same] at done
    refine ⟨done, ?_, ?_, ?_⟩ <;> rw [same]
    exacts [doomed.begun, doomed.ended, doomed.keptNone]
  · have onward : stage ≠ .dialing false ∧ stage.keptConn = none := by
      cases move with
      | failed | checked | tunnel => exact ⟨nofun, rfl⟩
      | dialing =>
        rw [doomed.done]
        exact ⟨nofun, rfl⟩
      | connects conn here => exact (doomed.ended here).elim
      | keeps _ running =>
        rw [doomed.done] at running
        exact nomatch running
      | handed conn here =>
        have none := doomed.keptNone
        rw [here] at none
        exact nomatch none
    refine ⟨?_, ?_, ?_, ?_⟩ <;> rw [moved]
    exacts [done, going, onward.1, onward.2]

/-- A dial that begins while the decoy stays open is one of an ended call. -/
theorem doomed_of_begins (inv : Inv s) (firm : s.Firm) (j : Nat) (kind : DialKind)
    (asked : (s.calls c).asked.isSome = true) : Doomed (s.setDial j ⟨c, kind, .begun⟩) j := by
  obtain ⟨i, returned, on, counted⟩ := firm
  have isOpen : s.Opened i := ⟨on, counted, by rw [returned]; nofun, by rw [returned]; nofun⟩
  have done := inv.returned i isOpen returned c (.inr asked)
  refine ⟨?_, ?_, ?_, ?_⟩
  · rw [State.dials_setDial, if_pos rfl]
    exact done
  · simp
  · simp
  · simp [DialStage.keptConn]

/-! ## Calls that begin under a decoy -/

def Stage.atGate : Stage → Bool
  | begun => true
  | returned (.refused _) => true
  | shown (.refused _) => true
  | _ => false

theorem atGate_setCall {d : Nat} {call : Call}
    (onward : (s.calls d).stage.atGate = true → call.stage.atGate = true)
    (atGate : (s.calls c).stage.atGate = true) :
    ((s.setCall d call).calls c).stage.atGate = true := by
  rw [State.calls_setCall]
  split
  next same =>
    rw [same] at atGate
    exact onward atGate
  next => exact atGate

theorem atGate_keep (atGate : (s.calls c).stage.atGate = true) :
    ((s.keep j conn next).calls c).stage.atGate = true := by
  unfold State.keep
  dsimp only
  split
  · exact atGate
  · exact atGate_setCall id atGate

theorem Step.atGate (step : Step s s') (isOpen : s.decoy = .on)
    (atGate : (s.calls c).stage.atGate = true) : (s'.calls c).stage.atGate = true := by
  have stays : ∀ {d : Nat} {stage : Stage} {call : Call}, (s.calls d).stage = stage →
      (stage.atGate = true → call.stage.atGate = true) →
      ((s.setCall d call).calls c).stage.atGate = true := by
    intro d stage call here onward
    exact atGate_setCall (fun was => onward (here ▸ was)) atGate
  cases step with
  | setCancels i d => exact atGate_setCall id atGate
  | begins d a free => exact stays free nofun
  | gateRefuses d why here => exact stays here fun _ => rfl
  | gatePasses d via _ passed =>
    obtain ⟨-, off, -⟩ := moatGate_eq_ok passed
    rw [isOpen] at off
    exact nomatch off
  | badBody d via here | hooks d via here | openedSince d via here | clears d via here
  | noTransport d via why here | requests d via here | requestFails d via here
  | failsOpen d here | failsClosed d why here | answers d via here | cutOff d here
  | dropsReply d here | keepsReply d here | cancels d outcome here | showsDecoy d here =>
    exact stays here nofun
  | tracks d via here =>
    have was : (({ s with moatCalls := d :: s.moatCalls } : State).calls d).stage = .gated via := here
    exact atGate_setCall (fun gate => by rw [was] at gate; exact nomatch gate) atGate
  | untracks d outcome here =>
    have was : (({ s with moatCalls := s.moatCalls.filter (· ≠ d) } : State).calls d).stage =
      .untracking outcome := here
    exact atGate_setCall (fun gate => by rw [was] at gate; exact nomatch gate) atGate
  | returns d outcome here =>
    have closed : ((s.closeAll d).calls c).stage.atGate = true := atGate_setCall id atGate
    have was : ((s.closeAll d).calls d).stage = .closing outcome := by
      rw [State.calls_closeAll, if_pos rfl]
      exact here
    exact atGate_setCall (fun gate => by rw [was] at gate; exact nomatch gate) closed
  | shows d outcome here =>
    refine stays here fun gate => ?_
    cases outcome with
    | reply => exact nomatch gate
    | refused why => rfl
  | expires d | hookRuns d => exact atGate_setCall id atGate
  | keeps j conn | keepsTunnel j conn => exact atGate_keep atGate
  | _ => exact atGate

theorem Step.firm (step : Step s s') {i : Nat} (returned : (s.setters i).stage = .returned) :
    s.closes ≤ s'.closes ∧ s'.setters i = s.setters i := by
  have other : ∀ {k : Nat} {stage : SetStage}, (s.setters k).stage = stage →
      stage ≠ .returned → i ≠ k := by
    intro k stage here different same
    rw [← same, returned] at here
    exact different here.symm
  cases step.moves with
  | setBegins k on here | setOn k here =>
    rw [State.setters_setSetter, if_neg (other here nofun)]
    exact ⟨Nat.le_refl _, rfl⟩
  | setOff k here =>
    rw [State.setters_setterTo, if_neg (other here nofun)]
    exact ⟨Nat.le_succ _, rfl⟩
  | setLocks k left here | setCancels k c left here | setReturns k here =>
    rw [State.setters_setterTo, if_neg (other here nofun)]
    exact ⟨Nat.le_refl _, rfl⟩
  | call c move =>
    rw [move.setters, move.closes]
    exact ⟨Nat.le_refl _, rfl⟩

/-- Until the decoy is closed again the call is at the gate. -/
structure ShutOut (closes i c : Nat) (s : State) : Prop where
  inv : Inv s
  returned : (s.setters i).stage = .returned
  on : (s.setters i).on = true
  count : (s.setters i).closesAt = closes
  least : closes ≤ s.closes
  atGate : s.closes = closes → (s.calls c).stage.atGate = true

theorem ShutOut.step {closes i : Nat} (shutOut : ShutOut closes i c s) (step : Step s s') :
    ShutOut closes i c s' := by
  obtain ⟨inv, returned, on, count, least, atGate⟩ := shutOut
  obtain ⟨grows, same⟩ := step.firm returned
  refine ⟨inv.step step, ?_, ?_, ?_, Nat.le_trans least grows, fun still => ?_⟩
  · rwa [same]
  · rwa [same]
  · rwa [same]
  · have before : s.closes = closes := by omega
    have isOpen : s.Opened i :=
      ⟨on, count.trans before.symm, by rw [returned]; nofun, by rw [returned]; nofun⟩
    exact step.atGate (inv.isOn i isOpen) (atGate before)

/-- Once a call that opened the decoy has returned, and until the decoy is closed, no dial that
begins hands back a connection, every connection kept is closed with its call's context ended,
and no call that begins gets a reply.  A dial is only ever one of a call that was allowed. -/
theorem decoy_ends_calls {s : State} (reached : Reaches {} s) :
    (s.Firm → (∀ j c kind via, (s.dials j).stage = .idle → (s.calls c).asked = some via →
        kind.fits via = true → ∀ t, Reaches (s.setDial j ⟨c, kind, .begun⟩) t →
        ∀ conn, (t.dials j).stage ≠ .handed conn) ∧
      (∀ j conn, (s.dials j).stage.keptConn = some conn →
        (s.calls (s.dials j).call).ctxDone = true ∧ (s.calls (s.dials j).call).armed = true ∧
        ((s.calls (s.dials j).call).shut = true → s.openConn conn = false) ∧
        (s.closeAll (s.dials j).call).openConn conn = false) ∧
      (∀ c a, (s.calls c).stage = .idle →
        ∀ t, Reaches (s.setCall c { s.calls c with ask := a, stage := .begun }) t →
        t.closes = s.closes →
        (t.calls c).stage ≠ .returned .reply ∧ (t.calls c).stage ≠ .shown .reply)) ∧
    (∀ j, (s.dials j).stage ≠ .idle → s.decoy ≠ .unknown ∧
      ∃ via, (s.calls (s.dials j).call).asked = some via ∧
        (s.calls (s.dials j).call).ask.Allows via) := by
  have inv := inv_of_reaches reached
  have conns := conns_of_reaches reached
  refine ⟨fun firm => ⟨?_, ?_, ?_⟩, ?_⟩
  · intro j c kind via _ asked _ t run conn handed
    have some : (s.calls c).asked.isSome = true := by rw [asked]; rfl
    have begins := doomed_of_begins inv firm j kind some
    have doomed : Doomed t j :=
      run.invariant (Doomed · j) begins fun doomed _ step => doomed.step step
    have none := doomed.keptNone
    rw [handed] at none
    exact nomatch none
  · intro j conn kept
    obtain ⟨i, returned, on, counted⟩ := firm
    have isOpen : s.Opened i := ⟨on, counted, by rw [returned]; nofun, by rw [returned]; nofun⟩
    have begun : (s.dials j).stage ≠ .idle := by
      intro idle
      rw [idle] at kept
      exact nomatch kept
    have past : (s.calls (s.dials j).call).Past := .inr (conns.asked j begun)
    have held := conns.held j conn kept
    refine ⟨inv.returned i isOpen returned _ past, (inv.good _).armed past, fun shut => ?_, ?_⟩
    · rw [conns.shut _ shut] at held
      exact held.resolve_right nofun
    · show (if conn ∈ (s.calls (s.dials j).call).conns then false else s.openConn conn) = false
      split
      · rfl
      next notHeld => exact held.resolve_right notHeld
  · intro c a free t run still
    obtain ⟨i, returned, on, counted⟩ := firm
    have begins : ShutOut s.closes i c (s.setCall c { s.calls c with ask := a, stage := .begun }) := by
      refine ⟨inv.step (.begins c a free), returned, on, counted, Nat.le_refl _, fun _ => ?_⟩
      rw [State.calls_setCall, if_pos rfl]
      rfl
    have shutOut : ShutOut s.closes i c t :=
      run.invariant (ShutOut s.closes i c) begins fun shutOut _ step => shutOut.step step
    have atGate := shutOut.atGate still
    constructor <;>
    · intro reply
      rw [reply] at atGate
      exact nomatch atGate
  · intro j begun
    obtain ⟨via, asked⟩ := Option.isSome_iff_exists.mp (conns.asked j begun)
    have vetted := (inv.good (s.dials j).call).vetted via (.inr asked)
    exact ⟨vetted.2, via, asked, vetted.1⟩

theorem State.keep_of_running (own : (s.dials j).call = c) (running : (s.calls c).ctxDone = false)
    (notShut : (s.calls c).shut = false) :
    s.keep j conn next =
      (s.setCall c { s.calls c with conns := (s.calls c).conns ++ [conn] }).dialTo j next := by
  subst own
  rw [keep, if_neg (by simp [running, notShut])]

def agreed : Ask := ⟨⟨true, "", false⟩, false⟩

structure Requesting (s : State) : Prop where
  reached : Reaches {} s
  locked : s.locked = false
  moatCalls : s.moatCalls = [0]
  call : s.calls 0 = { ask := agreed, stage := .requesting .meek, armed := true, asked := some .meek }
  dial : s.dials 0 = {}
  setter : s.setters 1 = {}

theorem exists_requesting : ∃ s, Requesting s := by
  have r1 : Reaches {} _ := Reaches.step .refl (.setBegins 0 false rfl)
  have r2 := r1.step (.setOff 0 rfl rfl)
  have r3 := r2.step (.begins 0 agreed rfl)
  have r4 := r3.step (.gatePasses 0 .meek rfl rfl)
  have r5 := r4.step (.tracks 0 .meek rfl rfl)
  have r6 := r5.step (.hooks 0 .meek rfl)
  have r7 := r6.step (.clears 0 .meek rfl rfl)
  have r8 := r7.step (.requests 0 .meek rfl)
  exact ⟨_, r8, rfl, rfl, rfl, rfl, rfl⟩

/-- A dial of that request has handed its connection back. -/
structure Handed (s : State) (conn : Nat) : Prop where
  reached : Reaches {} s
  locked : s.locked = false
  moatCalls : s.moatCalls = [0]
  dial : s.dials 0 = ⟨0, .front, .handed conn⟩
  setter : s.setters 1 = {}

theorem exists_handed : ∃ s conn, Handed s conn := by
  obtain ⟨s, reached, locked, moatCalls, call, dial, setter⟩ := exists_requesting
  have running : (s.calls 0).ctxDone = false := congrArg Call.ctxDone call
  have notShut : (s.calls 0).shut = false := congrArg Call.shut call
  have r1 := reached.step (.dialBegins 0 0 .front .meek (congrArg Dial.stage dial)
    (congrArg Call.asked call) rfl)
  have r2 := r1.step (.frontChecked 0 rfl rfl running)
  have r3 := r2.step (.frontDials 0 rfl)
  have dials : ((s.setDial 0 ⟨0, .front, .begun⟩).dialTo 0 .checked).dialTo 0
      (.dialing (s.calls 0).ctxDone) = s.setDial 0 ⟨0, .front, .dialing false⟩ := by
    simp [State.dialTo, State.setDial, running]
  have r4 : Reaches {} (s.setDial 0 ⟨0, .front, .dialing false⟩) := dials ▸ r3
  have r5 := r4.step (.dialConnects 0 rfl)
  have r6 := r5.step (.keeps 0 s.nextConn rfl fun told => by cases told)
  rw [State.keep_of_running rfl running notShut] at r6
  exact ⟨_, s.nextConn, r6, locked, moatCalls, rfl, setter⟩

theorem decoy_ends_calls_handed :
    ∃ s conn, Reaches {} s ∧ s.Firm ∧ s.dials 0 = ⟨0, .front, .handed conn⟩ ∧
      (s.calls 0).ctxDone = true ∧ (s.closeAll 0).openConn conn = false ∧
      s.decoy ≠ .unknown := by
  obtain ⟨s, conn, reached, locked, moatCalls, dial, setter⟩ := exists_handed
  have r1 := reached.step (.setBegins 1 true (congrArg Setter.stage setter))
  have r2 := r1.step (.setOn 1 rfl rfl)
  have r3 := r2.step (.setLocks 1 [0] rfl locked (moatCalls ▸ .refl _))
  have r4 := r3.step (.setCancels 1 0 [] rfl)
  have r5 := r4.step (.setReturns 1 rfl)
  refine ⟨_, conn, r5, ⟨1, rfl, rfl, rfl⟩, dial, ?_⟩
  obtain ⟨whileOpen, dialled⟩ := decoy_ends_calls r5
  obtain ⟨-, kept, -⟩ := whileOpen ⟨1, rfl, rfl, rfl⟩
  have keptConn : (s.dials 0).stage.keptConn = some conn := by rw [dial]; rfl
  have begun : (s.dials 0).stage ≠ .idle := by rw [dial]; nofun
  have own : (s.dials 0).call = 0 := congrArg Dial.call dial
  obtain ⟨done, -, -, closed⟩ := kept 0 conn keptConn
  change (State.calls _ (s.dials 0).call).ctxDone = true at done
  change (State.closeAll _ (s.dials 0).call).openConn conn = false at closed
  rw [own] at done closed
  exact ⟨done, closed, (dialled 0 begun).1⟩

end Kryfo.Moat
