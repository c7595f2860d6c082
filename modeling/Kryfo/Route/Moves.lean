import Kryfo.Route.Slot

/-!
# What a move of the reconnects can do

`Moved` lists all that one act can do to the system, and everything said of whole runs is shown of
its seven cases.
-/

namespace Kryfo.Reconnect

open Library

namespace Script

/-- A script says it was replaced only after asking whether it was. -/
def honest : Script → Prop
  | .ret result => result ≠ .superseded
  | .step _ next | .running next | .put _ next => next.honest
  | .mine yes _ => yes.honest
  | .command _ next => ∀ reply, (next reply).honest
  | .ask _ next => ∀ answer, (next answer).honest
  | .hold next => ∀ why, (next why).honest

theorem honest_noted {script : Script} (honest : script.honest) : (noted script).honest := by
  induction script with
  | ret result => exact honest
  | step name next ih | running next ih | put mark next ih => exact ih honest
  | mine yes no ihYes ihNo => exact ihYes honest
  | command what next ih => exact fun reply => ih reply (honest reply)
  | ask question next ih => exact fun answer => ih answer (honest answer)
  | hold next ih => exact fun why => ih why (honest why)

theorem honest_attempt {what : Command} {next : Option Reply → Script} {rest : Script}
    (failed : ∀ reply, (next reply).honest) (onward : rest.honest) :
    (attempt what next rest).honest := by
  intro reply
  cases reply with
  | refused error | broken error => exact failed _
  | done | withheld why => exact onward

end Script

theorem honest_reconnectParks : reconnectParks.honest := fun _ => nofun

theorem honest_applyBridgeConf {next : Option Reply → Script}
    (onward : ∀ error, (next error).honest) : (applyBridgeConf next).honest := by
  intro enabled
  cases enabled with
  | false =>
    refine Script.honest_attempt onward (Script.honest_attempt onward fun censored => ?_)
    cases censored with
    | true => exact Script.honest_attempt onward (onward none)
    | false => exact onward none
  | true =>
    intro up
    cases up with
    | true => exact Script.honest_attempt onward (onward none)
    | false => exact onward _

theorem keptOff_ne_superseded (why : Option Hold) (confErr : Option Reply) (bridges : Bool) :
    keptOff why confErr bridges ≠ some .superseded := by
  unfold keptOff
  dsimp only
  split <;> simp

theorem honest_leaveOff {why : Result} (other : why ≠ .superseded) : (leaveOff why).honest := other

theorem honest_networkOn (auto : Bool) (confErr : Option Reply) :
    (networkOn auto confErr).honest := by
  intro paused
  cases paused with
  | true => exact honest_leaveOff nofun
  | false =>
    intro away
    cases away with
    | true => exact honest_reconnectParks
    | false =>
      intro why bridges
      have other := keptOff_ne_superseded why confErr bridges
      dsimp only
      cases kept : keptOff why confErr bridges with
      | some result => exact honest_leaveOff fun same => other (kept.trans (congrArg some same))
      | none =>
        intro reply
        cases reply with
        | done => exact fun _ => nofun
        | refused error | broken error => exact nofun
        | withheld why =>
          cases why with
          | offline => exact honest_reconnectParks
          | asleep | hold why => exact honest_leaveOff nofun

theorem honest_unlessAway {rest : Option Hold → Script} (onward : ∀ why, (rest why).honest) :
    (Script.ask .netAway fun away => .ask .torIsPaused fun paused =>
      if away && !paused then reconnectParks else .hold rest).honest := by
  intro away paused
  dsimp only
  split
  · exact honest_reconnectParks
  · exact onward

theorem honest_reconnectOn (auto : Bool) : (reconnectOn auto).honest := by
  intro reply
  cases reply
  case refused error | broken error => exact fun same => by cases same
  case done | withheld =>
    refine honest_unlessAway fun why => ?_
    split
    · exact honest_leaveOff (by simp)
    · exact honest_leaveOff (by simp)
    · exact honest_applyBridgeConf (honest_networkOn auto)

theorem honest_body (force auto : Bool) : (body force auto).honest := by
  intro soon
  dsimp only
  split
  · exact nofun
  intro noDir
  cases noDir with
  | true => exact nofun
  | false =>
    intro noTor
    cases noTor with
    | true =>
      intro reply
      cases reply <;> exact nofun
    | false => exact Script.honest_noted (honest_reconnectOn auto)

namespace Phase

/-- A call says it was replaced only if another owns the slot. -/
def honest (owner : Nat) : Phase → Prop
  | .doing held script => script.honest ∨ held.me ≠ owner
  | .telling held _ next => (∀ reply, (next reply).honest) ∨ held.me ≠ owner
  | .leaving held result | .closing held result | .ended (some held) result =>
    result ≠ .superseded ∨ held.me ≠ owner
  | .ended none result => result ≠ .superseded
  | .idle | .waiting _ _ => True

/-- A call that is past its wait and has not closed its channel. -/
def onward : Phase → Bool
  | .doing _ _ | .telling _ _ _ | .leaving _ _ | .closing _ _ => true
  | _ => false

end Phase

namespace Engine

/-- A call that can go on: it waits for nobody that still runs. -/
def front (e : Engine) : Phase → Bool
  | .waiting _ prev => e.stopped prev
  | .doing _ _ | .telling _ _ _ | .leaving _ _ => true
  | _ => false

end Engine

/-- All that an act can do to the system, where no wait is given up. -/
inductive Moved (e : Engine) : Engine → Prop
  | turnedAway {i : Nat} {result : Result} (idle : e.phase i = .idle)
      (other : result ≠ .superseded) : Moved e (e.set i (.ended none result))
  | entered {i : Nat} {script : Script} (idle : e.phase i = .idle) (free : e.done = none)
      (honest : script.honest) :
      Moved e ((e.reconnectClaim i).2.set i (.doing (e.reconnectClaim i).1 script))
  | queued {i prev : Nat} (idle : e.phase i = .idle) (taken : e.done = some prev) :
      Moved e ((e.reconnectClaim i).2.set i (.waiting (e.reconnectClaim i).1 prev))
  | shifted {i : Nat} {held : Held} {p : Phase} {since : Int} {running : Bool}
      {steps : List (Nat × Step)} {parked : List (Nat × Command)} (was : (e.phase i).held = some held)
      (front : e.front (e.phase i)) (now : p.held = some held) (onward : p.onward)
      (gaveBack : p.live = false → held.me ≠ e.owner)
      (begun : steps = e.steps ∨ ∃ name, steps = (i, name) :: e.steps ∧ e.owner = held.me)
      (keeps : (e.phase i).honest e.owner → p.honest e.owner) :
      Moved e ({ e with since, running, steps, parked }.set i p)
  | landed (parked : List (Nat × Command)) : Moved e { e with parked }
  | released {i : Nat} {held : Held} {result : Result} (was : e.phase i = .leaving held result)
      (mine : e.owner = held.me) :
      Moved e ((e.reconnectRelease held).set i (.closing held result))
  | closed {i : Nat} {held : Held} {result : Result} (was : e.phase i = .closing held result) :
      Moved e (e.close i held result)

namespace Moved

variable {e e' : Engine} {how : Nat → How} {i : Nat}

theorem plain {held : Held} {p : Phase} (was : (e.phase i).held = some held)
    (front : e.front (e.phase i)) (now : p.held = some held) (onward : p.onward)
    (live : p.live = true) (keeps : (e.phase i).honest e.owner → p.honest e.owner) :
    Moved e (e.set i p) :=
  .shifted was front now onward (by simp [live]) (.inl rfl) keeps

theorem of_call {h : How} {paused gateHeld : Bool} {now : Int} (idle : e.phase i = .idle) :
    Moved e (e.reconnectTorBy h i paused gateHeld now) := by
  unfold Engine.reconnectTorBy
  split
  · exact .turnedAway idle nofun
  split
  · exact .turnedAway idle nofun
  split
  · exact .turnedAway idle nofun
  cases slot : e.done with
  | none => exact .entered idle slot (honest_body _ _)
  | some prev => exact .queued idle slot

theorem of_move {held : Held} {yes : Bool} {why : Option Hold} {now : Int} {script : Script}
    (was : e.phase i = .doing held script) : Moved e (e.move i held yes why now script) := by
  have holds : (e.phase i).held = some held := by rw [was]; rfl
  have front : e.front (e.phase i) = true := by rw [was]; rfl
  have replaced (other : ¬e.reconnectMine held = true) : held.me ≠ e.owner := fun same =>
    other (by simp [Engine.reconnectMine, same])
  cases script with
  | ret result | command what next | put mark next =>
    exact .plain holds front rfl rfl rfl (by rw [was]; exact id)
  | step name next =>
    rw [Engine.move]
    split
    next mine =>
      have owns : e.owner = held.me := of_decide_eq_true mine
      exact .shifted holds front rfl rfl nofun (.inr ⟨name, rfl, owns⟩) (by rw [was]; exact id)
    next other => exact .plain holds front rfl rfl rfl fun _ => .inr (replaced other)
  | mine yes no =>
    refine .plain holds front rfl rfl rfl ?_
    rw [was]
    split
    · exact id
    next other => exact fun _ => .inr (replaced other)
  | running next =>
    rw [Engine.move]
    split
    · exact .shifted holds front rfl rfl nofun (.inl rfl) (by rw [was]; exact id)
    · exact .plain holds front rfl rfl rfl (by rw [was]; exact id)
  | ask question next =>
    exact .plain holds front rfl rfl rfl (by rw [was]; exact Or.imp_left fun all => all yes)
  | hold next =>
    exact .plain holds front rfl rfl rfl (by rw [was]; exact Or.imp_left fun all => all why)

theorem of_release {held : Held} {result : Result} (was : e.phase i = .leaving held result) :
    Moved e ((e.reconnectRelease held).set i (.closing held result)) := by
  by_cases mine : e.owner = held.me
  · exact .released was mine
  · rw [Engine.reconnectRelease, if_neg mine]
    refine .shifted ?_ ?_ rfl rfl (fun _ same => mine same.symm) (.inl rfl) ?_
    · rw [was]; rfl
    · rw [was]; rfl
    · rw [was]; exact id

theorem of_next {act : Act} (taken : e.next how act = some e') (patient : act.patient = true) :
    Moved e e' := by
  cases act with
  | giveUp i => cases patient
  | call i paused gateHeld now =>
    rw [Engine.next] at taken
    split at taken
    next idle => cases taken; exact of_call idle
    · cases taken
  | wake i =>
    rw [Engine.next] at taken
    split at taken
    next held prev waits =>
      split at taken
      next stopped =>
        cases taken
        refine .plain ?_ ?_ rfl rfl rfl fun _ => .inl (honest_body _ _)
        · rw [waits]; rfl
        · rw [waits]; exact stopped
      · cases taken
    · cases taken
  | move i yes why now =>
    rw [Engine.next] at taken
    split at taken
    next held script doing => cases taken; exact of_move doing
    · cases taken
  | reply i reply =>
    rw [Engine.next] at taken
    split at taken
    next held what next telling =>
      cases taken
      refine .plain ?_ ?_ rfl rfl rfl ?_
      · rw [telling]; rfl
      · rw [telling]; rfl
      · rw [telling]; exact Or.imp_left fun all => all reply
    · cases taken
  | leave i error =>
    rw [Engine.next] at taken
    split at taken
    next held what next telling =>
      split at taken
      · cases taken
        refine .shifted ?_ ?_ rfl rfl nofun (.inl rfl) ?_
        · rw [telling]; rfl
        · rw [telling]; rfl
        · rw [telling]; exact Or.imp_left fun all => all (.broken error)
      · cases taken
    · cases taken
  | land i what =>
    rw [Engine.next] at taken
    split at taken
    · cases taken; exact .landed _
    · cases taken
  | release i =>
    rw [Engine.next] at taken
    split at taken
    next held result leaving => cases taken; exact of_release leaving
    · cases taken
  | close i =>
    rw [Engine.next] at taken
    split at taken
    next held result closing => cases taken; exact .closed closing
    · cases taken

end Moved

end Kryfo.Reconnect
