import Mathlib.Init

/-!
# What one reconnect does

A reconnect takes tor off the network, hands it its bridges and puts it back, written as a script:
its steps, each asking first whether the reconnect still owns the slot, its control commands, and
what it reads of the rest of the engine, whose answers are free.
-/

namespace Kryfo.Reconnect

inductive Step
  | start
  | networkOff
  | bridgeConfig
  | networkOn
  | watchers
  deriving DecidableEq

inductive Command
  | startListener
  | disableNetwork
  | useBridgesOff
  | resetBridges
  | censor
  | pluginAndBridges
  | enableNetwork
  | watch
  deriving DecidableEq

/-- The commands told through `ctrlDo`. -/
def Command.byCtrlDo : Command → Bool
  | .startListener | .watch => false
  | _ => true

inductive Hold
  | noMode
  | ptDown
  | noConf
  | autoWait
  deriving DecidableEq

inductive Result
  | ok
  | alreadyRunning
  | superseded
  | automatic
  | asleep
  | tooSoon
  | noDataDir
  | offline
  | held (why : Hold)
  | failed (error : String)
  deriving DecidableEq

/-- Why a command was not sent to tor. -/
inductive Withheld
  | asleep
  | offline
  | hold (why : Hold)
  deriving DecidableEq

inductive Reply
  | done
  | withheld (why : Withheld)
  | refused (error : String)
  | broken (error : String)
  deriving DecidableEq

inductive Question
  | tooSoon
  | noDataDir
  | noTor
  | netAway
  | torIsPaused
  | bridgesEnabled
  | ptListenersUp
  | censorBuild
  deriving DecidableEq

inductive Mark
  | lastTorRestart
  | statusStarting
  | statusOff
  | bounceOff (off : Bool)
  | routeBump
  | percentageZero
  | bridgeConfErr (error : Option String)
  | linesApplied
  | netParked
  | clientsReset (background : Bool)
  | outcome (result : Result)
  deriving DecidableEq

/-- What a reconnect does next. -/
inductive Script
  | ret (result : Result)
  | step (name : Step) (next : Script)
  | mine (yes no : Script)
  | running (next : Script)
  | command (what : Command) (next : Reply → Script)
  | ask (question : Question) (next : Bool → Script)
  | hold (next : Option Hold → Script)
  | put (mark : Mark) (next : Script)

namespace Script

/-- A command that is only told, whatever tor answers. -/
def tell (what : Command) (next : Script) : Script := .command what fun _ => next

/-- A command whose failure ends a list of commands. -/
def attempt (what : Command) (next : Option Reply → Script) (rest : Script) : Script :=
  .command what fun
    | .refused error => next (some (.refused error))
    | .broken error => next (some (.broken error))
    | _ => rest

end Script

open Script

/-- Tor holds its config and stays off until a network comes. -/
def reconnectParks : Script :=
  .tell .disableNetwork <| .put (.bounceOff false) <| .put .netParked <| .ret .offline

/-- Hands tor the bridge configuration it should be using; `next` takes the
error, if any. -/
def applyBridgeConf (next : Option Reply → Script) : Script :=
  .ask .bridgesEnabled fun
    | false =>
      attempt .useBridgesOff next <| attempt .resetBridges next <|
        .ask .censorBuild fun
          | true => attempt .censor next (next none)
          | false => next none
    | true =>
      .ask .ptListenersUp fun
        | false => next (some (.broken "pt listeners"))
        | true =>
          attempt .pluginAndBridges next <| .put .linesApplied <| next none

def Reply.text : Reply → Option String
  | .refused error | .broken error => some error
  | _ => none

def leaveOff (why : Result) : Script := .put (.bounceOff false) <| .ret why

/-- A command that failed: only the owner touches the status. -/
def gaveUp (error : String) : Script :=
  .mine (.put (.bounceOff false) <| .put .statusOff <| .ret (.failed error)) (.ret .superseded)

def watchers (auto : Bool) : Script :=
  .step .watchers <| .put .routeBump <| .put (.bounceOff false) <|
    .put (.clientsReset auto) <| .tell .watch <| .ret .ok

/-- Why tor stays off after it was handed its bridges, or did not take them. -/
def keptOff (why : Option Hold) (confErr : Option Reply) (bridges : Bool) : Option Result :=
  let why := if why = none ∧ confErr ≠ none ∧ bridges then some .noConf else why
  match why, confErr with
  | none, _ => none
  | some .noConf, some (.broken error) => some (.failed error)
  | some why, _ => some (.held why)

def networkOn (auto : Bool) (confErr : Option Reply) : Script :=
  .put (.bridgeConfErr (confErr.bind Reply.text)) <| .step .networkOn <|
    .ask .torIsPaused fun
      | true => leaveOff .asleep
      | false => .ask .netAway fun
        | true => reconnectParks
        | false => .hold fun why => .ask .bridgesEnabled fun bridges =>
          match keptOff why confErr bridges with
          | some why => leaveOff why
          | none => .command .enableNetwork fun
            | .refused error | .broken error => gaveUp error
            | .withheld .offline => reconnectParks
            | .withheld .asleep => leaveOff .asleep
            | .withheld (.hold why) => leaveOff (.held why)
            | .done => watchers auto

def reconnectOn (auto : Bool) : Script :=
  .step .start <| .put (.bounceOff true) <| .put .routeBump <| .put .percentageZero <|
    .put .statusStarting <| .step .networkOff <| .command .disableNetwork fun
      | .refused error | .broken error => gaveUp error
      | _ => .ask .netAway fun away => .ask .torIsPaused fun paused =>
        if away && !paused then reconnectParks
        else .hold fun
          | some .noMode => leaveOff (.held .noMode)
          | some .autoWait => leaveOff (.held .autoWait)
          | _ => .step .bridgeConfig <| applyBridgeConf (networkOn auto)

def noted : Script → Script
  | .ret result => .mine (.put (.outcome result) (.ret result)) (.ret result)
  | .step name next => .step name (noted next)
  | .mine yes no => .mine (noted yes) (noted no)
  | .running next => .running (noted next)
  | .command what next => .command what fun reply => noted (next reply)
  | .ask question next => .ask question fun answer => noted (next answer)
  | .hold next => .hold fun why => noted (next why)
  | .put mark next => .put mark (noted next)

/-- What a reconnect does once it has the slot and nobody before it is left. -/
def body (force auto : Bool) : Script :=
  .ask .tooSoon fun soon =>
    if !force && !auto && soon then .ret .tooSoon
    else .put .lastTorRestart <| .ask .noDataDir fun
      | true => .put .statusOff <| .ret .noDataDir
      | false => .ask .noTor fun
        | true => .command .startListener fun
          | .refused error | .broken error => .ret (.failed error)
          | _ => .ret .ok
        | false => .running <| noted (reconnectOn auto)

end Kryfo.Reconnect
