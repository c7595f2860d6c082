import Kryfo.Moat.Calls

/-!
# A decoy ends every call

A call that looked a second time and found the decoy closed is listed, or its context has ended.
So once an opening has returned, every call past its second look has an ended context.
-/

namespace Kryfo.Moat

open Library

namespace Stage

def isListed : Stage → Bool
  | tracked _ => true
  | hooked _ => true
  | _ => false

/-- Past the second look, with the request to make or under way. -/
def isPast : Stage → Bool
  | cleared _ => true
  | requesting _ => true
  | failing => true
  | answered => true
  | _ => false

def isEnded : Stage → Bool
  | untracking _ => true
  | closing _ => true
  | _ => false

def path : Stage → Option Via
  | gated via => some via
  | tracked via => some via
  | hooked via => some via
  | cleared via => some via
  | requesting via => some via
  | _ => none

end Stage

def Call.Past (call : Call) : Prop := call.stage.isPast = true ∨ call.asked.isSome = true

/-- What holds of one call, `listed` being whether the decoy would find it. -/
structure Call.Good (call : Call) (listed : Prop) (decoy : Decoy) : Prop where
  isListed : call.stage.isListed = true → listed
  live : call.Past → call.ctxDone = true ∨ listed
  ended : call.stage.isEnded = true → call.ctxDone = true
  idle : call.asked.isSome = true → call.stage ≠ .idle
  vetted : ∀ via, call.stage.path = some via ∨ call.asked = some via →
    call.ask.Allows via ∧ decoy ≠ .unknown
  armed : call.Past → call.armed = true
  hooked : ∀ via, call.stage = .hooked via → call.armed = true

/-- What a step of the call `c` does, seen from the others. -/
structure CallMove (s s' : State) (c : Nat) : Prop where
  setters : s'.setters = s.setters
  decoy : s'.decoy = s.decoy
  closes : s'.closes = s.closes
  others : ∀ d, d ≠ c → s'.calls d = s.calls d
  listed : ∀ d, d ≠ c → d ∈ s.moatCalls → d ∈ s'.moatCalls
  good : (s.calls c).Good (c ∈ s.moatCalls) s.decoy → (s'.calls c).Good (c ∈ s'.moatCalls) s.decoy
  past : (s'.calls c).Past → (s.calls c).Past ∨ s.decoy = .off
  done : (s.calls c).ctxDone = true → (s'.calls c).ctxDone = true

namespace State

variable (s : State) (c : Nat)

@[simp]
theorem calls_setCall (call : Call) (d : Nat) :
    (s.setCall c call).calls d = if d = c then call else s.calls d := by
  simp [setCall, Function.update_apply]

@[simp]
theorem calls_cancel (d : Nat) :
    (s.cancel c).calls d = if d = c then { s.calls c with ctxDone := true } else s.calls d :=
  s.calls_setCall c _ d

@[simp]
theorem calls_closeAll (d : Nat) :
    (s.closeAll c).calls d =
      if d = c then { s.calls c with shut := true, conns := [] } else s.calls d :=
  s.calls_setCall c _ d

@[simp]
theorem setters_setSetter (i k : Nat) (setter : Setter) :
    (s.setSetter i setter).setters k = if k = i then setter else s.setters k := by
  simp [setSetter, Function.update_apply]

@[simp]
theorem setters_setterTo (i k : Nat) (stage : SetStage) :
    (s.setterTo i stage).setters k =
      if k = i then { s.setters i with stage := stage } else s.setters k :=
  s.setters_setSetter i k _

@[simp]
theorem dials_setDial (j k : Nat) (dial : Dial) :
    (s.setDial j dial).dials k = if k = j then dial else s.dials k := by
  simp [setDial, Function.update_apply]

@[simp]
theorem dials_dialTo (j k : Nat) (stage : DialStage) :
    (s.dialTo j stage).dials k = if k = j then { s.dials j with stage := stage } else s.dials k :=
  s.dials_setDial j k _

end State

/-! ## The steps of a call -/

section

variable {s : State} {c : Nat}

theorem callMove_setCall {call : Call} {moatCalls : List Nat}
    (listed : ∀ d, d ≠ c → d ∈ s.moatCalls → d ∈ moatCalls)
    (good : (s.calls c).Good (c ∈ s.moatCalls) s.decoy → call.Good (c ∈ moatCalls) s.decoy)
    (past : call.Past → (s.calls c).Past ∨ s.decoy = .off)
    (done : (s.calls c).ctxDone = true → call.ctxDone = true) :
    CallMove s ({ s with moatCalls }.setCall c call) c where
  setters := rfl
  decoy := rfl
  closes := rfl
  others d other := by rw [State.calls_setCall, if_neg other]
  listed := listed
  good was := by
    rw [State.calls_setCall, if_pos rfl]
    exact good was
  past now := by
    rw [State.calls_setCall, if_pos rfl] at now
    exact past now
  done was := by
    rw [State.calls_setCall, if_pos rfl]
    exact done was

theorem callMove_toStage {stage : Stage}
    (isListed : stage.isListed = true → (s.calls c).stage.isListed = true)
    (isPast : stage.isPast = true → (s.calls c).stage.isPast = true ∨
      s.decoy = .off ∧ ∃ via, (s.calls c).stage = .hooked via)
    (isEnded : stage.isEnded = true → (s.calls c).stage.isEnded = true)
    (path : ∀ via, stage.path = some via → (s.calls c).stage.path = some via ∨
      (s.calls c).ask.Allows via ∧ s.decoy ≠ .unknown)
    (hooked : ∀ via, stage ≠ .hooked via) (idle : stage ≠ .idle) :
    CallMove s (s.toStage c stage) c := by
  refine callMove_setCall (fun _ _ => id) (fun good => ?_) (fun past => ?_) id
  · have before : ({ s.calls c with stage := stage } : Call).Past →
        ((s.calls c).ctxDone = true ∨ c ∈ s.moatCalls) ∧ (s.calls c).armed = true := by
      rintro (now | asked)
      · rcases isPast now with before | ⟨-, via, at'⟩
        · exact ⟨good.live (.inl before), good.armed (.inl before)⟩
        · exact ⟨.inr (good.isListed (by rw [at']; rfl)), good.hooked via at'⟩
      · exact ⟨good.live (.inr asked), good.armed (.inr asked)⟩
    refine ⟨fun now => good.isListed (isListed now), fun past => (before past).1,
      fun now => good.ended (isEnded now), fun _ => idle, fun via names => ?_,
      fun past => (before past).2, fun via at' => (hooked via at').elim⟩
    rcases names with named | asked
    · rcases path via named with before | allowed
      · exact good.vetted via (.inl before)
      · exact allowed
    · exact good.vetted via (.inr asked)
  · rcases past with now | asked
    · rcases isPast now with before | ⟨off, -⟩
      · exact .inl (.inl before)
      · exact .inr off
    · exact .inl (.inr asked)

theorem callMove_of_calls {s' : State} (setters : s'.setters = s.setters)
    (decoy : s'.decoy = s.decoy) (closes : s'.closes = s.closes)
    (moatCalls : s'.moatCalls = s.moatCalls) (others : ∀ d, d ≠ c → s'.calls d = s.calls d)
    (same : ∃ shut conns, s'.calls c = { s.calls c with shut := shut, conns := conns }) :
    CallMove s s' c := by
  obtain ⟨shut, conns, call⟩ := same
  refine ⟨setters, decoy, closes, others, fun d _ inside => ?_, fun good => ?_, fun past => ?_,
    fun done => ?_⟩
  · rw [moatCalls]
    exact inside
  · rw [call, moatCalls]
    exact ⟨good.isListed, good.live, good.ended, good.idle, good.vetted, good.armed, good.hooked⟩
  · rw [call] at past
    exact .inl past
  · rw [call]
    exact done

theorem callMove_dialTo (j : Nat) (stage : DialStage) (c : Nat) :
    CallMove s (s.dialTo j stage) c :=
  callMove_of_calls rfl rfl rfl rfl (fun _ _ => rfl) ⟨_, _, rfl⟩

theorem callMove_closeAll : CallMove s (s.closeAll c) c := by
  refine callMove_of_calls rfl rfl rfl rfl (fun d other => ?_) ⟨true, [], ?_⟩
  · simp [other]
  · simp

theorem callMove_keep (j conn : Nat) (next : DialStage) :
    CallMove s (s.keep j conn next) (s.dials j).call := by
  unfold State.keep
  dsimp only
  split
  · exact callMove_of_calls rfl rfl rfl rfl (fun _ _ => rfl) ⟨_, _, rfl⟩
  · refine callMove_of_calls rfl rfl rfl rfl (fun d other => ?_)
      ⟨(s.calls (s.dials j).call).shut, (s.calls (s.dials j).call).conns ++ [conn], ?_⟩
    · show (State.setCall _ _ _).calls d = _
      simp [other]
    · show (State.setCall _ _ _).calls _ = _
      rw [State.calls_setCall, if_pos rfl]

theorem CallMove.trans {s₁ s₂ : State} (first : CallMove s s₁ c) (second : CallMove s₁ s₂ c) :
    CallMove s s₂ c where
  setters := second.setters.trans first.setters
  decoy := second.decoy.trans first.decoy
  closes := second.closes.trans first.closes
  others d other := (second.others d other).trans (first.others d other)
  listed d other inside := second.listed d other (first.listed d other inside)
  good good := by
    have between := second.good (first.decoy ▸ first.good good)
    exact first.decoy ▸ between
  past past := by
    rcases second.past past with before | off
    · exact first.past before
    · exact .inr (first.decoy ▸ off)
  done done := second.done (first.done done)

theorem callMove_begins {a : Ask} (free : (s.calls c).stage = .idle) :
    CallMove s (s.setCall c { s.calls c with ask := a, stage := .begun }) c := by
  refine callMove_setCall (fun _ _ => id) (fun good => ?_)
    (fun past => .inl (.inr (past.resolve_left nofun))) id
  have notAsked : ¬(s.calls c).asked.isSome = true := fun asked => good.idle asked free
  refine ⟨nofun, fun past => (notAsked (past.resolve_left nofun)).elim, nofun, fun _ => nofun,
    fun via names => ?_, fun past => (notAsked (past.resolve_left nofun)).elim, nofun⟩
  have named : (s.calls c).asked = some via := names.resolve_left nofun
  exact (notAsked (by rw [named]; rfl)).elim

theorem callMove_tracks {via : Via} (here : (s.calls c).stage = .gated via) :
    CallMove s ({ s with moatCalls := c :: s.moatCalls }.toStage c (.tracked via)) c := by
  have inside : c ∈ c :: s.moatCalls := List.mem_cons_self
  refine callMove_setCall (fun d _ => List.mem_cons_of_mem c) (fun good => ?_)
    (fun past => .inl (.inr (past.resolve_left nofun))) id
  refine ⟨fun _ => inside, fun _ => .inr inside, nofun, fun _ => nofun, ?_,
    fun past => good.armed (.inr (past.resolve_left nofun)), nofun⟩
  rintro path (named | asked)
  · exact good.vetted path (.inl (by rw [here]; exact named))
  · exact good.vetted path (.inr asked)

theorem callMove_hooks {via : Via} (here : (s.calls c).stage = .tracked via) :
    CallMove s (s.setCall c { s.calls c with stage := .hooked via, armed := true }) c := by
  refine callMove_setCall (fun _ _ => id) (fun good => ?_)
    (fun past => .inl (.inr (past.resolve_left nofun))) id
  refine ⟨fun _ => good.isListed (by rw [here]; rfl),
    fun past => good.live (.inr (past.resolve_left nofun)), nofun, fun _ => nofun, ?_, fun _ => rfl,
    fun _ _ => rfl⟩
  rintro path (named | asked)
  · exact good.vetted path (.inl (by rw [here]; exact named))
  · exact good.vetted path (.inr asked)

theorem callMove_requests {via : Via} (here : (s.calls c).stage = .cleared via) :
    CallMove s (s.setCall c { s.calls c with stage := .requesting via, asked := some via }) c := by
  have past : (s.calls c).Past := .inl (by rw [here]; rfl)
  refine callMove_setCall (fun _ _ => id) (fun good => ?_) (fun _ => .inl past) id
  refine ⟨nofun, fun _ => good.live past, nofun,
    fun _ => nofun, ?_, fun _ => good.armed past, nofun⟩
  rintro path (named | asked)
  · exact good.vetted path (.inl (by rw [here]; exact named))
  · exact good.vetted path (.inl (by rw [here]; exact asked))

theorem callMove_cancels {outcome : Outcome} :
    CallMove s (s.setCall c { s.calls c with stage := .untracking outcome, ctxDone := true }) c := by
  refine callMove_setCall (fun _ _ => id) (fun good => ?_)
    (fun past => .inl (.inr (past.resolve_left nofun))) fun _ => rfl
  exact ⟨nofun, fun _ => .inl rfl, fun _ => rfl, fun _ => nofun,
    fun via names => good.vetted via (.inr (names.resolve_left nofun)),
    fun past => good.armed (.inr (past.resolve_left nofun)), nofun⟩

theorem callMove_cancel (c : Nat) : CallMove s (s.cancel c) c := by
  refine callMove_setCall (fun _ _ => id) (fun good => ?_) (fun past => .inl past) fun _ => rfl
  exact ⟨good.isListed, fun _ => .inl rfl, fun _ => rfl, good.idle, good.vetted, good.armed,
    good.hooked⟩

theorem callMove_untracks {outcome : Outcome} (here : (s.calls c).stage = .untracking outcome) :
    CallMove s
      ({ s with moatCalls := s.moatCalls.filter (· ≠ c) }.toStage c (.closing outcome)) c := by
  refine callMove_setCall (fun d other inside => List.mem_filter.mpr ⟨inside, by simpa using other⟩)
    (fun good => ?_) (fun past => .inl (.inr (past.resolve_left nofun))) id
  have done : (s.calls c).ctxDone = true := good.ended (by rw [here]; rfl)
  exact ⟨nofun, fun _ => .inl done, fun _ => done, fun _ => nofun,
    fun via names => good.vetted via (.inr (names.resolve_left nofun)),
    fun past => good.armed (.inr (past.resolve_left nofun)), nofun⟩

end

/-! ## All steps -/

/-- A step is one of a change of the decoy, or a step of one call as the others see it. -/
inductive Moves (s : State) : State → Prop
  | setBegins (i : Nat) (on : Bool) (free : (s.setters i).stage = .idle) :
      Moves s (s.setSetter i { on := on, stage := .begun })
  | setOn (i : Nat) (here : (s.setters i).stage = .begun) :
      Moves s ({ s with decoy := .on }.setSetter i
        { s.setters i with stage := .stored, closesAt := s.closes })
  | setOff (i : Nat) (here : (s.setters i).stage = .begun) (off : (s.setters i).on = false) :
      Moves s ({ s with decoy := .off, closes := s.closes + 1 }.setterTo i .returned)
  | setLocks (i : Nat) (left : List Nat) (here : (s.setters i).stage = .stored)
      (all : ∀ c ∈ s.moatCalls, c ∈ left) :
      Moves s ({ s with locked := true }.setterTo i (.cancelling left))
  | setCancels (i c : Nat) (left : List Nat)
      (here : (s.setters i).stage = .cancelling (c :: left)) :
      Moves s ((s.cancel c).setterTo i (.cancelling left))
  | setReturns (i : Nat) (here : (s.setters i).stage = .cancelling []) :
      Moves s ({ s with locked := false }.setterTo i .returned)
  | call {s' : State} (c : Nat) (move : CallMove s s' c) : Moves s s'

theorem decoy_of_closed {decoy : Decoy} (closed : decoyClosed decoy = true) : decoy = .off := by
  simpa [decoyClosed] using closed

theorem Step.moves {s s' : State} (step : Step s s') : Moves s s' := by
  cases step with
  | setBegins i on free => exact .setBegins i on free
  | setOn i here => exact .setOn i here
  | setOff i here off => exact .setOff i here off
  | setLocks i left here _ all => exact .setLocks i left here fun c inside => all.mem_iff.mpr inside
  | setCancels i c left here => exact .setCancels i c left here
  | setReturns i here => exact .setReturns i here
  | begins c a free => exact .call c (callMove_begins free)
  | gateRefuses c | badBody c | openedSince c | noTransport c | failsOpen c | failsClosed c
  | cutOff c | dropsReply c | keepsReply c | shows c | showsDecoy c =>
    exact .call c (callMove_toStage nofun nofun nofun nofun nofun nofun)
  | gatePasses c via _ passed =>
    refine .call c (callMove_toStage nofun nofun nofun (fun path named => .inr ?_) nofun nofun)
    obtain rfl : via = path := Option.some.inj named
    obtain ⟨-, off, -⟩ := moatGate_eq_ok passed
    exact ⟨Ask.allows_of_gate passed, by rw [off]; decide⟩
  | tracks c via here => exact .call c (callMove_tracks here)
  | hooks c via here => exact .call c (callMove_hooks here)
  | clears c via here closed =>
    refine .call c (callMove_toStage nofun (fun _ => .inr ⟨decoy_of_closed closed, via, here⟩) nofun
      (fun path named => .inl ?_) nofun nofun)
    rw [here]
    exact named
  | requests c via here => exact .call c (callMove_requests here)
  | requestFails c via here | answers c via here =>
    exact .call c (callMove_toStage nofun (fun _ => .inl (by rw [here]; rfl)) nofun nofun nofun nofun)
  | cancels c => exact .call c callMove_cancels
  | untracks c outcome here => exact .call c (callMove_untracks here)
  | returns c =>
    exact .call c (callMove_closeAll.trans (callMove_toStage nofun nofun nofun nofun nofun nofun))
  | expires c => exact .call c (callMove_cancel c)
  | hookRuns c => exact .call c callMove_closeAll
  | dialBegins j c => exact .call c (callMove_of_calls rfl rfl rfl rfl (fun _ _ => rfl) ⟨_, _, rfl⟩)
  | notAllowed j | frontOver j | frontChecked j | frontDials j | hostDials j | dialFails j
  | handshakes j => exact .call 0 (callMove_dialTo j _ 0)
  | dialConnects j | tunnelOpens j | noHandshake j conn =>
    exact .call 0 (callMove_of_calls rfl rfl rfl rfl (fun _ _ => rfl) ⟨_, _, rfl⟩)
  | keeps j conn | keepsTunnel j conn => exact .call _ (callMove_keep j conn _)

/-- The change opened the decoy, and it was not closed since. -/
def State.Opened (s : State) (i : Nat) : Prop :=
  (s.setters i).on = true ∧ (s.setters i).closesAt = s.closes ∧
    (s.setters i).stage ≠ .idle ∧ (s.setters i).stage ≠ .begun

structure Inv (s : State) : Prop where
  good : ∀ c, (s.calls c).Good (c ∈ s.moatCalls) s.decoy
  counted : ∀ i, (s.setters i).closesAt ≤ s.closes
  isOn : ∀ i, s.Opened i → s.decoy = .on
  cancelling : ∀ i left, s.Opened i → (s.setters i).stage = .cancelling left →
    ∀ c, (s.calls c).Past → (s.calls c).ctxDone = true ∨ c ∈ left
  returned : ∀ i, s.Opened i → (s.setters i).stage = .returned →
    ∀ c, (s.calls c).Past → (s.calls c).ctxDone = true

theorem inv_init : Inv {} where
  good c := ⟨nofun, by rintro (now | asked) <;> contradiction, nofun, nofun,
    by rintro via (named | asked) <;> contradiction, by rintro (now | asked) <;> contradiction, nofun⟩
  counted i := Nat.le_refl 0
  isOn i isOpen := (isOpen.2.2.1 rfl).elim
  cancelling i left isOpen := (isOpen.2.2.1 rfl).elim
  returned i isOpen := (isOpen.2.2.1 rfl).elim

theorem Call.Good.mono {call : Call} {listed listed' : Prop} {decoy decoy' : Decoy}
    (good : call.Good listed decoy) (still : listed → listed')
    (known : decoy ≠ .unknown → decoy' ≠ .unknown) : call.Good listed' decoy' where
  isListed now := still (good.isListed now)
  live past := (good.live past).imp id still
  ended := good.ended
  idle := good.idle
  vetted via names := ⟨(good.vetted via names).1, known (good.vetted via names).2⟩
  armed := good.armed
  hooked := good.hooked

theorem CallMove.past_of_opened {s s' : State} {c i : Nat} (move : CallMove s s' c) (inv : Inv s)
    (isOpen : s.Opened i) {d : Nat} (past : (s'.calls d).Past) :
    (s.calls d).Past ∧ ((s.calls d).ctxDone = true → (s'.calls d).ctxDone = true) := by
  by_cases same : d = c
  · subst same
    refine ⟨(move.past past).resolve_right fun off => ?_, move.done⟩
    have isOn := inv.isOn i isOpen
    rw [off] at isOn
    exact nomatch isOn
  · rw [move.others d same] at past ⊢
    exact ⟨past, id⟩

theorem Inv.call {s s' : State} {c : Nat} (inv : Inv s) (move : CallMove s s' c) : Inv s' := by
  have opened : ∀ {i}, s'.Opened i → s.Opened i := by
    intro i isOpen
    unfold State.Opened at isOpen ⊢
    rw [move.setters, move.closes] at isOpen
    exact isOpen
  refine ⟨fun d => ?_, fun i => ?_, fun i isOpen => ?_, fun i left isOpen here d past => ?_,
    fun i isOpen here d past => ?_⟩
  · rw [move.decoy]
    by_cases same : d = c
    · subst same
      exact move.good (inv.good d)
    · rw [move.others d same]
      exact (inv.good d).mono (move.listed d same) id
  · rw [move.setters, move.closes]
    exact inv.counted i
  · rw [move.decoy]
    exact inv.isOn i (opened isOpen)
  · rw [move.setters] at here
    obtain ⟨before, done⟩ := move.past_of_opened inv (opened isOpen) past
    exact (inv.cancelling i left (opened isOpen) here d before).imp done id
  · rw [move.setters] at here
    obtain ⟨before, done⟩ := move.past_of_opened inv (opened isOpen) past
    exact done (inv.returned i (opened isOpen) here d before)

theorem Inv.setter {s s' : State} {i : Nat} (inv : Inv s) (calls : s'.calls = s.calls)
    (moatCalls : s'.moatCalls = s.moatCalls) (closes : s'.closes = s.closes)
    (others : ∀ k, k ≠ i → s'.setters k = s.setters k)
    (counted : (s'.setters i).closesAt ≤ s.closes)
    (decoy : s'.decoy = s.decoy ∨ s'.decoy = .on) (isOn : s'.Opened i → s'.decoy = .on)
    (cancelling : ∀ left, s'.Opened i → (s'.setters i).stage = .cancelling left →
      ∀ c, (s.calls c).Past → (s.calls c).ctxDone = true ∨ c ∈ left)
    (returned : s'.Opened i → (s'.setters i).stage = .returned →
      ∀ c, (s.calls c).Past → (s.calls c).ctxDone = true) : Inv s' := by
  have opened : ∀ {k}, k ≠ i → s'.Opened k → s.Opened k := by
    intro k other isOpen
    unfold State.Opened at isOpen ⊢
    rw [others k other, closes] at isOpen
    exact isOpen
  have known : s.decoy ≠ .unknown → s'.decoy ≠ .unknown := by
    intro known
    rcases decoy with same | on
    · rw [same]
      exact known
    · rw [on]
      decide
  refine ⟨fun c => ?_, fun k => ?_, fun k isOpen => ?_, fun k left isOpen here c past => ?_,
    fun k isOpen here c past => ?_⟩
  · rw [calls, moatCalls]
    exact (inv.good c).mono id known
  · rw [closes]
    by_cases same : k = i
    · subst same
      exact counted
    · rw [others k same]
      exact inv.counted k
  · by_cases same : k = i
    · subst same
      exact isOn isOpen
    · have before := inv.isOn k (opened same isOpen)
      rcases decoy with still | on
      · exact still.trans before
      · exact on
  · rw [calls] at past ⊢
    by_cases same : k = i
    · subst same
      exact cancelling left isOpen here c past
    · rw [others k same] at here
      exact inv.cancelling k left (opened same isOpen) here c past
  · rw [calls] at past ⊢
    by_cases same : k = i
    · subst same
      exact returned isOpen here c past
    · rw [others k same] at here
      exact inv.returned k (opened same isOpen) here c past

/-- A change that moves on to its next stage was open before where it is after. -/
theorem opened_of_setterTo {s : State} {i : Nat} {stage : SetStage}
    (running : (s.setters i).stage ≠ .idle ∧ (s.setters i).stage ≠ .begun)
    (isOpen : (s.setterTo i stage).Opened i) : s.Opened i := by
  obtain ⟨on, counted, -, -⟩ := isOpen
  rw [State.setters_setterTo, if_pos rfl] at on counted
  exact ⟨on, counted, running⟩

theorem Inv.setterTo {s : State} {i : Nat} {stage : SetStage} (inv : Inv s) (locked : Bool)
    (running : (s.setters i).stage ≠ .idle ∧ (s.setters i).stage ≠ .begun)
    (cancelling : ∀ left, s.Opened i → stage = .cancelling left →
      ∀ c, (s.calls c).Past → (s.calls c).ctxDone = true ∨ c ∈ left)
    (returned : s.Opened i → stage = .returned →
      ∀ c, (s.calls c).Past → (s.calls c).ctxDone = true) :
    Inv ({ s with locked := locked }.setterTo i stage) := by
  have opened : ({ s with locked := locked }.setterTo i stage).Opened i → s.Opened i :=
    fun isOpen => opened_of_setterTo (s := { s with locked := locked }) running isOpen
  have now : ({ s with locked := locked }.setterTo i stage).setters i =
      { s.setters i with stage := stage } := by simp
  refine inv.setter rfl rfl rfl (fun k other => by simp [other]) ?_ (.inl rfl)
    (fun isOpen => inv.isOn i (opened isOpen)) (fun left isOpen here => ?_) (fun isOpen here => ?_)
  · rw [now]
    exact inv.counted i
  · rw [now] at here
    exact cancelling left (opened isOpen) here
  · rw [now] at here
    exact returned (opened isOpen) here

theorem Inv.setOff {s : State} {i : Nat} (inv : Inv s) (off : (s.setters i).on = false) :
    Inv ({ s with decoy := .off, closes := s.closes + 1 }.setterTo i .returned) := by
  have shut : ∀ k, ¬({ s with decoy := .off, closes := s.closes + 1 }.setterTo i .returned).Opened k := by
    rintro k ⟨on, counted, -, -⟩
    rw [State.setters_setterTo] at on counted
    split at on
    next =>
      have on' : (s.setters i).on = true := on
      rw [off] at on'
      exact nomatch on'
    next other =>
      rw [if_neg other] at counted
      have before := inv.counted k
      have now : (s.setters k).closesAt = s.closes + 1 := counted
      omega
  have known : s.decoy ≠ .unknown → Decoy.off ≠ .unknown := fun _ => by decide
  refine ⟨fun c => (inv.good c).mono id known, fun k => ?_,
    fun k isOpen => (shut k isOpen).elim, fun k _ isOpen => (shut k isOpen).elim,
    fun k isOpen => (shut k isOpen).elim⟩
  have before := inv.counted k
  rw [State.setters_setterTo]
  split
  next same =>
    subst same
    exact Nat.le_succ_of_le before
  next => exact Nat.le_succ_of_le before

theorem Inv.step {s s' : State} (inv : Inv s) (step : Step s s') : Inv s' := by
  cases step.moves with
  | setBegins i on =>
    have shut : ¬(s.setSetter i { on := on, stage := .begun }).Opened i := by
      rintro ⟨-, -, -, notBegun⟩
      simp at notBegun
    refine inv.setter rfl rfl rfl (fun k other => by simp [other]) ?_ (.inl rfl)
      (fun isOpen => (shut isOpen).elim) (fun _ isOpen => (shut isOpen).elim)
      (fun isOpen => (shut isOpen).elim)
    simp
  | setOn i =>
    refine inv.setter (i := i) rfl rfl rfl (fun k other => by simp [other]) ?_ (.inr rfl) (fun _ => rfl)
      (fun left _ here => ?_) (fun _ here => ?_)
    · simp
    · simp at here
    · simp at here
  | setOff i _ off => exact inv.setOff off
  | setLocks i left here all =>
    refine inv.setterTo true ⟨by simp [here], by simp [here]⟩ (fun left' _ is c past => ?_) nofun
    cases is
    exact ((inv.good c).live past).imp id (all c)
  | setCancels i c left here =>
    have cancelled := inv.call (callMove_cancel c)
    refine cancelled.setterTo s.locked ⟨?_, ?_⟩ (fun left' isOpen is d past => ?_) nofun
    · show (s.setters i).stage ≠ _
      simp [here]
    · show (s.setters i).stage ≠ _
      simp [here]
    · cases is
      have among := cancelled.cancelling i (c :: left) isOpen here d past
      rcases among with done | inside
      · exact .inl done
      · rcases List.mem_cons.mp inside with rfl | inside
        · simp
        · exact .inr inside
  | setReturns i here =>
    refine inv.setterTo false ⟨by simp [here], by simp [here]⟩ nofun (fun isOpen _ c past => ?_)
    exact (inv.cancelling i [] isOpen here c past).resolve_right nofun
  | call c move => exact inv.call move

theorem inv_of_reaches {s : State} (run : Reaches {} s) : Inv s :=
  run.invariant Inv inv_init fun inv _ step => inv.step step

end Kryfo.Moat
