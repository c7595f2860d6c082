import Kryfo.Library.Run
import Kryfo.Relay.Filter
import Kryfo.Seen.Set

/-!
# Asking a relay for held events

Held events that were let go of are asked for by their ids, and again for what an answer left out.
All that comes is handed over, and once a relay has answered every id has come or is missing.  Our
own relay refuses the ask, so from it nothing comes, and no event is given up as long as it is one
of the relays.
-/

namespace Kryfo.Relay

open Library List Seen

/-- What ends the loop of `relayIDsOnce`. -/
inductive Ending where
  | closed
  | endOfStored
  | quiet
  | done
deriving DecidableEq, Repr

/-- What a subscription brings before the loop ends. -/
structure Answer where
  events : List Event
  ending : Ending
deriving DecidableEq, Repr

section Once

variable {ρ σ : Type*} (subscribe : Filter → ρ → Option Answer × ρ) (rcvPk : List Char)
  (take : σ → Event → σ)

/-- The loop of `relayIDsOnce`. -/
def readOn (ending : Ending) : List Event → List ID → σ → Option (List ID) × σ
  | [], got, s => (if ending = .endOfStored then some got else none, s)
  | ev :: events, got, s => readOn ending events (ev.id :: got) (take s ev)

/-- `none` when the relay did not say that was all. -/
def relayIDsOnce (chunk : Chunk) (s : ρ × σ) : Option (List ID) × ρ × σ :=
  match subscribe (idsFilter rcvPk chunk) s.1 with
  | (none, r) => (none, r, s.2)
  | (some answer, r) =>
    let (got, app) := readOn take answer.ending answer.events [] s.2
    (got, r, app)

end Once

section Asking

variable {τ : Type*} (once : Chunk → τ → Option (List ID) × τ)

/-- The inner loop of `relayByIDs`: ask again for what an answer left out, until one brings nothing.
`none` when there was no answer. -/
def askChunk (left : List ID) (short : left.length ≤ heldAskChunk) (s : τ) :
    Option (List ID) × τ :=
  if asked : left ≠ [] then
    match once ⟨left, asked, short⟩ s with
    | (none, s) => (none, s)
    | (some got, s) =>
      let rest := left.filter fun id => id ∉ got
      if rest.length = left.length then (some rest, s)
      else askChunk rest ((length_filter_le ..).trans short) s
  else (some [], s)
termination_by left.length
decreasing_by exact lt_of_le_of_ne (length_filter_le ..) ‹_›

/-- `relayByIDs`: the ids an answer came back without, or `none`. -/
def relayByIDs (ids : List ID) (s : τ) : Option (List ID) × τ :=
  if ids ≠ [] then
    match askChunk once (ids.take heldAskChunk) (length_take_le ..) s with
    | (none, s) => (none, s)
    | (some missing, s) =>
      match relayByIDs (ids.drop heldAskChunk) s with
      | (none, s) => (none, s)
      | (some more, s) => (some (missing ++ more), s)
  else (some [], s)
termination_by ids.length
decreasing_by
  have := length_pos_of_ne_nil ‹ids ≠ []›
  simp only [length_drop, heldAskChunk]
  omega

variable {once} (holds : τ → Prop) (came : τ → ID → Prop)

/-- What holds of the state still does, and nothing that has come is forgotten. -/
structure Keeps (s s' : τ) : Prop where
  holds : holds s → holds s'
  came : ∀ id, came s id → came s' id

variable {holds came}

theorem Keeps.trans {s s' s'' : τ} (first : Keeps holds came s s')
    (next : Keeps holds came s' s'') : Keeps holds came s s'' :=
  ⟨next.holds ∘ first.holds, fun id => next.came id ∘ first.came id⟩

variable (records : ∀ chunk s, Keeps holds came s (once chunk s).2 ∧
  ∀ got ∈ (once chunk s).1, ∀ id ∈ got, came (once chunk s).2 id)

include records

theorem askChunk_accounts {left : List ID} (short : left.length ≤ heldAskChunk) (s : τ) :
    let (answer, s') := askChunk once left short s
    Keeps holds came s s' ∧ ∀ missing ∈ answer, ∀ id ∈ left, id ∈ missing ∨ came s' id := by
  fun_induction askChunk once left short s with
  | case1 left short s asked s' answer =>
    have first := records ⟨left, asked, short⟩ s
    rw [answer] at first
    exact ⟨first.1, nofun⟩
  | case2 left short s asked got s' answer =>
    have first := records ⟨left, asked, short⟩ s
    rw [answer] at first
    refine ⟨first.1, fun missing isRest id member => or_iff_not_imp_right.mpr fun notCame => ?_⟩
    obtain rfl := Option.some.inj isRest
    exact mem_filter.mpr ⟨member, by simpa using fun here => notCame (first.2 got rfl id here)⟩
  | case3 left short s asked got s' answer rest less ih =>
    have first := records ⟨left, asked, short⟩ s
    rw [answer] at first
    refine ⟨first.1.trans ih.1, fun missing answered id member => ?_⟩
    by_cases here : id ∈ got
    · exact .inr (ih.1.came id (first.2 got rfl id here))
    · exact ih.2 missing answered id (mem_filter.mpr ⟨member, by simpa using here⟩)
  | case4 left short s nothing => exact ⟨⟨id, fun _ => id⟩, by simp_all⟩

/-- Once the relay has answered, every id asked for has come or is missing. -/
theorem came_or_missing (ids : List ID) (s : τ) :
    let (answer, s') := relayByIDs once ids s
    Keeps holds came s s' ∧ ∀ missing ∈ answer, ∀ id ∈ ids, id ∈ missing ∨ came s' id := by
  fun_induction relayByIDs once ids s with
  | case1 ids s asked s' answer =>
    have first := askChunk_accounts records (length_take_le heldAskChunk ids) s
    rw [answer] at first
    exact ⟨first.1, nofun⟩
  | case2 ids s asked here s' answer s'' answer' ih =>
    have first := askChunk_accounts records (length_take_le heldAskChunk ids) s
    rw [answer] at first
    rw [answer'] at ih
    exact ⟨first.1.trans ih.1, nofun⟩
  | case3 ids s asked here s' answer more s'' answer' ih =>
    have first := askChunk_accounts records (length_take_le heldAskChunk ids) s
    rw [answer] at first
    rw [answer'] at ih
    refine ⟨first.1.trans ih.1, fun missing answered id member => ?_⟩
    obtain rfl := Option.some.inj answered
    rw [← take_append_drop heldAskChunk ids] at member
    rcases mem_append.mp member with early | late
    · exact (first.2 here rfl id early).imp (mem_append_left _) (ih.1.came id)
    · exact (ih.2 more rfl id late).imp_left (mem_append_right _)
  | case4 ids s nothing => exact ⟨⟨id, fun _ => id⟩, by simp_all⟩

end Asking

section Handed

variable {ρ σ : Type*} (subscribe : Filter → ρ → Option Answer × ρ) {rcvPk : List Char}
  {take : σ → Event → σ}

/-- A relay with a list of all that its subscriptions brought. -/
def logged (f : Filter) (r : ρ × List Event) : Option Answer × ρ × List Event :=
  let (answer, next) := subscribe f r.1
  (answer, next, r.2 ++ (answer.map Answer.events).getD [])

theorem readOn_eq (ending : Ending) (events : List Event) (got : List ID) (s : σ) :
    readOn take ending events got s =
      (if ending = .endOfStored then some ((events.map Event.id).reverse ++ got) else none,
        events.foldl take s) := by
  induction events generalizing got s with
  | nil => rfl
  | cons ev events ih => simp [readOn, ih]

/-- All that comes in one ask is handed over in its order, and only what came is said to have. -/
theorem relayIDsOnce_logged (chunk : Chunk) (r : ρ) (sent : List Event) (s : σ) :
    ∃ came r', (relayIDsOnce (logged subscribe) rcvPk take chunk ((r, sent), s)).2 =
        ((r', sent ++ came), came.foldl take s) ∧
      ∀ got, (relayIDsOnce (logged subscribe) rcvPk take chunk ((r, sent), s)).1 = some got →
        ∀ id ∈ got, ∃ ev ∈ came, ev.id = id := by
  simp only [relayIDsOnce, logged]
  rcases subscribe (idsFilter rcvPk chunk) r with ⟨- | answer, r'⟩
  · exact ⟨[], r', by simp, nofun⟩
  · refine ⟨answer.events, r', by simp [readOn_eq], fun got isGot id inside => ?_⟩
    simp only [readOn_eq, append_nil] at isGot
    split at isGot
    · obtain rfl := Option.some.inj isGot
      simpa using inside
    · cases isGot

end Handed

/-! ## Giving up -/

section GivingUp

variable {κ ρ : Type*} [DecidableEq κ] (subscribe : κ → Filter → ρ → Option Answer × ρ)
  (rcvPk : List Char) (mine opens : Event → Bool) (digest : List Char → BitVec 64) (visit : Visit)

/-- The relays, the set of one address on its file, and what was handed to the inbox. -/
structure Runner (κ ρ : Type*) where
  relays : κ → ρ
  store : Store κ
  inbox : List Event

/-- `take`: what is ours or was claimed before is left; `opens` tells what unwraps. -/
def takeIn (s : Store κ × List Event) (ev : Event) : Store κ × List Event :=
  if mine ev then s
  else
    match s.1.set.claim ev.id with
    | (false, _) => s
    | (true, claimed) =>
      let store := { s.1 with set := claimed }
      if opens ev then (store, s.2 ++ [ev])
      else (store.apply digest visit (.notOpened ev.id), s.2)

/-- `askWanted` on a connection to the relay `u`. -/
def askWanted (urls : List κ) (u : κ) (s : Runner κ ρ) : Runner κ ρ :=
  let ids := (s.store.set.wanted visit s.store.now).1
  let store := s.store.apply digest visit .wanted
  if ids = [] then { s with store := store }
  else
    let once := relayIDsOnce (subscribe u) rcvPk (takeIn mine opens digest visit)
    let asked := relayByIDs once ids (s.relays u, store, s.inbox)
    { relays := Function.update s.relays u asked.2.1
      store := match asked.1 with
        | none => asked.2.2.1
        | some missing => asked.2.2.1.apply digest visit (.notOnRelay u urls missing)
      inbox := asked.2.2.2 }

/-- What happens to a runner: it asks, or its set is used in another way, or the inbox is read. -/
inductive Act (κ : Type*) where
  | ask (u : κ)
  | use (op : Store.Op κ)
  | readInbox

def Runner.next (urls : List κ) (s : Runner κ ρ) : Act κ → Runner κ ρ
  | .ask u => askWanted subscribe rcvPk mine opens digest visit urls u s
  | .use op => { s with store := s.store.apply digest visit op }
  | .readInbox => { s with inbox := [] }

/-- Only an ask that was answered says what a relay does not have. -/
def Act.Plain : Act κ → Prop
  | use (.notOnRelay ..) => False
  | _ => True

/-- A relay that closes what the check refuses, or does not say more to it. -/
def Refuses (subscribe : Filter → ρ → Option Answer × ρ) : Prop :=
  ∀ f r, verdict f.wire ≠ none →
    ∀ answer ∈ (subscribe f r).1, answer.events = [] ∧ answer.ending ≠ .endOfStored

variable {subscribe rcvPk mine opens digest visit}

theorem relayIDsOnce_refused {σ : Type*} {take : σ → Event → σ}
    {subscribe : Filter → ρ → Option Answer × ρ} (refuses : Refuses subscribe) (chunk : Chunk)
    (r : ρ) (s : σ) : ∃ r', relayIDsOnce subscribe rcvPk take chunk (r, s) = (none, r', s) := by
  have notOK : filterOK (idsFilter rcvPk chunk).wire = false :=
    not_filterOK_ids chunk.asked (by simp [idsFilter, toAddress])
  have refused := refuses (idsFilter rcvPk chunk) r
    (by rw [Ne, verdict_eq_none_iff, notOK]; decide)
  simp only [relayIDsOnce]
  rcases answered : subscribe (idsFilter rcvPk chunk) r with ⟨- | answer, r'⟩
  · exact ⟨r', rfl⟩
  · rw [answered] at refused
    obtain ⟨nothing, notAll⟩ := refused answer rfl
    exact ⟨r', by simp [readOn_eq, nothing, notAll]⟩

/-- From such a relay nothing comes by its id, and it is not said what is missing. -/
theorem relayByIDs_refused {σ : Type*} {take : σ → Event → σ}
    {subscribe : Filter → ρ → Option Answer × ρ} (refuses : Refuses subscribe) {ids : List ID}
    (asked : ids ≠ []) (r : ρ) (s : σ) :
    ∃ r', relayByIDs (relayIDsOnce subscribe rcvPk take) ids (r, s) = (none, r', s) := by
  have nonempty : ids.take heldAskChunk ≠ [] := by simp [asked, heldAskChunk]
  obtain ⟨r', refused⟩ := relayIDsOnce_refused refuses ⟨_, nonempty, length_take_le ..⟩ r s
  exact ⟨r', by rw [relayByIDs, if_pos asked, askChunk, dif_pos nonempty, refused]⟩

/-! An id is given up once every relay has twice come back without it. -/

theorem missAll_of_zero {own u : κ} {urls : List κ} (listed : own ∈ urls) (other : u ≠ own)
    (ids : List ID) {missed : ID → κ → Nat} (zero : ∀ id, missed id own = 0) :
    (Store.missAll u urls ids missed).1 = [] ∧
      ∀ id, (Store.missAll u urls ids missed).2 id own = 0 := by
  induction ids generalizing missed with
  | nil => exact ⟨rfl, zero⟩
  | cons id ids ih =>
    have still : Store.miss u urls missed id =
        (false, Function.update missed id (Function.update (missed id) u (missed id u + 1))) := by
      refine if_neg fun all => ?_
      have twice := all.2 own listed
      rw [Function.update_of_ne other.symm, zero] at twice
      omega
    simp only [Store.missAll, still]
    refine ih fun id' => ?_
    by_cases same : id' = id
    · subst same
      simpa [Function.update_of_ne other.symm] using zero id'
    · rw [Function.update_of_ne same]
      exact zero id'

omit [DecidableEq κ] in
@[simp] theorem missed_write (store : Store κ) (ls : List (List Char)) :
    (store.write ls).missed = store.missed := by
  simp only [Store.write]
  split_ifs <;> rfl

theorem missed_apply {op : Store.Op κ} (plain : (Act.use op).Plain) (store : Store κ) :
    (store.apply digest visit op).missed = store.missed := by
  cases op with
  | notOnRelay => exact plain.elim
  | hold id stamp name reachFrom reachUntil freed =>
    simp only [Store.apply, Store.holdIf]
    split
    · rfl
    · split
      · rfl
      · exact missed_write ..
  | notOpened | handedOver => exact missed_write ..
  | _ => rfl

theorem missed_takeIn (s : Store κ × List Event) (ev : Event) :
    (takeIn mine opens digest visit s ev).1.missed = s.1.missed := by
  unfold takeIn
  split
  · rfl
  split
  · rfl
  dsimp only
  split
  · rfl
  · exact missed_write ..

theorem missed_relayIDsOnce (subscribe : Filter → ρ → Option Answer × ρ) (chunk : Chunk)
    (s : ρ × Store κ × List Event) :
    (relayIDsOnce subscribe rcvPk (takeIn mine opens digest visit) chunk s).2.2.1.missed =
      s.2.1.missed := by
  unfold relayIDsOnce
  split
  · rfl
  · next answer r _ =>
    simp only [readOn_eq]
    exact foldlRecOn answer.events _ (motive := fun t => t.1.missed = s.2.1.missed) rfl
      fun t kept ev _ => (missed_takeIn t ev).trans kept

/-- Asking a relay that refuses only prunes the set. -/
theorem askWanted_refused {own : κ} (urls : List κ) (refuses : Refuses (subscribe own))
    (s : Runner κ ρ) : ∃ relays, askWanted subscribe rcvPk mine opens digest visit urls own s =
      ⟨relays, s.store.apply digest visit .wanted, s.inbox⟩ := by
  simp only [askWanted]
  split_ifs with nothing
  · exact ⟨s.relays, rfl⟩
  · obtain ⟨r, refused⟩ := relayByIDs_refused refuses nothing (s.relays own)
      (s.store.apply digest visit .wanted, s.inbox)
    exact ⟨_, by rw [refused]⟩

theorem missed_askWanted {own u : κ} {urls : List κ} (listed : own ∈ urls) (other : u ≠ own)
    {s : Runner κ ρ} (zero : ∀ id, s.store.missed id own = 0) (id : ID) :
    (askWanted subscribe rcvPk mine opens digest visit urls u s).store.missed id own = 0 := by
  simp only [askWanted]
  split_ifs with nothing
  · exact zero id
  have kept := (@came_or_missing (ρ × Store κ × List Event)
    (relayIDsOnce (subscribe u) rcvPk (takeIn mine opens digest visit))
    (fun t => ∀ id, t.2.1.missed id own = 0) (fun _ _ => True)
    (fun chunk t => ⟨⟨fun before id => by rw [missed_relayIDsOnce]; exact before id,
      fun _ _ => trivial⟩, fun _ _ _ _ => trivial⟩)
    (s.store.set.wanted visit s.store.now).1
    (s.relays u, s.store.apply digest visit .wanted, s.inbox)).1.holds zero
  split
  · exact kept id
  · simpa [Store.apply] using (missAll_of_zero listed other _ kept).2 id

/-- While our relay, which refuses an ask by ids, is one of the relays, asking it hands over nothing
and no answer of another makes the phone give up an event. -/
theorem never_given_up {own : κ} {urls : List κ} (listed : own ∈ urls)
    (refuses : Refuses (subscribe own)) {first s : Runner κ ρ}
    (fresh : ∀ id, first.store.missed id own = 0)
    (run : Run (fun s act s' => s' = s.next subscribe rcvPk mine opens digest visit urls act)
      (fun _ act => act.Plain) first s) :
    (∃ relays, askWanted subscribe rcvPk mine opens digest visit urls own s =
      ⟨relays, s.store.apply digest visit .wanted, s.inbox⟩) ∧
    ∀ u ≠ own, ∀ missing, ∃ counts,
      s.store.apply digest visit (.notOnRelay u urls missing) =
        { s.store with missed := counts } := by
  have zero : ∀ id, s.store.missed id own = 0 := by
    refine run.invariant (fun s => ∀ id, s.store.missed id own = 0) fresh ?_
    rintro s s' act before plain rfl id
    cases act with
    | ask u =>
      rcases eq_or_ne u own with rfl | other
      · obtain ⟨relays, asked⟩ :
            ∃ relays, s.next subscribe rcvPk mine opens digest visit urls (.ask u) =
              ⟨relays, s.store.apply digest visit .wanted, s.inbox⟩ :=
          askWanted_refused urls refuses s
        rw [asked]
        exact before id
      · exact missed_askWanted listed other before id
    | use op => simpa [Runner.next, missed_apply plain] using before id
    | readInbox => exact before id
  refine ⟨askWanted_refused urls refuses s, fun u other missing => ?_⟩
  have none_gone := (missAll_of_zero listed other missing zero).1
  exact ⟨_, by simp [Store.apply, none_gone, SeenIDs.dropMissing, Store.write]; rfl⟩

/-- The first relay is ours; the other has the first of two held events. -/
def twoRelays : Bool → Filter → Unit → Option Answer × Unit
  | true, f, _ => (if verdict f.wire = none then some ⟨[], .endOfStored⟩ else none, ())
  | false, f, _ => (some ⟨if 1 ∈ f.ids then [⟨1, 0⟩] else [], .endOfStored⟩, ())

def holdsTwo : Runner Bool Unit :=
  let held (id : ID) : HeldAt := ⟨0, true, shortHex id, 0, 0⟩
  let set := { SeenIDs.new with held := Table.set 2 (held 2) (Table.set 1 (held 1) ∅) }
  ⟨fun _ => (), ⟨none, set, 0, fun _ _ => 0, 0⟩, []⟩

theorem never_given_up_twoRelays :
    let next := Runner.next twoRelays zeroAddress (fun _ => false) (fun _ => true) (fun _ => 0)
      Visit.ascending [true, false]
    let s := [.ask true, .ask false, .readInbox, .ask false, .use (.tick 60), .ask false].foldl next
      holdsTwo
    ∃ counts, s.store.apply (fun _ => 0) Visit.ascending (.notOnRelay false [true, false] [2]) =
      { s.store with missed := counts } := by
  intro next s
  have run : Run (fun s act s' => s' = next s act) (fun _ act => act.Plain) holdsTwo s :=
    .of_allowed _ _ ⟨trivial, trivial, trivial, trivial, trivial, trivial, trivial⟩
  have refuses : Refuses (twoRelays true) := by
    intro f r refused answer given
    simp [twoRelays, refused] at given
  exact (never_given_up (by decide) refuses (fun _ => rfl) run).2 false (by decide) [2]

end GivingUp

end Kryfo.Relay
