import Kryfo.Poll.Places

/-!
# What a step settles

A step takes an id that nobody owns, or it settles some ids and moves the others:
each operation is taken in turn, and `Does` lists what a step can do.
-/

namespace Kryfo.Poll

open Library Seen List

variable {ι π : Type*} [DecidableEq ι]

/-! ## The runners -/

namespace Sys

theorem claim_cases (s : Sys ι π) (i : ι) (id : ID) :
    s.claim i id = s ∨ id ∉ (s.sets i).queued ∧ s.claim i id = { s with
        sets := Function.update s.sets i
          { s.sets i with queued := insert id (s.sets i).queued }
        opening := (i, id) :: s.opening } := by
  unfold claim
  obtain ⟨new, unowned, after⟩ | ⟨known, -⟩ := (s.sets i).claim_eq id
  · exact .inr ⟨unowned, by simp only [new, after, if_true]⟩
  · exact .inl (by simp [known])

variable {s : Sys ι π}

theorem ledger_claim (ledger : Ledger s.Queued s.owed s.waiting) {i : ι} {id : ID}
    (calm : (i, id) ∉ s.tookLines.map Item.key) :
    Ledger (s.claim i id).Queued (s.claim i id).owed (s.claim i id).waiting := by
  obtain same | ⟨unowned, after⟩ := s.claim_cases i id
  · rwa [same]
  · rw [after]
    refine ledger.take (show ¬ s.Queued (i, id) from unowned) (count_eq_zero.mpr calm)
      (fun k => ?_) (fun k => rfl) (fun k => ?_)
    · simp only [owed, lines, count_cons, count_nil]
      omega
    · obtain ⟨j, other⟩ := k
      by_cases same : j = i
      · subst same
        simp [Queued, or_comm]
      · simp [Queued, same]

theorem settles_received (env : Env ι π) {i : ι} {id : ID} (opening : (i, id) ∈ s.opening)
    (content : List Char) (stamp sent reachFrom reachUntil : Int64) :
    Settles s (s.received env i id content stamp sent reachFrom reachUntil) [] [] [] := by
  have positive := (singleton_sublist.mpr opening).count_le
  have owed : ∀ k, s.owed k =
      (s.received env i id content stamp sent reachFrom reachUntil).owed k := fun k => by
    have := positive k
    simp only [Sys.owed, received, lines, map_append, count_append, count_erase,
      map_cons, map_nil, Item.key, count_singleton] at this ⊢
    omega
  refine ⟨fun k => by simpa using owed k, fun k => rfl, fun k => le_rfl,
    fun k => by simp [Queued, received], fun k => ?_⟩
  have := positive k
  rw [owed k]
  simp only [received, waiting, tookLines, Log.left, count_erase, count_cons] at this ⊢
  omega

theorem settles_unopened {i : ι} {id : ID} (opening : (i, id) ∈ s.opening) :
    Settles s (s.unopened i id) [(i, id)] [] [] := by
  have positive := (singleton_sublist.mpr opening).count_le
  have owed : ∀ k, s.owed k = (s.unopened i id).owed k + [(i, id)].count k := fun k => by
    have := positive k
    simp only [Sys.owed, unopened, lines, count_erase, count_singleton] at this ⊢
    omega
  refine ⟨owed, fun k => rfl, fun k => by simp, fun k => ?_, fun k => ?_⟩
  · obtain ⟨j, other⟩ := k
    by_cases same : j = i
    · subst same
      simp [Queued, unopened, SeenIDs.notOpened, and_comm]
    · simp [Queued, unopened, same]
  · have := positive k
    rw [owed k]
    simp only [unopened, waiting, tookLines, count_erase, count_singleton] at this ⊢
    omega

/-! ## The poll -/

omit [DecidableEq ι] in
theorem perm_offered (s : Sys ι π) (now : Int) :
    ((s.offered now).1 ++ (s.offered now).2.1).Perm s.inbox := by
  unfold offered
  dsimp only
  split_ifs
  · simp
  · exact perm_append_comm.trans (filter_append_perm _ _)
  · simp
  · simp

theorem count_flatMap_lines_gone (gone : List (Item ι)) (hands : List (Hand ι)) (k : ι × ID) :
    (((if gone.isEmpty then hands else ⟨[], [], gone, []⟩ :: hands).flatMap
        Hand.lines).map Item.key).count k =
      (gone.map Item.key).count k + ((hands.flatMap Hand.lines).map Item.key).count k := by
  split_ifs with none
  · simp [List.isEmpty_iff.mp none]
  · simp [Hand.lines]

omit [DecidableEq ι] in
theorem flatMap_took_gone (gone : List (Item ι)) (hands : List (Hand ι)) :
    (if gone.isEmpty then hands else ⟨[], [], gone, []⟩ :: hands).flatMap Hand.took =
      hands.flatMap Hand.took := by
  split_ifs <;> simp

theorem inflight_requeueAll (s : Sys ι π) : s.requeueAll.inflight = [] := by
  rw [requeueAll_eq]
  rfl

theorem poll_spec (env : Env ι π) (s : Sys ι π) (now : Int) :
    ∃ (out back : List (Item ι)) (since : Option Int) (token : Nat)
      (inflight : List (Nat × List (Item ι))),
      (out ++ back).Perm s.requeueAll.inbox ∧ inflight.length ≤ 1 ∧
      inflight.flatMap Prod.snd = (out.filter Item.sendable).map (s.requeueAll.stamped env) ∧
      (s.poll env now).2 = { s.requeueAll with
        inbox := back
        live := ∅
        heldSince := since
        token := token
        inflight := inflight
        hands := if (out.filter fun x => !x.sendable).isEmpty then s.requeueAll.hands
          else ⟨[], [], out.filter fun x => !x.sendable, []⟩ :: s.requeueAll.hands } := by
  have inflight := s.inflight_requeueAll
  unfold poll
  generalize s.requeueAll = t at inflight ⊢
  by_cases none : ((t.offered now).1.filter Item.sendable).map (t.stamped env) = []
  · refine ⟨_, _, (t.offered now).2.2, t.token, [], t.perm_offered now, Nat.zero_le _, none.symm, ?_⟩
    rw [if_pos (List.isEmpty_iff.mpr none), inflight]
  · refine ⟨_, _, (t.offered now).2.2, t.token + 1, [(t.token + 1, _)], t.perm_offered now,
      le_rfl, append_nil _, ?_⟩
    rw [if_neg (mt List.isEmpty_iff.mp none), inflight]

theorem still_poll (env : Env ι π) (s : Sys ι π) (now : Int) :
    Still s.requeueAll (s.poll env now).2 := by
  obtain ⟨out, back, since, token, inflight, sorted, -, batch, after⟩ := s.poll_spec env now
  rw [after]
  refine ⟨fun k => ?_, fun k => ?_, rfl, fun k => .rfl, rfl, rfl⟩
  · have stamped : ((out.filter Item.sendable).map (s.requeueAll.stamped env)).map Item.key =
        (out.filter Item.sendable).map Item.key := by simp [Sys.stamped, Item.key]
    have := (sorted.map Item.key).count_eq k
    have := ((filter_append_perm Item.sendable out).map Item.key).count_eq k
    simp only [lines, batch, stamped, s.inflight_requeueAll, count_flatMap_lines_gone,
      map_append, count_append, flatMap_nil, map_nil, count_nil] at *
    omega
  · simp only [waiting, tookLines, flatMap_took_gone]

/-! ## The ack -/

omit [DecidableEq ι] in
theorem perm_fates (fates : List (Item ι × Fate)) :
    (againOf fates ++ ((holdsOf fates).map Prod.fst ++ keptOf fates)).Perm
      (fates.map Prod.fst) := by
  induction fates with
  | nil => rfl
  | cons e fates ih =>
    obtain ⟨x, fate⟩ := e
    cases fate with
    | again => exact ih.cons x
    | hold name =>
      refine List.Perm.trans ?_ (ih.cons x)
      exact perm_middle
    | keep =>
      refine List.Perm.trans ?_ (ih.cons x)
      rw [← append_assoc, ← append_assoc]
      exact perm_middle

omit [DecidableEq ι] in
theorem map_fst_fates (env : Env ι π) (s : Sys ι π) (lists : AckLists)
    (batch : List (Item ι)) : (s.fates env lists batch).map Prod.fst = batch := by
  rw [fates, map_map]
  exact zipIdx_map_fst 0 batch

variable {batch : List (Item ι)}

omit [DecidableEq ι] in
theorem inflight_of_lookup (single : s.inflight.length ≤ 1) {tok : Nat}
    (found : s.inflight.lookup tok = some batch) : s.inflight = [(tok, batch)] := by
  match inflight : s.inflight with
  | [] => simp [inflight] at found
  | [(tok', batch')] =>
    rw [inflight, lookup_cons] at found
    split at found
    · rename_i same
      rw [eq_of_beq same, Option.some.inj found]
    · simp at found
  | _ :: _ :: _ => simp [inflight] at single

theorem acked_spec (env : Env ι π) (single : s.inflight.length ≤ 1) {tok : Nat}
    (found : s.inflight.lookup tok = some batch) (lists : AckLists) :
    ∃ (again : List (Item ι)) (holds : List (Item ι × List Char)) (kept : List (Item ι))
      (t : Sys ι π), s.inflight = [(tok, batch)] ∧
      (again ++ (holds.map Prod.fst ++ kept)).Perm batch ∧
      t = { s with inflight := [], hands := ⟨holds, [], kept, []⟩ :: s.hands } ∧
      s.acked env tok lists batch = { t.requeue again with
        log := { (t.requeue again).log with
          confirmed := kept.map Item.key ++ s.log.confirmed } } := by
  have inflight := inflight_of_lookup single found
  have parts := perm_fates (s.fates env lists batch)
  rw [map_fst_fates] at parts
  refine ⟨_, _, _, _, inflight, parts, rfl, ?_⟩
  have emptied : (s.inflight.filter fun b => b.1 ≠ tok) = [] := by simp [inflight]
  unfold acked
  rw [emptied]
  rfl

theorem settles_acked (env : Env ι π) (single : s.inflight.length ≤ 1) {tok : Nat}
    (found : s.inflight.lookup tok = some batch) (lists : AckLists) :
    ∃ out, Settles s (s.acked env tok lists batch) out [] [] := by
  obtain ⟨again, holds, kept, t, inflight, parts, inHand, after⟩ :=
    acked_spec env single found lists
  have requeued : Settles s (t.requeue again) ((spent again).map Item.key) [] [] := by
    subst inHand
    refine settles_requeue (fun k => ?_) (fun _ => rfl) rfl (fun _ => .rfl) rfl
    have := (parts.map Item.key).count_eq k
    simp only [lines, inflight, Hand.lines, map_append, count_append, flatMap_cons, append_nil] at *
    omega
  rw [after]
  exact ⟨_, requeued.still ⟨fun k => rfl, fun k => rfl, rfl, fun _ => .rfl, rfl, rfl⟩⟩

/-! ## What an ack has in hand -/

variable {n : Nat}

omit [DecidableEq ι] in
theorem perm_hands {h : Hand ι} (found : s.hands[n]? = some h) :
    s.hands.Perm (h :: s.hands.eraseIdx n) := by
  obtain ⟨inside, rfl⟩ := List.getElem?_eq_some_iff.mp found
  exact (getElem_cons_eraseIdx_perm inside).symm

theorem settles_hand {h h' : Hand ι} (found : s.hands[n]? = some h) {sets : ι → SeenIDs}
    {log : Log ι} {out refused settled : List (ι × ID)}
    (lines : ∀ k, (h.lines.map Item.key).count k = (h'.lines.map Item.key).count k + out.count k)
    (took : ∀ k, (h.took.map Item.key).count k + refused.count k =
      (h'.took.map Item.key).count k + settled.count k)
    (part : ∀ k, refused.count k ≤ out.count k)
    (queued : ∀ k : ι × ID, k.2 ∈ (sets k.1).queued ↔ s.Queued k ∧ k ∉ out ∧ k ∉ settled)
    (taken : log.taken = s.log.taken)
    (left : ∀ k, log.left.count k + refused.count k = s.log.left.count k + out.count k + settled.count k) :
    Settles s { s with sets := sets, hands := h' :: s.hands.eraseIdx n, log := log }
      out refused settled := by
  have apart := fun k =>
    (((perm_hands found).flatMap_right Hand.lines).map Item.key).count_eq k
  have apartTook := fun k =>
    (((perm_hands found).flatMap_right Hand.took).map Item.key).count_eq k
  have owed : ∀ k, s.owed k = Sys.owed { s with
      sets := sets, hands := h' :: s.hands.eraseIdx n, log := log } k + out.count k :=
    fun k => by
      simp only [Sys.owed, Sys.lines, flatMap_cons, map_append, count_append, apart, lines]
      omega
  have waiting : ∀ k, s.waiting k + refused.count k = Sys.waiting { s with
      sets := sets, hands := h' :: s.hands.eraseIdx n, log := log } k + settled.count k :=
    fun k => by
      have := took k
      simp only [Sys.waiting, Sys.tookLines, flatMap_cons, map_append, count_append, apartTook]
      omega
  refine ⟨owed, waiting, part, queued, fun k => ?_⟩
  have := owed k
  have := waiting k
  have := left k
  simp only [taken]
  omega

variable {s' : Sys ι π} {env : Env ι π}

theorem hold_cases {now : Int} (done : s.hold env n now = some s') :
    ∃ (x : Item ι) (name : List Char) (holds : List (Item ι × List Char))
      (stale kept took : List (Item ι)) (set : SeenIDs),
      s.hands[n]? = some ⟨(x, name) :: holds, stale, kept, took⟩ ∧
      set.queued = (s.sets x.done.set).queued.erase x.done.id ∧
      set.opened = (s.sets x.done.set).opened ∧
      (s' = { s with hands := ⟨holds, stale ++ [x], kept, took⟩ :: s.hands.eraseIdx n } ∨
        s' = { s with
          sets := Function.update s.sets x.done.set set
          hands := ⟨holds, stale, kept, took ++ [x]⟩ :: s.hands.eraseIdx n
          log := { s.log with refused := x.key :: s.log.refused } } ∨
        s' = { s with
          sets := Function.update s.sets x.done.set set
          hands := ⟨holds, stale, kept, took⟩ :: s.hands.eraseIdx n
          log := { s.log with held := x.key :: s.log.held } }) := by
  unfold hold at done
  split at done
  · rename_i x name holds stale kept took found
    obtain ⟨queued, opened⟩ := (s.sets x.done.set).hold_queued env.digest x.done.id
      x.done.stamp name now x.done.reachFrom x.done.reachUntil
    refine ⟨x, name, holds, stale, kept, took, _, found, queued, opened, ?_⟩
    dsimp only at done
    split_ifs at done with letGo
    · exact .inl (Option.some.inj done).symm
    · split at done
      · exact .inr (.inl (Option.some.inj done).symm)
      · exact .inr (.inr (Option.some.inj done).symm)
  · contradiction

theorem queued_update {i : ι} {id : ID} {set : SeenIDs}
    (queued : set.queued = (s.sets i).queued.erase id) (k : ι × ID) :
    k.2 ∈ (Function.update s.sets i set k.1).queued ↔ s.Queued k ∧ k ∉ [(i, id)] := by
  obtain ⟨j, other⟩ := k
  by_cases same : j = i
  · subst same
    simp [Queued, queued, and_comm]
  · simp [Queued, same]

theorem settles_hold {now : Int} (done : s.hold env n now = some s') :
    ∃ out refused, Settles s s' out refused [] := by
  obtain ⟨x, name, holds, stale, kept, took, set, found, queued, -, stayed | refused | held⟩ :=
    hold_cases done
  · subst stayed
    refine ⟨[], [], settles_hand found (fun k => ?_) (fun k => rfl) (fun k => le_rfl)
      (fun k => by simp [Queued]) rfl (fun k => rfl)⟩
    simp only [Hand.lines, map_append, count_append, map_cons, map_nil, count_cons, count_nil]
    omega
  · subst refused
    refine ⟨[x.key], [x.key], settles_hand found (fun k => ?_) (fun k => ?_)
      (fun k => le_rfl) (fun k => ?_) rfl (fun k => rfl)⟩
    · simp only [Hand.lines, map_append, count_append, map_cons, count_cons, count_nil]
      omega
    · simp
    · simpa [Item.key] using queued_update queued k
  · subst held
    refine ⟨[x.key], [], settles_hand found (fun k => ?_) (fun k => rfl)
      (fun k => by simp) (fun k => ?_) rfl (fun k => ?_)⟩
    · simp only [Hand.lines, map_append, count_append, map_cons, count_cons, count_nil]
      omega
    · simpa [Item.key] using queued_update queued k
    · simp only [Log.left, count_append, count_cons, count_nil]
      omega

theorem keep_cases (done : s.keep n = some s') :
    ∃ (i : ι) (stale kept took : List (Item ι)), s.hands[n]? = some ⟨[], stale, kept, took⟩ ∧
      s' = { s with
        sets := Function.update s.sets i ((s.sets i).handedOver
          (((kept ++ took).filter fun y => y.done.set = i).map fun y => y.done.id))
        hands := ⟨[], stale, kept.filter fun y => !decide (y.done.set = i),
          took.filter fun y => !decide (y.done.set = i)⟩ :: s.hands.eraseIdx n
        log := { s.log with
          kept := ((kept ++ took).filter fun y => y.done.set = i).map Item.key ++
            s.log.kept } } := by
  unfold keep at done
  split at done
  · rename_i stale kept took found
    split at done
    · contradiction
    · rename_i x _ _
      exact ⟨x.done.set, stale, kept, took, found, (Option.some.inj done).symm⟩
  · contradiction

theorem count_filter_set (i : ι) (xs : List (Item ι)) (k : ι × ID) :
    (xs.map Item.key).count k =
      ((xs.filter fun y => !decide (y.done.set = i)).map Item.key).count k +
        ((xs.filter fun y => y.done.set = i).map Item.key).count k := by
  have parts := ((filter_append_perm (fun y : Item ι => decide (y.done.set = i)) xs).map
    Item.key).count_eq k
  simp only [map_append, count_append] at parts
  omega

theorem queued_handedOver (s : Sys ι π) (i : ι) (xs : List (Item ι)) (k : ι × ID) :
    k.2 ∈ (Function.update s.sets i ((s.sets i).handedOver
        ((xs.filter fun y => y.done.set = i).map fun y => y.done.id)) k.1).queued ↔
      s.Queued k ∧ k ∉ (xs.filter fun y => y.done.set = i).map Item.key := by
  obtain ⟨j, other⟩ := k
  by_cases same : j = i
  · subst same
    rw [Function.update_self, SeenIDs.mem_handedOver_queued]
    refine and_congr .rfl (not_congr ?_)
    simp only [mem_map, mem_filter, decide_eq_true_eq, Item.key, Prod.mk.injEq]
    exact exists_congr fun y => by tauto
  · rw [Function.update_of_ne same]
    simp only [Queued, mem_map, mem_filter, decide_eq_true_eq, Item.key,
      Prod.mk.injEq, iff_self_and]
    rintro - ⟨y, ⟨-, set⟩, isJ, -⟩
    exact same (isJ.symm.trans set)

theorem settles_keep (done : s.keep n = some s') : ∃ out settled, Settles s s' out [] settled := by
  obtain ⟨i, stale, kept, took, found, rfl⟩ := keep_cases done
  refine ⟨(kept.filter fun y => y.done.set = i).map Item.key,
    (took.filter fun y => y.done.set = i).map Item.key,
    settles_hand found (fun k => ?_) (fun k => ?_) (fun k => by simp) (fun k => ?_) rfl
      (fun k => ?_)⟩
  · have := count_filter_set i kept k
    simp only [Hand.lines, map_append, count_append]
    omega
  · simpa using count_filter_set i took k
  · rw [queued_handedOver, filter_append, map_append, mem_append, not_or]
  · simp only [Log.left, filter_append, map_append, count_append, count_nil]
    omega

theorem finish_cases (done : s.finish n = some s') :
    ∃ stale, s.hands[n]? = some ⟨[], stale, [], []⟩ ∧
      s' = Sys.requeue { s with hands := s.hands.eraseIdx n } stale := by
  unfold finish at done
  split at done
  · exact ⟨_, ‹_›, (Option.some.inj done).symm⟩
  · contradiction

theorem settles_finish (done : s.finish n = some s') : ∃ out, Settles s s' out [] [] := by
  obtain ⟨stale, found, rfl⟩ := finish_cases done
  refine ⟨_, settles_requeue (fun k => ?_) (fun k => ?_) rfl (fun _ => .rfl) rfl⟩
  · have := (((perm_hands found).flatMap_right Hand.lines).map Item.key).count_eq k
    simp only [Hand.lines, lines, flatMap_cons, map_append, count_append,
      map_nil, append_nil, nil_append] at this ⊢
    omega
  · have := (((perm_hands found).flatMap_right Hand.took).map Item.key).count_eq k
    simpa [waiting, tookLines] using this.symm

/-! ## The marks -/

theorem queued_readLine_mark (visit : Visit) (set : SeenIDs) (drop : Bool) :
    (set.readLine visit [if drop then '~' else '!']).queued = set.queued := by
  cases drop <;> rfl

theorem still_markRunning (env : Env ι π) (s : Sys ι π) (i : ι) (drop : Bool) :
    Still s (s.markRunning env i drop) := by
  refine ⟨fun k => rfl, fun k => rfl, rfl, fun k => ?_, rfl, rfl⟩
  obtain ⟨j, id⟩ := k
  by_cases same : j = i
  · subst same
    simp only [Queued, markRunning, Function.update_self, queued_readLine_mark]
  · simp only [Queued, markRunning, Function.update_of_ne same]

/-! ## A step -/

inductive Does (env : Env ι π) (s : Sys ι π) : Act ι π → Sys ι π → Prop
  | claim (i : ι) (id : ID) : Does env s (.claim i id) (s.claim i id)
  | received {i : ι} {id : ID} (opening : (i, id) ∈ s.opening) (content : List Char)
      (stamp sent reachFrom reachUntil : Int64) :
      Does env s (.received i id content stamp sent reachFrom reachUntil)
        (s.received env i id content stamp sent reachFrom reachUntil)
  | unopened {i : ι} {id : ID} (opening : (i, id) ∈ s.opening) :
      Does env s (.unopened i id) (s.unopened i id)
  | aside (act : Act ι π) (walking : Table (List Char) Nat) (live : Finset (List Char))
      (gens : π → Nat) :
      Does env s act { s with walking := walking, live := live, gens := gens }
  | poll (now : Int) : Does env s (.poll now) (s.poll env now).2
  | acked (act : Act ι π) (lists : AckLists) {tok : Nat} {batch : List (Item ι)}
      (found : s.inflight.lookup tok = some batch) :
      Does env s act (s.acked env tok lists batch)
  | hold {n : Nat} {now : Int} {s' : Sys ι π} (done : s.hold env n now = some s') :
      Does env s (.hold n now) s'
  | keep {n : Nat} {s' : Sys ι π} (done : s.keep n = some s') : Does env s (.keep n) s'
  | finish {n : Nat} {s' : Sys ι π} (done : s.finish n = some s') : Does env s (.finish n) s'
  | markRunning (i : ι) (drop : Bool) :
      Does env s (.markRunning i drop) (s.markRunning env i drop)

theorem does_of_step [DecidableEq π] {act : Act ι π} (step : Step env s act s') :
    Does env s act s' := by
  unfold Step at step
  cases act with
  | claim i id => exact Option.some.inj step ▸ .claim i id
  | received i id content stamp sent reachFrom reachUntil =>
    simp only [Sys.apply] at step
    split_ifs at step with opening
    exact Option.some.inj step ▸ .received opening ..
  | unopened i id =>
    simp only [Sys.apply] at step
    split_ifs at step with opening
    exact Option.some.inj step ▸ .unopened opening
  | walkBegins tag => exact Option.some.inj step ▸ .aside _ _ s.live s.gens
  | walkEnds tag =>
    rw [← Option.some.inj step]
    unfold walkEnds
    split_ifs <;> exact .aside _ _ s.live s.gens
  | liveCame tag =>
    rw [← Option.some.inj step]
    unfold liveCame
    split_ifs
    · exact .aside _ s.walking _ s.gens
    · exact .aside _ s.walking s.live s.gens
  | poll now => exact Option.some.inj step ▸ .poll now
  | ack token failed =>
    rw [← Option.some.inj step]
    unfold ack
    split
    · exact .aside _ s.walking s.live s.gens
    · split
      · exact .aside _ s.walking s.live s.gens
      · split
        · exact .aside _ s.walking s.live s.gens
        · rename_i found
          exact .acked _ _ found
  | hold n now => exact .hold step
  | keep n => exact .keep step
  | finish n => exact .finish step
  | freed p => exact Option.some.inj step ▸ .aside _ s.walking s.live _
  | markRunning i drop => exact Option.some.inj step ▸ .markRunning i drop

theorem Does.settles {act : Act ι π} (does : Does env s act s') (single : s.inflight.length ≤ 1) :
    (∃ i id, act = .claim i id ∧ s' = s.claim i id) ∨
      ∃ out refused settled, Settles s s' out refused settled := by
  cases does with
  | claim i id => exact .inl ⟨i, id, rfl, rfl⟩
  | received opening => exact .inr ⟨_, _, _, settles_received env opening ..⟩
  | unopened opening => exact .inr ⟨_, _, _, settles_unopened opening⟩
  | aside act walking live gens =>
    exact .inr ⟨_, _, _, (s.still_aside walking live gens).settles⟩
  | poll now =>
    obtain ⟨out, settles⟩ := s.settles_requeueAll
    exact .inr ⟨_, _, _, settles.still (s.still_poll env now)⟩
  | acked _ lists found =>
    obtain ⟨out, settles⟩ := settles_acked env single found lists
    exact .inr ⟨_, _, _, settles⟩
  | hold done =>
    obtain ⟨out, refused, settles⟩ := settles_hold done
    exact .inr ⟨_, _, _, settles⟩
  | keep done =>
    obtain ⟨out, settled, settles⟩ := settles_keep done
    exact .inr ⟨_, _, _, settles⟩
  | finish done =>
    obtain ⟨out, settles⟩ := settles_finish done
    exact .inr ⟨_, _, _, settles⟩
  | markRunning i drop => exact .inr ⟨_, _, _, (s.still_markRunning env i drop).settles⟩

end Sys

end Kryfo.Poll
