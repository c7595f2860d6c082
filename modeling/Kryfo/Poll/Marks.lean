import Kryfo.Poll.Settle

/-!
# Tries and marks along a step

A line is offered a few times and then released, and what is marked as opened was confirmed,
found no room, or was dropped.
-/

namespace Kryfo.Poll

open Library Seen List

variable {ι π : Type*} [DecidableEq ι]

namespace Sys

/-! ## Tries -/

def Fit (x : Item ι) : Prop := x.sendable = true ∧ x.done.tries < pollMaxTries

/-- Every line can be offered, and what was released was offered often enough. -/
structure Fits (s : Sys ι π) : Prop where
  lines : ∀ x ∈ s.lines, Fit x
  released : ∀ x ∈ s.log.released, x.done.tries = pollMaxTries

variable {xs : List (Item ι)}

omit [DecidableEq ι] in
theorem fit_of_onceMore (fit : ∀ x ∈ xs, Fit x) : ∀ x ∈ onceMore xs, Fit x := by
  intro x member
  simp only [onceMore, mem_filter, mem_map, Bool.not_eq_true', decide_eq_false_iff_not,
    not_le] at member
  obtain ⟨⟨y, inside, rfl⟩, few⟩ := member
  exact ⟨(fit y inside).1, few⟩

omit [DecidableEq ι] in
theorem tries_of_spent (fit : ∀ x ∈ xs, Fit x) : ∀ x ∈ spent xs, x.done.tries = pollMaxTries := by
  intro x member
  simp only [spent, mem_filter, mem_map, decide_eq_true_eq] at member
  obtain ⟨⟨y, inside, rfl⟩, many⟩ := member
  exact le_antisymm (fit y inside).2 many

variable {s : Sys ι π}

theorem Fits.requeue {t : Sys ι π} (fits : Fits s) (part : t.lines ⊆ s.lines)
    (again : xs ⊆ s.lines) (released : t.log.released = s.log.released) : Fits (t.requeue xs) where
  lines x member := by
    have split : x ∈ onceMore xs ∨ x ∈ t.lines := by
      simpa [Sys.lines, Sys.requeue] using member
    rcases split with more | rest
    · exact fit_of_onceMore (fun y inside => fits.lines y (again inside)) x more
    · exact fits.lines x (part rest)
  released x member := by
    have split : x ∈ spent xs ∨ x ∈ s.log.released := by
      simpa [Sys.requeue, released] using member
    rcases split with more | before
    · exact tries_of_spent (fun y inside => fits.lines y (again inside)) x more
    · exact fits.released x before

theorem Fits.requeueAll (fits : Fits s) : Fits s.requeueAll := by
  rw [requeueAll_eq]
  refine fits.requeue ?_ ?_ rfl
  · intro x member
    simp only [Sys.lines, mem_append] at member ⊢
    tauto
  · intro x member
    have sorted := (perm_insertionSort (fun b c : Nat × List (Item ι) => b.1 ≤ c.1)
      s.inflight).flatMap_right Prod.snd
    simp only [Sys.lines, mem_append, ← sorted.mem_iff]
    exact .inl (.inr member)

omit [DecidableEq ι] in
theorem fit_stamped (env : Env ι π) (t : Sys ι π) {x : Item ι} (fit : Fit x) :
    Fit (t.stamped env x) := fit

theorem Fits.poll (fits : Fits s) (env : Env ι π) (now : Int) : Fits (s.poll env now).2 := by
  have again := fits.requeueAll
  obtain ⟨out, back, since, token, inflight, sorted, -, batch, after⟩ := s.poll_spec env now
  have inInbox : ∀ x, x ∈ out ∨ x ∈ back → Fit x := fun x inside => by
    refine again.lines x ?_
    simp [Sys.lines, ← sorted.mem_iff, inside]
  rw [after]
  refine ⟨fun x member => ?_, again.released⟩
  simp only [Sys.lines, batch, mem_append] at member
  obtain (kept | sent) | inHand := member
  · exact inInbox x (.inr kept)
  · obtain ⟨y, inside, rfl⟩ := mem_map.mp sent
    exact fit_stamped env _ (inInbox y (.inl (mem_of_mem_filter inside)))
  · split_ifs at inHand with nothing
    · exact again.lines x (by simp only [Sys.lines, mem_append, inHand, or_true])
    · rw [flatMap_cons, mem_append] at inHand
      obtain gone | others := inHand
      · refine inInbox x (.inl (mem_of_mem_filter (p := fun x => !x.sendable) ?_))
        simpa [Hand.lines] using gone
      · exact again.lines x (by simp only [Sys.lines, mem_append, others, or_true])

theorem Fits.acked (fits : Fits s) (env : Env ι π) (single : s.inflight.length ≤ 1) {tok : Nat}
    {batch : List (Item ι)} (found : s.inflight.lookup tok = some batch) (lists : AckLists) :
    Fits (s.acked env tok lists batch) := by
  obtain ⟨again, holds, kept, t, inflight, parts, inHand, after⟩ :=
    acked_spec env single found lists
  have inBatch : ∀ x ∈ again ++ (holds.map Prod.fst ++ kept), x ∈ s.lines := fun x inside => by
    simp [Sys.lines, inflight, parts.mem_iff.mp inside]
  have rest : t.lines ⊆ s.lines := by
    intro x member
    simp only [inHand, Sys.lines, Hand.lines, flatMap_cons, flatMap_nil,
      append_nil, mem_append] at member
    obtain inInbox | (held | kept) | others := member
    · simp [Sys.lines, inInbox]
    · exact inBatch x (by simp only [mem_append, held, true_or, or_true])
    · exact inBatch x (by simp only [mem_append, kept, or_true])
    · simp only [Sys.lines, mem_append, others, or_true]
  have requeued : Fits (t.requeue again) :=
    fits.requeue rest (fun x member => inBatch x (mem_append_left _ member))
      (by rw [inHand])
  rw [after]
  exact ⟨requeued.lines, requeued.released⟩

omit [DecidableEq ι] in
theorem Fits.of_hand (fits : Fits s) {n : Nat} {h h' : Hand ι} (found : s.hands[n]? = some h)
    (part : h'.lines ⊆ h.lines) {sets : ι → SeenIDs} {log : Log ι}
    (released : log.released = s.log.released) :
    Fits { s with sets := sets, hands := h' :: s.hands.eraseIdx n, log := log } := by
  refine ⟨fun x member => fits.lines x ?_, released ▸ fits.released⟩
  have apart := (perm_hands found).flatMap_right Hand.lines
  simp only [Sys.lines, flatMap_cons, mem_append, apart.mem_iff] at member ⊢
  tauto

variable {s' : Sys ι π} {env : Env ι π}

theorem Fits.does {act : Act ι π} (fits : Fits s) (single : s.inflight.length ≤ 1)
    (sendable : ∀ i id content stamp sent reachFrom reachUntil,
      act = .received i id content stamp sent reachFrom reachUntil →
        (entryOf (env.tag i ++ '|' :: content)).isSome)
    (does : Does env s act s') : Fits s' := by
  cases does with
  | claim i id =>
    obtain same | ⟨-, after⟩ := s.claim_cases i id
    · rwa [same]
    · rw [after]
      exact ⟨fits.lines, fits.released⟩
  | received opening content stamp sent reachFrom reachUntil =>
    refine ⟨fun x member => ?_, fits.released⟩
    simp only [Sys.received, Sys.lines, mem_append, mem_singleton] at member
    obtain ((before | rfl) | batch) | inHand := member
    · exact fits.lines x (by simp [Sys.lines, before])
    · exact ⟨sendable _ _ _ _ _ _ _ rfl, (by decide : 0 < pollMaxTries)⟩
    · exact fits.lines x (by simp only [Sys.lines, mem_append, batch, true_or, or_true])
    · exact fits.lines x (by simp only [Sys.lines, mem_append, inHand, or_true])
  | unopened opening | aside | markRunning i drop => exact ⟨fits.lines, fits.released⟩
  | poll now => exact fits.poll env now
  | acked _ lists found => exact fits.acked env single found lists
  | hold done =>
    obtain ⟨x, name, holds, stale, kept, took, set, found, -, -, rfl | rfl | rfl⟩ :=
      hold_cases done
    · refine fits.of_hand found (fun y member => ?_) rfl
      simp only [Hand.lines, map_cons, mem_append, mem_cons] at member ⊢
      tauto
    · refine fits.of_hand found ?_ rfl
      exact fun y member => mem_cons_of_mem x member
    · refine fits.of_hand found ?_ rfl
      exact fun y member => mem_cons_of_mem x member
  | keep done =>
    obtain ⟨i, stale, kept, took, found, rfl⟩ := keep_cases done
    refine fits.of_hand found (fun y member => ?_) rfl
    simp only [Hand.lines, mem_append, mem_filter] at member ⊢
    tauto
  | finish done =>
    obtain ⟨stale, found, rfl⟩ := finish_cases done
    have apart := (perm_hands found).flatMap_right Hand.lines
    refine fits.requeue (fun x member => ?_) (fun x member => ?_) rfl
    · simp only [Sys.lines, mem_append, apart.mem_iff, flatMap_cons] at member ⊢
      tauto
    · simp [Sys.lines, apart.mem_iff, Hand.lines, member]

/-! ## What is marked as opened -/

/-- What is marked as opened the app confirmed, a hold had no room for, or a drop mark took. -/
structure Marked (first : ι → SeenIDs) (s : Sys ι π) : Prop where
  confirmed : ∀ h ∈ s.hands, ∀ x ∈ h.kept, x.key ∈ s.log.confirmed
  refused : ∀ h ∈ s.hands, ∀ x ∈ h.took, x.key ∈ s.log.refused
  kept : ∀ k ∈ s.log.kept, k ∈ s.log.confirmed ∨ k ∈ s.log.refused
  opened : ∀ i id, (s.sets i).opened.has id = true →
    (first i).opened.has id = true ∨ (i, id) ∈ s.log.kept ∨ (i, id) ∈ s.log.dropped

variable {first : ι → SeenIDs}

omit [DecidableEq ι] in
theorem Marked.same (marked : Marked first s) (hands : s'.hands ⊆ s.hands)
    (opened : ∀ i, (s'.sets i).opened = (s.sets i).opened)
    (confirmed : s'.log.confirmed = s.log.confirmed) (refused : s'.log.refused = s.log.refused)
    (kept : s'.log.kept = s.log.kept) (dropped : s'.log.dropped = s.log.dropped) :
    Marked first s' where
  confirmed h inside := confirmed ▸ marked.confirmed h (hands inside)
  refused h inside := refused ▸ marked.refused h (hands inside)
  kept := by
    rw [kept, confirmed, refused]
    exact marked.kept
  opened := by
    intro i id
    rw [opened, kept, dropped]
    exact marked.opened i id

theorem Marked.requeue (marked : Marked first s) (xs : List (Item ι)) :
    Marked first (s.requeue xs) := by
  refine marked.same (.refl _) (fun i => ?_) rfl rfl rfl rfl
  simp only [Sys.requeue, releaseAll_apply]

theorem opened_update {i : ι} {set : SeenIDs} (opened : set.opened = (s.sets i).opened) (j : ι) :
    (Function.update s.sets i set j).opened = (s.sets j).opened := by
  by_cases same : j = i
  · subst same
    rw [Function.update_self, opened]
  · rw [Function.update_of_ne same]

theorem Marked.poll (marked : Marked first s) (fits : Fits s) (env : Env ι π) (now : Int) :
    Marked first (s.poll env now).2 := by
  have requeued : Marked first s.requeueAll := by
    have emptied : Marked first { s with inflight := [] } :=
      marked.same (.refl _) (fun _ => rfl) rfl rfl rfl rfl
    rw [requeueAll_eq]
    exact emptied.requeue _
  obtain ⟨out, back, since, token, inflight, sorted, -, -, after⟩ := s.poll_spec env now
  have nothing : (out.filter fun x => !x.sendable) = [] := by
    refine filter_eq_nil_iff.mpr fun x inside => ?_
    have inInbox : x ∈ s.requeueAll.inbox := sorted.mem_iff.mp (by simp [inside])
    have fit := fits.requeueAll.lines x (by simp [Sys.lines, inInbox])
    simp [fit.1]
  rw [after]
  refine requeued.same ?_ (fun _ => rfl) rfl rfl rfl rfl
  simp [nothing]

theorem Marked.acked (marked : Marked first s) (env : Env ι π) (single : s.inflight.length ≤ 1)
    {tok : Nat} {batch : List (Item ι)} (found : s.inflight.lookup tok = some batch)
    (lists : AckLists) : Marked first (s.acked env tok lists batch) := by
  obtain ⟨again, holds, kept, t, -, -, rfl, after⟩ := acked_spec env single found lists
  rw [after]
  refine ⟨fun h inside x member => ?_, fun h inside x member => ?_, fun k member => ?_,
    fun i id => ?_⟩
  · obtain rfl | before := mem_cons.mp inside
    · exact mem_append_left _ (mem_map_of_mem member)
    · exact mem_append_right _ (marked.confirmed h before x member)
  · obtain rfl | before := mem_cons.mp inside
    · simp at member
    · exact marked.refused h before x member
  · exact (marked.kept k member).imp_left (mem_append_right _)
  · simp only [Sys.requeue, releaseAll_apply]
    exact marked.opened i id

omit [DecidableEq ι] in
theorem Marked.of_hand (marked : Marked first s) {n : Nat} {h h' : Hand ι}
    (found : s.hands[n]? = some h) {sets : ι → SeenIDs} {log : Log ι}
    (stillKept : h'.kept ⊆ h.kept) (stillTook : ∀ x ∈ h'.took, x ∈ h.took ∨ x.key ∈ log.refused)
    (confirmed : log.confirmed = s.log.confirmed) (refused : s.log.refused ⊆ log.refused)
    (keptBefore : s.log.kept ⊆ log.kept)
    (kept : ∀ k ∈ log.kept, k ∈ s.log.kept ∨ k ∈ (h.kept ++ h.took).map Item.key)
    (dropped : log.dropped = s.log.dropped)
    (opened : ∀ i id, (sets i).opened.has id = true → (s.sets i).opened.has id = true ∨ (i, id) ∈ log.kept) :
    Marked first { s with sets := sets, hands := h' :: s.hands.eraseIdx n, log := log } := by
  have inHands : ∀ g, g ∈ s.hands ↔ g ∈ h :: s.hands.eraseIdx n :=
    fun g => (perm_hands found).mem_iff
  have inHand := (inHands h).mpr mem_cons_self
  refine ⟨fun g inside x member => ?_, fun g inside x member => ?_, fun k member => ?_,
    fun i id has => ?_⟩
  · rw [confirmed]
    obtain rfl | other := mem_cons.mp inside
    · exact marked.confirmed h inHand x (stillKept member)
    · exact marked.confirmed g ((inHands g).mpr (mem_cons_of_mem _ other)) x member
  · obtain rfl | other := mem_cons.mp inside
    · obtain before | isNew := stillTook x member
      · exact refused (marked.refused h inHand x before)
      · exact isNew
    · exact refused (marked.refused g ((inHands g).mpr (mem_cons_of_mem _ other)) x member)
  · rw [confirmed]
    obtain before | isNew := kept k member
    · exact (marked.kept k before).imp_right (@refused k)
    · obtain ⟨x, inside, rfl⟩ := mem_map.mp isNew
      obtain isKept | isTook := mem_append.mp inside
      · exact Or.inl (marked.confirmed h inHand x isKept)
      · exact Or.inr (refused (marked.refused h inHand x isTook))
  · rw [dropped]
    obtain before | isNew := opened i id has
    · exact (marked.opened i id before).imp_right (Or.imp_left (@keptBefore _))
    · exact Or.inr (Or.inl isNew)

theorem Marked.hold (marked : Marked first s) {n : Nat} {now : Int}
    (done : s.hold env n now = some s') : Marked first s' := by
  obtain ⟨x, name, holds, stale, kept, took, set, found, -, opened, rfl | rfl | rfl⟩ :=
    hold_cases done
  · exact marked.of_hand found (.refl _) (fun _ => .inl) rfl
      (.refl _) (.refl _) (fun _ => .inl) rfl (fun _ _ => .inl)
  · refine marked.of_hand found (.refl _) (fun y member => ?_) rfl
      (subset_cons_self _ _) (.refl _) (fun _ => .inl) rfl
      (fun i id has => .inl (opened_update opened i ▸ has))
    obtain before | rfl := mem_append.mp member |>.imp_right mem_singleton.mp
    · exact .inl before
    · exact .inr mem_cons_self
  · exact marked.of_hand found (.refl _) (fun _ => .inl) rfl
      (.refl _) (.refl _) (fun _ => .inl) rfl
      (fun i id has => .inl (opened_update opened i ▸ has))

theorem Marked.keep (marked : Marked first s) {n : Nat} (done : s.keep n = some s') :
    Marked first s' := by
  obtain ⟨i, stale, kept, took, found, rfl⟩ := keep_cases done
  refine marked.of_hand found (filter_subset_self _) (fun y member => ?_) rfl
    (.refl _) (subset_append_right _ _) (fun k member => ?_) rfl
    (fun j id has => ?_)
  · exact .inl (mem_of_mem_filter member)
  · refine (mem_append.mp member).symm.imp_right fun isNew => ?_
    exact map_subset _ (filter_subset_self _) isNew
  · by_cases same : j = i
    · subst same
      simp only [Function.update_self, SeenIDs.handedOver_opened] at has
      refine (Ring.has_of_foldl_add has).imp_right fun isNew => ?_
      obtain ⟨y, inside, rfl⟩ := mem_map.mp isNew
      refine mem_append_left _ (mem_map.mpr ⟨y, inside, ?_⟩)
      simpa [Item.key] using (mem_filter.mp inside).2
    · simp only [Function.update_of_ne same] at has
      exact .inl has

theorem Marked.markRunning (marked : Marked first s) (env : Env ι π) (i : ι) (drop : Bool) :
    Marked first (s.markRunning env i drop) := by
  cases drop with
  | false =>
    refine marked.same (.refl _) (fun j => opened_update ?_ j) rfl rfl rfl rfl
    rfl
  | true =>
    refine ⟨marked.confirmed, marked.refused, marked.kept, fun j id has => ?_⟩
    by_cases same : j = i
    · subst same
      simp only [Sys.markRunning, Function.update_self] at has
      obtain before | isHeld := Ring.has_of_foldl_add has
      · exact (marked.opened j id before).imp_right
          (Or.imp_right (mem_append_right _))
      · exact .inr (.inr (mem_append_left _ (mem_map_of_mem isHeld)))
    · simp only [Sys.markRunning, Function.update_of_ne same] at has
      exact (marked.opened j id has).imp_right (Or.imp_right (mem_append_right _))

theorem Marked.does {act : Act ι π} (marked : Marked first s) (fits : Fits s)
    (single : s.inflight.length ≤ 1) (does : Does env s act s') : Marked first s' := by
  cases does with
  | claim i id =>
    obtain same | ⟨-, after⟩ := s.claim_cases i id
    · rwa [same]
    · rw [after]
      refine marked.same (.refl _) (fun j => opened_update ?_ j) rfl rfl rfl rfl
      rfl
  | received opening =>
    exact marked.same (.refl _) (fun _ => rfl) rfl rfl rfl rfl
  | unopened opening =>
    refine marked.same (.refl _) (fun j => opened_update ?_ j) rfl rfl rfl rfl
    rfl
  | aside => exact marked.same (.refl _) (fun _ => rfl) rfl rfl rfl rfl
  | poll now => exact marked.poll fits env now
  | acked _ lists found => exact marked.acked env single found lists
  | hold done => exact marked.hold done
  | keep done => exact marked.keep done
  | finish done =>
    obtain ⟨stale, found, rfl⟩ := finish_cases done
    refine Marked.requeue ?_ stale
    exact marked.same (eraseIdx_sublist _ _).subset (fun _ => rfl) rfl rfl rfl rfl
  | markRunning i drop => exact marked.markRunning env i drop

end Sys

end Kryfo.Poll
