import Kryfo.Library.Run
import Kryfo.Roster.Group
import Mathlib.Tactic

/-!
# Member lists converge on the admin's

Taken in the order they were sent, the admin's frames give a phone the admin's list.  Out of that
order an older list in a control changes nothing, as it has a stamp, and any other frame may.
-/

namespace Kryfo.Roster

open Library List

variable {ι : Type} [DecidableEq ι] {admin me : ι}

/-- The phone knows some people as the admin does. -/
def Seating.Plain (v : Seating ι) (ids : List ι) : Prop :=
  ∀ h ∈ ids, v.shaped h = true ∧ v.out h = false ∧ v.seat h = h

/-- The phone knows the people a frame seats as the admin does. -/
def Seating.Knows (v : Seating ι) : Frame ι → Prop
  | .create _ ids _ => v.accepted = true ∧ v.Plain ids
  | .add ids | .message ids => v.Plain ids
  | .remove _ | .rename _ => True

/-- A rename, or a list that is not newer than the one taken. -/
def Frame.Idle (p : Phone ι) : Frame ι → Prop
  | .rename _ => True
  | .create _ _ (some stamp) => ∃ g ∈ p, stamp ≤ g.stamp
  | _ => False

def Frame.IsRename : Frame ι → Prop
  | .rename _ => True
  | _ => False

def Frame.TakesOut (me : ι) : Frame ι → Prop
  | .remove ids => me ∈ ids
  | .message roster => me ∉ roster
  | _ => False

/-- A frame that changes something is taken when every one sent before it was, but for those that
change no list.  One that takes the phone out comes after all but renames. -/
def Taking.Ready (me : ι) (sent : List (Frame ι)) (s : Taking ι) (act : Act ι) : Prop :=
  act.index ∉ s.taken → ∀ frame ∈ sent[act.index]?, frame.Idle s.phone ∨
    act.seating.Knows frame ∧ ∀ i < act.index, i ∉ s.taken → ∀ earlier ∈ sent[i]?,
      earlier.Idle s.phone ∧ (frame.TakesOut me → earlier.IsRename)

/-! ## What one frame does -/

section Taking

variable {v : Seating ι} {p q : Phone ι} {f : Frame ι} {g g' : Group ι}

theorem Seating.members_eq {ids : List ι} (plain : v.Plain ids) : v.members me ids = ids :=
  filter_eq_self.mpr fun h inside => by simp [(plain h inside).1]

theorem Seating.seated_eq {ids : List ι} (plain : v.Plain ids) : v.seated ids = ids.toFinset := by
  have all : (ids.filter fun h => !v.out h) = ids :=
    filter_eq_self.mpr fun h inside => by simp [(plain h inside).2.1]
  have same : ids.map v.seat = ids := by
    conv_rhs => rw [← map_id ids]
    exact map_congr_left fun h inside => (plain h inside).2.2
  rw [Seating.seated, all, same]

omit [DecidableEq ι] in
theorem Seating.plain_default (ids : List ι) : ({} : Seating ι).Plain ids :=
  fun _ _ => ⟨rfl, rfl, rfl⟩

omit [DecidableEq ι] in
theorem Seating.knows_default (f : Frame ι) : ({} : Seating ι).Knows f := by
  cases f with
  | create name ids stamp => exact ⟨rfl, Seating.plain_default ids⟩
  | add ids | message ids => exact Seating.plain_default ids
  | _ => trivial

/-- Where people are known as the admin knows them, a frame is taken as it says. -/
theorem take_of_knows (knows : v.Knows f) : take admin me v p f = take admin me {} p f := by
  cases f with
  | create name ids stamp =>
    obtain ⟨accepted, plain⟩ := knows
    have default := Seating.plain_default ids
    simp only [take, accepted, Seating.members_eq plain, Seating.members_eq default,
      Seating.seated_eq plain, Seating.seated_eq default]
  | add ids | message ids =>
    have plain : v.Plain ids := knows
    have default := Seating.plain_default ids
    cases p with
    | none => rfl
    | some g =>
      simp only [take, Seating.members_eq plain, Seating.members_eq default,
        Seating.seated_eq plain, Seating.seated_eq default]
  | remove ids | rename name => cases p <;> rfl

theorem take_create {name : Text} {ids : List ι} {stamp : Int} (fits : ids.toFinset.card ≤ 50)
    (newer : (p.map Group.stamp).getD 0 < stamp) :
    take admin me {} p (.create name ids (some stamp)) = some ⟨name, ids.toFinset, stamp⟩ := by
  have default := Seating.plain_default ids
  simp only [take, Seating.members_eq default, Seating.seated_eq default, takeRosterStamp,
    if_neg (not_le.mpr newer)]
  simp [fitsCap, kGroupMemberCap, fits]

theorem take_add {ids : List ι} (fits : (g.members ∪ ids.toFinset).card ≤ 50) :
    take admin me {} (some g) (.add ids) = some { g with members := g.members ∪ ids.toFinset } := by
  have default := Seating.plain_default ids
  have card : g.members.card + (ids.toFinset \ g.members).card = (g.members ∪ ids.toFinset).card := by
    rw [← Finset.union_sdiff_self_eq_union, Finset.card_union_of_disjoint Finset.disjoint_sdiff]
  simp only [take, Seating.members_eq default, Seating.seated_eq default, card, fitsCap,
    kGroupMemberCap, fits, decide_true, if_true, Finset.union_sdiff_self_eq_union]

theorem take_remove {ids : List ι} (here : admin ∈ g.members) :
    take admin me {} (some g) (.remove ids) =
      if me ∈ ids then none else some { g with members := g.members \ ids.toFinset } := by
  simp [take, here]

theorem take_message {roster : List ι} (here : admin ∈ g.members) (adminOn : admin ∈ roster)
    (meOn : me ∈ roster) (fits : roster.toFinset.card ≤ 50) :
    take admin me {} (some g) (.message roster) = some { g with members := roster.toFinset } := by
  have default := Seating.plain_default roster
  simp [take, Seating.members_eq default, Seating.seated_eq default, here, adminOn, meOn, fitsCap,
    kGroupMemberCap, fits]

def Frame.IsCreate : Frame ι → Prop
  | .create _ _ _ => True
  | _ => False

theorem stamp_take_other (other : ¬ f.IsCreate) (taken : take admin me v (some g) f = some g') :
    g'.stamp = g.stamp := by
  cases f with
  | create name ids stamp => exact absurd trivial other
  | _ =>
    simp only [take] at taken
    split_ifs at taken <;> rw [← Option.some.inj taken]

theorem take_none_other (other : ¬ f.IsCreate) : take admin me v none f = none := by
  cases f with
  | create name ids stamp => exact absurd trivial other
  | _ => rfl

/-- A list in a control is taken with its stamp, above the one held, or leaves the phone. -/
theorem take_create_cases (name : Text) (ids : List ι) (stamp : Option Int) :
    take admin me v p (.create name ids stamp) = p ∨
      ∃ newStamp, takeRosterStamp ((p.map Group.stamp).getD 0) stamp = some newStamp ∧
        take admin me v p (.create name ids stamp) =
          some ⟨name, v.seated (v.members me ids), newStamp⟩ := by
  simp only [take]
  split_ifs
  · exact .inl rfl
  · cases given : takeRosterStamp ((p.map Group.stamp).getD 0) stamp with
    | none => exact .inl rfl
    | some newStamp => exact .inr ⟨newStamp, rfl, rfl⟩

theorem le_takeRosterStamp {held newStamp : Int} {stamp : Option Int}
    (given : takeRosterStamp held stamp = some newStamp) : held ≤ newStamp := by
  cases stamp with
  | none => exact (Option.some.inj given).le
  | some stamp =>
    simp only [takeRosterStamp] at given
    split_ifs at given with older
    rw [← Option.some.inj given]
    exact (not_le.mp older).le

theorem stamp_take (taken : take admin me v (some g) f = some g') : g.stamp ≤ g'.stamp := by
  by_cases isCreate : f.IsCreate
  · cases f with
    | create name ids stamp =>
      obtain same | ⟨newStamp, given, new⟩ := @take_create_cases ι _ admin me v (some g) name ids stamp
      · rw [← Option.some.inj (same.symm.trans taken)]
      · rw [← Option.some.inj (new.symm.trans taken)]
        exact le_takeRosterStamp given
    | _ => exact isCreate.elim
  · exact (stamp_take_other isCreate taken).ge

theorem takesOut_of_take (taken : take admin me {} (some g) f = none) : f.TakesOut me := by
  cases f with
  | create name ids stamp =>
    simp only [take] at taken
    split at taken
    · exact nomatch taken
    · split at taken <;> exact nomatch taken
  | add ids | rename name =>
    simp only [take] at taken
    split_ifs at taken
  | remove ids =>
    simp only [take] at taken
    split_ifs at taken with _ named
    exact named
  | message roster =>
    simp only [take, Seating.members_eq (Seating.plain_default roster)] at taken
    split_ifs at taken with _ absent
    exact absent

def Same (p q : Phone ι) : Prop :=
  p.map (fun g => (g.members, g.stamp)) = q.map fun g => (g.members, g.stamp)

omit [DecidableEq ι] in
theorem Same.cases (same : Same p q) :
    p = none ∧ q = none ∨
      ∃ g g', p = some g ∧ q = some g' ∧ g.members = g'.members ∧ g.stamp = g'.stamp := by
  cases p with
  | none =>
    cases q with
    | none => exact .inl ⟨rfl, rfl⟩
    | some g' => exact nomatch same
  | some g =>
    cases q with
    | none => exact nomatch same
    | some g' =>
      have pair := Option.some.inj same
      exact .inr ⟨g, g', rfl, rfl, congrArg Prod.fst pair, congrArg Prod.snd pair⟩

theorem Same.take (same : Same p q) (f : Frame ι) :
    Same (Roster.take admin me {} p f) (Roster.take admin me {} q f) := by
  obtain ⟨rfl, rfl⟩ | ⟨⟨name, members, stamp⟩, ⟨name', _, _⟩, rfl, rfl, rfl, rfl⟩ := same.cases
  · exact .refl _
  · cases f with
    | create newName ids newStamp =>
      simp only [Roster.take, Option.map_some]
      split_ifs
      · rfl
      · split
        · rfl
        · rfl
    | _ =>
      simp only [Roster.take]
      split_ifs <;> rfl

theorem same_of_isRename (rename : f.IsRename) : Same (take admin me v p f) p := by
  cases f with
  | rename name =>
    cases p with
    | none => rfl
    | some g =>
      simp only [take]
      split_ifs <;> rfl
  | _ => exact rename.elim

omit [DecidableEq ι] in
theorem Frame.Idle.cases (idle : f.Idle p) : f.IsRename ∨
    ∃ name ids stamp g, f = .create name ids (some stamp) ∧ p = some g ∧ stamp ≤ g.stamp := by
  cases f with
  | rename name => exact .inl trivial
  | create name ids stamp =>
    cases stamp with
    | none => exact idle.elim
    | some stamp =>
      obtain ⟨g, held, older⟩ := idle
      exact .inr ⟨name, ids, stamp, g, rfl, held, older⟩
  | _ => exact idle.elim

omit [DecidableEq ι] in
theorem Frame.IsRename.idle (rename : f.IsRename) : f.Idle p := by
  cases f with
  | rename name => trivial
  | _ => exact rename.elim

theorem same_of_idle (idle : f.Idle p) : Same (take admin me v p f) p := by
  obtain rename | ⟨name, ids, stamp, g, rfl, rfl, older⟩ := idle.cases
  · exact same_of_isRename rename
  · simp only [take, Option.map_some, Option.getD_some, takeRosterStamp]
    split_ifs <;> rfl

omit [DecidableEq ι] in
theorem Frame.Idle.same (idle : f.Idle p) (same : Same p q) : f.Idle q := by
  obtain rename | ⟨name, ids, stamp, g, rfl, rfl, older⟩ := idle.cases
  · exact rename.idle
  · obtain ⟨gone, -⟩ | ⟨g', g'', isG, rfl, -, sameStamp⟩ := same.cases
    · exact nomatch gone
    · obtain rfl := Option.some.inj isG
      exact ⟨g'', rfl, sameStamp ▸ older⟩

end Taking

/-! ## Out of order -/

section Order

variable {sent : List (Frame ι)} {p : Phone ι} {f : Frame ι} {g : Group ι} {s s' : Taking ι} {m : Nat}

def Frame.stamp? : Frame ι → Option Int
  | .create _ _ stamp => stamp
  | _ => none

def Frame.Stamped : Frame ι → Prop
  | .create _ _ stamp => stamp.isSome = true
  | _ => True

/-- Every list in a control has a stamp, above those of the lists before it. -/
structure Rising (sent : List (Frame ι)) : Prop where
  stamped : ∀ f ∈ sent, f.Stamped
  rising : sent.Pairwise fun f f' => ∀ t ∈ f.stamp?, ∀ t' ∈ f'.stamp?, t < t'

def asOf (admin me : ι) (sent : List (Frame ι)) : Phone ι := sent.foldl (take admin me {}) none

theorem asOf_append (sent more : List (Frame ι)) :
    asOf admin me (sent ++ more) = more.foldl (take admin me {}) (asOf admin me sent) :=
  foldl_append

theorem stamp_cases (stamped : f.Stamped) (taken : take admin me {} p f = some g) :
    (∃ g', p = some g' ∧ g.stamp = g'.stamp) ∨ f.stamp? = some g.stamp := by
  by_cases isCreate : f.IsCreate
  · cases f with
    | create name ids stamp =>
      obtain ⟨stamp, rfl⟩ := Option.isSome_iff_exists.mp stamped
      obtain same | ⟨newStamp, given, new⟩ := @take_create_cases ι _ admin me {} p name ids (some stamp)
      · exact .inl ⟨g, same.symm.trans taken, rfl⟩
      · simp only [takeRosterStamp] at given
        split_ifs at given
        rw [← Option.some.inj (new.symm.trans taken), ← Option.some.inj given]
        exact .inr rfl
    | _ => exact isCreate.elim
  · cases p with
    | none => exact nomatch (take_none_other isCreate).symm.trans taken
    | some g' => exact .inl ⟨g', rfl, stamp_take_other isCreate taken⟩

theorem stamp_asOf (stamped : ∀ f ∈ sent, f.Stamped) (held : asOf admin me sent = some g) :
    ∃ f ∈ sent, f.stamp? = some g.stamp := by
  induction sent using List.reverseRecOn generalizing g with
  | nil => exact nomatch held
  | append_singleton before f ih =>
    rw [asOf_append] at held
    obtain ⟨g', isBefore, same⟩ | own :=
      stamp_cases (stamped f (mem_append_right _ mem_cons_self)) held
    · obtain ⟨f', inside, stamp⟩ :=
        ih (fun f inside => stamped f (mem_append_left _ inside)) isBefore
      exact ⟨f', mem_append_left _ inside, same ▸ stamp⟩
    · exact ⟨f, mem_append_right _ mem_cons_self, own⟩

theorem Rising.isRename_of_idle (rising : Rising sent) {i : Nat} (later : m ≤ i)
    (found : sent[i]? = some f) (idle : f.Idle (asOf admin me (sent.take m))) : f.IsRename := by
  obtain rename | ⟨name, ids, stamp, g, rfl, held, older⟩ := idle.cases
  · exact rename
  · obtain ⟨f', inside, own⟩ := stamp_asOf
      (fun f inside => rising.stamped f (mem_of_mem_take inside)) held
    have after : Frame.create name ids (some stamp) ∈ sent.drop m := by
      refine mem_iff_getElem?.mpr ⟨i - m, ?_⟩
      rw [getElem?_drop, Nat.add_sub_cancel' later]
      exact found
    have pairs := rising.rising
    rw [← take_append_drop m sent, pairwise_append] at pairs
    have := pairs.2.2 f' inside _ after g.stamp own stamp rfl
    omega

theorem same_foldl_renames {more : List (Frame ι)} (renames : ∀ f ∈ more, f.IsRename)
    (p : Phone ι) : Same (more.foldl (take admin me {}) p) p := by
  induction more generalizing p with
  | nil => rfl
  | cons f more ih =>
    have first := @same_of_isRename ι _ admin me {} p f (renames f mem_cons_self)
    exact (ih (fun f inside => renames f (mem_cons_of_mem _ inside)) _).trans first

structure Caught (admin me : ι) (sent : List (Frame ι)) (s : Taking ι) (m : Nat) : Prop where
  bound : m ≤ sent.length
  phone : Same s.phone (asOf admin me (sent.take m))
  early : ∀ i ∈ s.taken, m ≤ i → ∀ f ∈ sent[i]?, f.IsRename
  late : ∀ i < m, i ∉ s.taken → ∀ f ∈ sent[i]?, f.Idle s.phone

theorem Caught.start : Caught admin me sent {} 0 :=
  ⟨Nat.zero_le _, .refl _, fun _ none => absurd none not_mem_nil,
    fun _ none => absurd none (Nat.not_lt_zero _)⟩

theorem Frame.Idle.take {f' : Frame ι} (idle : f.Idle p) (stays : ¬ f'.TakesOut me) :
    f.Idle (Roster.take admin me {} p f') := by
  obtain rename | ⟨name, ids, stamp, g, rfl, rfl, older⟩ := idle.cases
  · exact rename.idle
  · cases taken : Roster.take admin me {} (some g) f' with
    | none => exact absurd (takesOut_of_take taken) stays
    | some g' => exact ⟨g', rfl, older.trans (stamp_take taken)⟩

theorem asOf_take_succ {i : Nat} (found : sent[i]? = some f) :
    asOf admin me (sent.take (i + 1)) = take admin me {} (asOf admin me (sent.take i)) f := by
  rw [take_add_one, found, asOf_append]
  rfl

theorem Caught.takeIdle (caught : Caught admin me sent s m) (rising : Rising sent) {i : Nat}
    (found : sent[i]? = some f) (idle : f.Idle s.phone) (v : Seating ι) :
    Caught admin me sent ⟨take admin me v s.phone f, i :: s.taken⟩ m := by
  have same : Same (take admin me v s.phone f) s.phone := same_of_idle idle
  refine ⟨caught.bound, same.trans caught.phone, fun j inside after f' found' => ?_,
    fun j before untaken f' found' => ?_⟩
  · obtain rfl | old := mem_cons.mp inside
    · obtain rfl : f = f' := Option.some.inj (found.symm.trans found')
      exact rising.isRename_of_idle after found (idle.same caught.phone)
    · exact caught.early j old after f' found'
  · exact (caught.late j before (fun old => untaken (mem_cons_of_mem _ old)) f' found').same
      same.symm

theorem Caught.takeNext (caught : Caught admin me sent s m) (rising : Rising sent) {i : Nat}
    (after : m ≤ i) (found : sent[i]? = some f)
    (ready : ∀ j < i, j ∉ s.taken → ∀ f' ∈ sent[j]?,
      f'.Idle s.phone ∧ (f.TakesOut me → f'.IsRename)) :
    Caught admin me sent ⟨take admin me {} s.phone f, i :: s.taken⟩ (i + 1) := by
  have renames : ∀ j, m ≤ j → j < i → ∀ f' ∈ sent[j]?, f'.IsRename := by
    intro j above below f' found'
    by_cases taken : j ∈ s.taken
    · exact caught.early j taken above f' found'
    · exact rising.isRename_of_idle above found'
        ((ready j below taken f' found').1.same caught.phone)
  have upTo : Same s.phone (asOf admin me (sent.take i)) := by
    have split : sent.take i = sent.take m ++ (sent.drop m).take (i - m) := by
      rw [← List.take_add, Nat.add_sub_cancel' after]
    rw [split, asOf_append]
    refine caught.phone.trans (same_foldl_renames (fun f' inside => ?_) _).symm
    obtain ⟨j, atJ⟩ := mem_iff_getElem?.mp inside
    rw [getElem?_take] at atJ
    split_ifs at atJ with below
    rw [getElem?_drop] at atJ
    exact renames (m + j) (by omega) (by omega) f' atJ
  refine ⟨(List.getElem?_eq_some_iff.mp found).1, ?_, fun j inside above f' found' => ?_,
    fun j below untaken f' found' => ?_⟩
  · rw [asOf_take_succ found]
    exact upTo.take f
  · obtain rfl | old := mem_cons.mp inside
    · omega
    · exact caught.early j old (by omega) f' found'
  · have notI : j ≠ i := fun same => untaken (same ▸ mem_cons_self)
    have before : j < i := by omega
    obtain ⟨idle, out⟩ := ready j before (fun old => untaken (mem_cons_of_mem _ old)) f' found'
    by_cases takesOut : f.TakesOut me
    · exact (out takesOut).idle
    · exact idle.take takesOut

theorem Caught.step (caught : Caught admin me sent s m) (rising : Rising sent) {act : Act ι}
    (ready : s.Ready me sent act) (step : s.Step admin me sent act s') :
    ∃ m', Caught admin me sent s' m' := by
  obtain rfl := step
  unfold Taking.next
  split
  · rename_i f found
    split_ifs with untaken
    · exact ⟨m, caught⟩
    · by_cases idle : f.Idle s.phone
      · exact ⟨m, caught.takeIdle rising found idle act.seating⟩
      · obtain ⟨knows, order⟩ := (ready untaken f found).resolve_left idle
        have after : m ≤ act.index := by
          by_contra before
          exact idle (caught.late act.index (not_le.mp before) untaken f found)
        rw [take_of_knows knows]
        exact ⟨act.index + 1, caught.takeNext rising after found order⟩
  · exact ⟨m, caught⟩

/-- Once all were taken the phone holds what they give in the order they were sent. -/
theorem Caught.same_of_all (caught : Caught admin me sent s m)
    (all : ∀ i < sent.length, i ∈ s.taken) : Same s.phone (asOf admin me sent) := by
  have whole : asOf admin me sent =
      (sent.drop m).foldl (take admin me {}) (asOf admin me (sent.take m)) := by
    rw [← asOf_append, take_append_drop]
  rw [whole]
  refine caught.phone.trans (same_foldl_renames (fun f inside => ?_) _).symm
  obtain ⟨j, atJ⟩ := mem_iff_getElem?.mp inside
  rw [getElem?_drop] at atJ
  have bound : m + j < sent.length := (List.getElem?_eq_some_iff.mp atJ).1
  exact caught.early (m + j) (all _ bound) (Nat.le_add_right _ _) f atJ

end Order

/-! ## In order -/

section History

variable {a : Admin ι} {o : Option (Admin ι)} {op : Op ι} {ops : List (Op ι)} {p : Phone ι}

def Op.Fair (admin : ι) : Op ι → Prop
  | .remove ids => admin ∉ ids
  | _ => True

/-- The admin is on their own list, which fits. -/
structure Admin.Sound (admin : ι) (a : Admin ι) : Prop where
  here : admin ∈ a.members
  fits : a.members.toFinset.card ≤ 50
  stamp : 0 < a.stamp

theorem toFinset_dedup (l : List ι) : l.dedup.toFinset = l.toFinset := by
  ext h
  simp

theorem lt_nextRosterStamp (held now : Int) : held < nextRosterStamp held now := by
  unfold nextRosterStamp
  omega

theorem Admin.Sound.next (sound : ∀ a ∈ o, Admin.Sound admin a) (fair : op.Fair admin) :
    ∀ a ∈ Admin.next admin o op, Admin.Sound admin a := by
  intro a' isNext
  cases o with
  | none =>
    cases op with
    | create name members now =>
      simp only [Admin.next] at isNext
      split_ifs at isNext with fits
      · obtain rfl := Option.some.inj isNext
        refine ⟨by simp, ?_, lt_nextRosterStamp 0 now⟩
        rw [toFinset_dedup]
        exact (toFinset_card_le _).trans fits
      · exact nomatch isNext
    | _ => exact nomatch isNext
  | some a =>
    have sound := sound a rfl
    cases op with
    | create name members now | message =>
      obtain rfl := Option.some.inj isNext
      exact sound
    | add members now =>
      simp only [Admin.next] at isNext
      split_ifs at isNext with fits
      · obtain rfl := Option.some.inj isNext
        refine ⟨mem_union_left sound.here _, ?_, ?_⟩
        · rw [toFinset_union]
          refine (Finset.card_union_le _ _).trans (le_trans ?_ fits)
          exact Nat.add_le_add (toFinset_card_le _) (toFinset_card_le _)
        · exact sound.stamp.trans (lt_nextRosterStamp a.stamp now)
      · obtain rfl := Option.some.inj isNext
        exact sound
    | remove members =>
      obtain rfl := Option.some.inj isNext
      have stays : admin ∉ members := fair
      refine ⟨mem_filter.mpr ⟨sound.here, by simpa using stays⟩, ?_, sound.stamp⟩
      refine (Finset.card_le_card ?_).trans sound.fits
      intro h inside
      simp only [mem_toFinset] at inside ⊢
      exact mem_of_mem_filter inside
    | rename name =>
      obtain rfl := Option.some.inj isNext
      exact ⟨sound.here, sound.fits, sound.stamp⟩

/-- The phone holds the admin's list if it is on it, and no group otherwise. -/
inductive Agrees (me : ι) : Option (Admin ι) → Phone ι → Prop
  | on {a : Admin ι} {g : Group ι} (inside : me ∈ a.members)
      (members : g.members = a.members.toFinset) (stamp : g.stamp ≤ a.stamp) :
      Agrees me (some a) (some g)
  | off {o : Option (Admin ι)} (outside : ∀ a ∈ o, me ∉ a.members) : Agrees me o none

theorem Agrees.of_mem (agrees : Agrees me (some a) p) (member : me ∈ a.members) :
    ∃ g, p = some g ∧ g.members = a.members.toFinset := by
  cases agrees with
  | on inside members => exact ⟨_, rfl, members⟩
  | off outside => exact absurd member (outside a rfl)

theorem Agrees.next (other : me ≠ admin) (sound : ∀ a ∈ o, Admin.Sound admin a)
    (fair : op.Fair admin) (agrees : Agrees me o p) :
    Agrees me (Admin.next admin o op) ((Admin.sends admin me o op).foldl (take admin me {}) p) := by
  have sound' := Admin.Sound.next sound fair
  cases agrees with
  | @on a g inside members stamp =>
    have sound := sound a rfl
    have adminHere : admin ∈ g.members := by simpa [members] using sound.here
    cases op with
    | create name ids now => exact .on inside members stamp
    | add ids now =>
      simp only [Admin.next, Admin.sends] at sound' ⊢
      by_cases fits : a.members.length + ids.length ≤ kGroupMemberCap
      · rw [if_pos fits] at sound' ⊢
        have union : g.members ∪ ids.toFinset = (a.members ∪ ids).toFinset := by
          rw [members, toFinset_union]
        have card : (g.members ∪ ids.toFinset).card ≤ 50 := union ▸ (sound' _ rfl).fits
        have newer : g.stamp < nextRosterStamp a.stamp now :=
          stamp.trans_lt (lt_nextRosterStamp a.stamp now)
        rw [if_pos ⟨fits, other⟩, if_pos inside, foldl_append, foldl_cons, take_add card]
        split_ifs
        · rw [foldl_cons, take_create (sound' _ rfl).fits newer]
          exact .on (mem_union_left inside _) rfl le_rfl
        · exact .on (mem_union_left inside _) union newer.le
      · rw [if_neg fits, if_neg fun both => fits both.1]
        exact .on inside members stamp
    | remove ids =>
      simp only [Admin.sends]
      rw [if_pos ⟨other, inside⟩, foldl_cons, take_remove adminHere]
      split_ifs with named
      · exact .off (by simp [Admin.next, named])
      · refine .on (by simp [inside, named]) ?_ stamp
        ext h
        simp [members]
    | rename name =>
      simp only [Admin.sends]
      rw [if_pos ⟨other, inside⟩, foldl_cons]
      simp only [take, if_pos adminHere]
      exact .on inside members stamp
    | message =>
      simp only [Admin.sends]
      rw [if_pos ⟨other, inside⟩, foldl_cons, take_message adminHere sound.here inside sound.fits]
      exact .on inside rfl stamp
  | off outside =>
    cases o with
    | none =>
      cases op with
      | create name members now =>
        simp only [Admin.next, Admin.sends]
        by_cases fits : (admin :: members).length ≤ kGroupMemberCap
        · rw [if_pos fits]
          by_cases named : me ∈ members
          · rw [if_pos ⟨fits, other, named⟩, foldl_cons, take_create
              ((toFinset_card_le _).trans fits) (lt_nextRosterStamp 0 now)]
            exact .on (by simp [named]) (toFinset_dedup _).symm le_rfl
          · rw [if_neg fun both => named both.2.2]
            exact .off (by simp [named, other])
        · rw [if_neg fits, if_neg fun both => fits both.1]
          exact .off outside
      | _ => exact .off outside
    | some a =>
      have inside : me ∉ a.members := outside a rfl
      cases op with
      | add ids now =>
        simp only [Admin.next, Admin.sends] at sound' ⊢
        by_cases fits : a.members.length + ids.length ≤ kGroupMemberCap
        · rw [if_pos fits] at sound' ⊢
          have newer : 0 < nextRosterStamp a.stamp now :=
            (sound a rfl).stamp.trans (lt_nextRosterStamp a.stamp now)
          rw [if_pos ⟨fits, other⟩, if_neg inside, nil_append]
          split_ifs with named
          · rw [foldl_cons, take_create (sound' _ rfl).fits newer]
            exact .on (mem_union_right _ named) rfl le_rfl
          · exact .off (by simp [inside, named])
        · rw [if_neg fits, if_neg fun both => fits both.1]
          exact .off outside
      | _ =>
        simp only [Admin.sends, inside, and_false, if_false]
        exact .off (by simp [Admin.next, inside])

theorem Agrees.history (other : me ≠ admin) (sound : ∀ a ∈ o, Admin.Sound admin a)
    (fair : ∀ op ∈ ops, op.Fair admin) (agrees : Agrees me o p) :
    Agrees me (ops.foldl (Admin.next admin) o)
      ((Admin.sent admin me o ops).foldl (take admin me {}) p) := by
  induction ops generalizing o p with
  | nil => exact agrees
  | cons op ops ih =>
    have fairOp := fair op mem_cons_self
    rw [Admin.sent, foldl_append]
    exact ih (Admin.Sound.next sound fairOp)
      (fun op inside => fair op (mem_cons_of_mem _ inside))
      (agrees.next other sound fairOp)

variable (o : Option (Admin ι))

def Admin.held : Int := (o.map Admin.stamp).getD 0

theorem Admin.held_le_next (op : Op ι) : Admin.held o ≤ Admin.held (Admin.next admin o op) := by
  cases o with
  | none =>
    cases op with
    | create name ids now =>
      simp only [Admin.next]
      split_ifs
      · exact (lt_nextRosterStamp 0 now).le
      · exact le_rfl
    | _ => exact le_rfl
  | some a =>
    cases op with
    | add ids now =>
      simp only [Admin.next]
      split_ifs
      · exact (lt_nextRosterStamp a.stamp now).le
      · exact le_rfl
    | _ => exact le_rfl

/-- Frames with one list in a control at most, that has the stamp it was given. -/
structure Sends (held next : Int) (fs : List (Frame ι)) : Prop where
  one : fs.Pairwise fun f _ => f.stamp? = none
  each : ∀ f ∈ fs, f.Stamped ∧ ∀ t ∈ f.stamp?, held < t ∧ t = next

variable {held next : Int} {fs : List (Frame ι)}

omit [DecidableEq ι] in
theorem Sends.nil : Sends held next ([] : List (Frame ι)) := ⟨.nil, nofun⟩

omit [DecidableEq ι] in
theorem Sends.ite {c : Prop} [Decidable c] (sends : c → Sends held next fs) :
    Sends held next (if c then fs else []) := by
  split_ifs with isC
  · exact sends isC
  · exact .nil

omit [DecidableEq ι] in
theorem Sends.create (newer : held < next) (name : Text) (ids : List ι) :
    Sends held next [.create name ids (some next)] := by
  refine ⟨pairwise_singleton _ _, fun f inside => ?_⟩
  rw [mem_singleton.mp inside]
  refine ⟨rfl, fun t isStamp => ?_⟩
  rw [← Option.some.inj isStamp]
  exact ⟨newer, rfl⟩

omit [DecidableEq ι] in
theorem Sends.cons {f : Frame ι} (none : f.stamp? = none) (stamped : f.Stamped)
    (sends : Sends held next fs) : Sends held next (f :: fs) where
  one := pairwise_cons.mpr ⟨fun _ _ => none, sends.one⟩
  each := forall_mem_cons.mpr ⟨⟨stamped, by simp [none]⟩, sends.each⟩

theorem Admin.sends_stamps (op : Op ι) :
    Sends (Admin.held o) (Admin.held (Admin.next admin o op)) (Admin.sends admin me o op) := by
  cases o with
  | none =>
    cases op with
    | create name ids now =>
      refine .ite fun both => ?_
      simp only [Admin.next, if_pos both.1]
      exact .create (lt_nextRosterStamp 0 now) _ _
    | _ => exact .nil
  | some a =>
    cases op with
    | create name ids now => exact .nil
    | remove ids | rename name | message => exact .ite fun _ => .cons rfl trivial .nil
    | add ids now =>
      refine .ite fun both => ?_
      simp only [Admin.next, if_pos both.1]
      have list := Sends.create (lt_nextRosterStamp a.stamp now) a.name (a.members ∪ ids)
      split_ifs
      · exact .cons rfl trivial list
      · exact .cons rfl trivial .nil
      · exact list
      · exact .nil

/-- The lists a history sends in controls have rising stamps. -/
theorem Admin.rising_sent (ops : List (Op ι)) :
    Rising (Admin.sent admin me o ops) ∧
      ∀ f ∈ Admin.sent admin me o ops, ∀ t ∈ f.stamp?, Admin.held o < t := by
  induction ops generalizing o with
  | nil => exact ⟨⟨fun f none => (nomatch none), .nil⟩, fun f none => nomatch none⟩
  | cons op ops ih =>
    obtain ⟨rest, above⟩ := ih (Admin.next admin o op)
    obtain ⟨pairs, each⟩ := @Admin.sends_stamps ι _ admin me o op
    refine ⟨⟨fun f inside => ?_, pairwise_append.mpr ⟨?_, rest.rising, ?_⟩⟩, ?_⟩
    · obtain now | later := mem_append.mp inside
      · exact (each f now).1
      · exact rest.stamped f later
    · refine pairs.imp fun {f f'} none t isStamp => ?_
      rw [none] at isStamp
      exact nomatch isStamp
    · intro f now f' later t isStamp t' isStamp'
      rw [((each f now).2 t isStamp).2]
      exact above f' later t' isStamp'
    · intro f inside t isStamp
      obtain now | later := mem_append.mp inside
      · exact ((each f now).2 t isStamp).1
      · exact (Admin.held_le_next o op).trans_lt (above f later t isStamp)

end History

/-- In every run in which a phone takes the frames it was sent in their order, but for those
that change no list by then, and knows the people they name as the admin does, of a history in
which the admin is not taken out: once it has taken them all and is a member, its member list
is the admin's. -/
theorem members_of_run (other : me ≠ admin) {ops : List (Op ι)}
    (fair : ∀ op ∈ ops, op.Fair admin) {a : Admin ι} (made : Admin.after admin ops = some a)
    (member : me ∈ a.members) {s : Taking ι}
    (run : Run (Taking.Step admin me (Admin.sent admin me none ops))
      (Taking.Ready me (Admin.sent admin me none ops)) {} s)
    (all : ∀ i < (Admin.sent admin me none ops).length, i ∈ s.taken) :
    ∃ g, s.phone = some g ∧ ∀ h, h ∈ g.members ↔ h ∈ a.members := by
  have rising : Rising (Admin.sent admin me none ops) := (Admin.rising_sent none ops).1
  have caught : ∃ m, Caught admin me (Admin.sent admin me none ops) s m := by
    refine run.invariant (fun s => ∃ m, Caught admin me (Admin.sent admin me none ops) s m)
      ⟨0, .start⟩ ?_
    rintro s s' act ⟨m, caught⟩ ready step
    exact caught.step rising ready step
  obtain ⟨m, caught⟩ := caught
  have start : Agrees me (none : Option (Admin ι)) none := .off fun a none => nomatch none
  have noGroup : ∀ a ∈ (none : Option (Admin ι)), Admin.Sound admin a := fun a none => nomatch none
  have agrees := start.history other noGroup fair
  rw [← Admin.after, made] at agrees
  obtain ⟨g, inOrder, members⟩ := agrees.of_mem member
  obtain ⟨-, none⟩ | ⟨g', g'', isPhone, isInOrder, sameMembers, -⟩ := (caught.same_of_all all).cases
  · exact nomatch none.symm.trans inOrder
  · refine ⟨g', isPhone, fun h => ?_⟩
    obtain rfl : g'' = g := Option.some.inj (isInOrder.symm.trans inOrder)
    rw [sameMembers, members, mem_toFinset]

/-- The admin makes a group of two, adds a third and takes them out again. -/
def addedAndRemoved : List (Op Nat) := [.create [] [1] 0, .add [2] 0, .remove [2]]

def takenAs (order : List Nat) : Taking Nat :=
  (order.map fun i => ⟨i, {}⟩).foldl (Taking.next 0 1 (Admin.sent 0 1 none addedAndRemoved)) {}

theorem members_of_run_inOrder : ∃ g, (takenAs [0, 1, 2]).phone = some g ∧
    ∀ h, h ∈ g.members ↔ h ∈ [0, 1] := by
  have ready : ∀ (s : Taking Nat) (i : Nat), (∀ j < i, j ∈ s.taken) →
      s.Ready 1 (Admin.sent 0 1 none addedAndRemoved) ⟨i, {}⟩ := fun s i all _ frame _ =>
    .inr ⟨Seating.knows_default _, fun j before untaken => absurd (all j before) untaken⟩
  have run : Run (Taking.Step 0 1 (Admin.sent 0 1 none addedAndRemoved))
      (Taking.Ready 1 (Admin.sent 0 1 none addedAndRemoved)) {} (takenAs [0, 1, 2]) :=
    Run.of_allowed _ _ ⟨ready _ 0 (by decide), ready _ 1 (by decide), ready _ 2 (by decide), trivial⟩
  have fair : ∀ op ∈ addedAndRemoved, op.Fair 0 := by simp [addedAndRemoved, Op.Fair]
  have made : Admin.after 0 addedAndRemoved = some ⟨[], [0, 1], 2⟩ := rfl
  exact members_of_run (by decide) fair made (by decide) run (by decide)

/-- Taken with the remove before the add, the one taken out is on the list. -/
theorem removeBeforeAdd_left :
    Run (Taking.Step 0 1 (Admin.sent 0 1 none addedAndRemoved))
        (fun _ act => ∀ frame, act.seating.Knows frame) {} (takenAs [0, 2, 1]) ∧
      (∀ i < (Admin.sent 0 1 none addedAndRemoved).length, i ∈ (takenAs [0, 2, 1]).taken) ∧
      (∃ a ∈ Admin.after 0 addedAndRemoved, 1 ∈ a.members ∧ 2 ∉ a.members) ∧
      ∃ g ∈ (takenAs [0, 2, 1]).phone, 2 ∈ g.members := by
  have knows := fun frame : Frame Nat => Seating.knows_default frame
  refine ⟨Run.of_allowed _ _ ⟨knows, knows, knows, trivial⟩, by decide,
    ⟨⟨[], [0, 1], 2⟩, rfl, by decide, by decide⟩, ⟨⟨[], {0, 1, 2}, 1⟩, rfl, by decide⟩⟩

end Kryfo.Roster
