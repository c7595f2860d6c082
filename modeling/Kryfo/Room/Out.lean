import Kryfo.Library.Run
import Kryfo.Room.Frames

/-!
# Out of a room is out

Once a key is out of a room its frames change nothing here, but for the messages that every remove
of it listed, each filed once.  This needs a slice with which a file is filed to carry the file's
id as its message id.
-/

namespace Kryfo.Rooms

open List

open Library (Run Allowed)

variable {κ υ ε β δ μ : Type}
variable {cfg : Config κ υ ε β δ μ} {a : Answer υ} {key k : κ} {u : υ}
variable {s s' : Room κ υ ε β δ} {frame : Frame κ υ β δ μ} {ids : List κ} {late : κ → List (υ × β)}

/-- A slice with which a file of a key is filed carries the file's id as its message id. -/
def Named (key : κ) (s s' : Room κ υ ε β δ) : Act κ υ β δ μ → Prop
  | .frame _ k (.slice x _) => k = key → s'.filed ≠ s.filed → x.uid.isSome
  | _ => True

def Frame.IsData : Frame κ υ β δ μ → Prop
  | .text _ _ _ | .slice _ _ => True
  | _ => False

/-! ## What is known of a key -/

/-- A key that is out is no member; it is owed no more than every remove listed, and nothing once
its lane stopped; and a message of it that was filed is known. -/
structure Room.Sound (cfg : Config κ υ ε β δ μ) (key : κ) (s : Room κ υ ε β δ) : Prop where
  noted : s.listed key ≠ [] → key ∈ s.gone
  apart : key ∈ s.gone → key ∉ s.members
  unlisted : s.listed key = [] → (s.keys key).lane = .heard ∧ (s.keys key).owed = []
  going : s.listed key ≠ [] → (s.keys key).lane ≠ .heard
  owed : ∀ h ∈ (s.keys key).owed, ∀ l ∈ s.listed key, h ∈ l.map fun m => cfg.entry m.1 m.2
  stopped : (s.keys key).lane = .stopped → (s.keys key).owed = []
  known : ∀ m ∈ s.filed, m.key = key → ∀ u, m.uid = some u →
    (∃ m' ∈ s.rows, m'.key = key ∧ m'.uid = some u) ∨ (key, u) ∈ s.goneIn

/-- Two rooms that hold the same of a key's place and of the messages. -/
structure Room.Alike (key : κ) (s s' : Room κ υ ε β δ) : Prop where
  members : s'.members = s.members
  gone : s'.gone = s.gone
  listed : s'.listed = s.listed
  owed : (s'.keys key).owed = (s.keys key).owed
  lane : (s'.keys key).lane = (s.keys key).lane
  rows : s'.rows = s.rows
  goneIn : s'.goneIn = s.goneIn
  filed : s'.filed = s.filed

namespace Room

/-- Nothing is filed, and nobody is put out. -/
def Still (s s' : Room κ υ ε β δ) : Prop := s'.filed = s.filed ∧ s'.listed = s.listed

theorem Alike.refl (s : Room κ υ ε β δ) : Alike key s s := ⟨rfl, rfl, rfl, rfl, rfl, rfl, rfl, rfl⟩

theorem Sound.alike (sound : s.Sound cfg key) (alike : Alike key s s') : s'.Sound cfg key := by
  constructor <;>
    simp only [alike.members, alike.gone, alike.listed, alike.owed, alike.lane, alike.rows,
      alike.goneIn, alike.filed]
  exacts [sound.noted, sound.apart, sound.unlisted, sound.going, sound.owed, sound.stopped,
    sound.known]

theorem Sound.joined (members : List κ) : (joined members).Sound cfg key where
  noted some := absurd rfl some
  apart inside := absurd inside not_mem_nil
  unlisted _ := ⟨rfl, rfl⟩
  going some := absurd rfl some
  owed _ inside := absurd inside not_mem_nil
  stopped _ := rfl
  known _ inside := absurd inside not_mem_nil

theorem Sound.notMember (sound : s.Sound cfg key) (out : s.listed key ≠ []) :
    key ∉ s.members :=
  sound.apart (sound.noted out)

theorem Sound.save (sound : s.Sound cfg key) (m : Message κ υ β) :
    (s.save m).Sound cfg key := by
  refine ⟨sound.noted, sound.apart, sound.unlisted, sound.going, sound.owed, sound.stopped,
    fun m' inside own u named => ?_⟩
  obtain before | new := mem_append.mp inside
  · obtain ⟨m'', here, is⟩ | gone := sound.known m' before own u named
    · exact .inl ⟨m'', mem_append_left _ here, is⟩
    · exact .inr gone
  · obtain rfl := mem_singleton.mp new
    exact .inl ⟨m', mem_append_right _ (mem_singleton.mpr rfl), own, named⟩

theorem has_iff [DecidableEq υ] : s.has u = true ↔ ∃ m ∈ s.rows, m.uid = some u := by
  simp only [has, any_eq_true, decide_eq_true_eq]

/-- A message that is neither here nor known as gone was not filed. -/
theorem Sound.not_filed [DecidableEq υ] (sound : s.Sound cfg key) (absent : s.has u = false)
    (kept : (key, u) ∉ s.goneIn) : ∀ m ∈ s.filed, m.key = key → m.uid ≠ some u := by
  intro m inside own named
  obtain ⟨m', here, -, named'⟩ | gone := sound.known m inside own u named
  · have present : s.has u = true := has_iff.mpr ⟨m', here, named'⟩
    rw [absent] at present
    exact Bool.false_ne_true present
  · exact kept gone

/-! ## Steps on one key -/

variable [DecidableEq κ]

theorem keys_setKey (f : KeyRow ε → KeyRow ε) :
    (s.setKey k f).keys key = if key = k then f (s.keys k) else s.keys key := by
  simp only [setKey, Function.update_apply]

theorem alike_setKey_note [DecidableEq ε] (h : ε) : Alike key s (s.setKey k (KeyRow.note h)) := by
  refine ⟨rfl, rfl, rfl, ?_, ?_, rfl, rfl, rfl⟩ <;>
  · rw [keys_setKey]
    split_ifs with same
    · rw [same]
      rfl
    · rfl

theorem alike_setKey_of_ne (other : k ≠ key) (f : KeyRow ε → KeyRow ε) :
    Alike key s (s.setKey k f) := by
  have row : (s.setKey k f).keys key = s.keys key := by rw [keys_setKey, if_neg other.symm]
  exact ⟨rfl, rfl, rfl, congrArg KeyRow.owed row, congrArg KeyRow.lane row, rfl, rfl, rfl⟩

theorem Sound.setKey (sound : s.Sound cfg key) (out : s.listed key ≠ [])
    {f : KeyRow ε → KeyRow ε} (lane : (f (s.keys key)).lane ≠ .heard)
    (owed : (f (s.keys key)).owed ⊆ (s.keys key).owed)
    (stopped : (f (s.keys key)).lane = .stopped → (f (s.keys key)).owed = []) :
    (s.setKey key f).Sound cfg key := by
  have row : (s.setKey key f).keys key = f (s.keys key) := by rw [keys_setKey, if_pos rfl]
  refine ⟨sound.noted, sound.apart, fun none => absurd none out, fun _ => ?_, fun h inside => ?_,
    fun isOver => ?_, sound.known⟩
  · rw [row]
    exact lane
  · rw [row] at inside
    exact sound.owed h (owed inside)
  · rw [row] at isOver ⊢
    exact stopped isOver

theorem Sound.unlistenNow (sound : s.Sound cfg key) (out : k = key → s.listed key ≠ []) :
    (s.unlistenNow cfg k).Sound cfg key := by
  unfold Room.unlistenNow
  split_ifs
  · exact sound
  · by_cases same : k = key
    · subst same
      exact sound.setKey (out rfl) Lane.noConfusion (nil_subset _) fun _ => rfl
    · exact sound.alike (alike_setKey_of_ne same _)

theorem still_unlistenNow : s.Still (s.unlistenNow cfg k) := by
  unfold Room.unlistenNow
  split_ifs <;> exact ⟨rfl, rfl⟩

theorem Sound.unlistenAll (sound : s.Sound cfg key) {out : List κ}
    (listed : ∀ k ∈ out, s.listed k ≠ []) :
    (out.foldl (fun s k => s.unlistenNow cfg k) s).Sound cfg key := by
  induction out generalizing s with
  | nil => exact sound
  | cons k out ih =>
    refine ih (sound.unlistenNow fun same => same ▸ listed k mem_cons_self) fun k' inside => ?_
    rw [still_unlistenNow.2]
    exact listed k' (mem_cons_of_mem _ inside)

theorem still_unlistenAll (out : List κ) :
    s.Still (out.foldl (fun s k => s.unlistenNow cfg k) s) := by
  induction out generalizing s with
  | nil => exact ⟨rfl, rfl⟩
  | cons k out ih => exact ⟨ih.1.trans still_unlistenNow.1, ih.2.trans still_unlistenNow.2⟩

theorem Sound.unlistenGone (sound : s.Sound cfg key) {out : List κ}
    (listed : ∀ k ∈ out, s.listed k ≠ []) : (s.unlistenGone cfg out).Sound cfg key :=
  sound.unlistenAll fun k inside => listed k (mem_filter.mp inside).1

/-! ## Controls -/

theorem Sound.takeCreate (sound : s.Sound cfg key) (ids : List κ) (stamp : Option Int) :
    (s.takeCreate cfg ids stamp).Sound cfg key := by
  unfold Room.takeCreate
  dsimp only
  split_ifs
  · exact sound
  · split
    · exact sound
    · refine ⟨sound.noted, fun gone inside => ?_, sound.unlisted, sound.going, sound.owed,
        sound.stopped, sound.known⟩
      exact of_decide_eq_true (mem_filter.mp inside).2 gone

theorem still_takeCreate (ids : List κ) (stamp : Option Int) :
    s.Still (s.takeCreate cfg ids stamp) := by
  unfold Room.takeCreate
  dsimp only
  split_ifs
  · exact ⟨rfl, rfl⟩
  · split <;> exact ⟨rfl, rfl⟩

theorem takeRoster_of_made {roster : Option (List κ)}
    (made : k = cfg.creator → roster = none) : s.takeRoster cfg k roster = s := by
  unfold takeRoster
  split
  · rfl
  · refine if_neg fun own => ?_
    have := made own.1
    contradiction

section Out

variable [DecidableEq ε]

theorem owed_keyOut {row : KeyRow ε} {listed : List ε} {h : ε}
    (inside : h ∈ (row.keyOut listed).owed) :
    h ∈ listed ∧ (row.lane = .heard ∨ h ∈ row.owed) := by
  obtain ⟨mem, kept⟩ := mem_filter.mp inside
  exact ⟨mem, (of_decide_eq_true kept).2⟩

theorem Sound.keyOut (sound : s.Sound cfg key) (listed : List (υ × β)) :
    (s.keyOut cfg k listed).Sound cfg key := by
  by_cases same : key = k
  · subst same
    have row : (s.keyOut cfg key listed).keys key =
        (s.keys key).keyOut (listed.map fun m => cfg.entry m.1 m.2) :=
      Function.update_self ..
    have lists : (s.keyOut cfg key listed).listed key = listed :: s.listed key :=
      Function.update_self ..
    refine ⟨fun _ => ?_, fun _ inside => ?_, fun none => ?_, fun _ => ?_, fun h inside l => ?_,
      fun isOver => ?_, sound.known⟩
    · exact mem_append_right _ (mem_singleton.mpr rfl)
    · exact of_decide_eq_true (mem_filter.mp inside).2 rfl
    · rw [lists] at none
      exact absurd none (cons_ne_nil _ _)
    · rw [row]
      unfold KeyRow.keyOut
      split_ifs <;> exact Lane.noConfusion
    · rw [row] at inside
      rw [lists]
      intro mem
      obtain ⟨here, before⟩ := owed_keyOut inside
      obtain rfl | older := mem_cons.mp mem
      · exact here
      · refine sound.owed h (before.resolve_left ?_) l older
        exact sound.going (ne_nil_of_mem older)
    · rw [row] at isOver ⊢
      have was : (s.keys key).lane = .stopped := by
        unfold KeyRow.keyOut at isOver
        split_ifs at isOver with was
        exact was
      have none : (s.keys key).owed = [] := sound.stopped was
      refine eq_nil_iff_forall_not_mem.mpr fun h inside => ?_
      obtain heard | owed := (owed_keyOut inside).2
      · rw [was] at heard
        exact Lane.noConfusion heard
      · rw [none] at owed
        exact not_mem_nil owed
  · have row : (s.keyOut cfg k listed).keys key = s.keys key := Function.update_of_ne same ..
    have lists : (s.keyOut cfg k listed).listed key = s.listed key :=
      Function.update_of_ne same ..
    refine ⟨fun out => ?_, fun inside member => ?_, ?_, ?_, ?_, ?_, sound.known⟩
    · rw [lists] at out
      exact mem_append_left _ (sound.noted out)
    · obtain gone | new := mem_append.mp inside
      · exact sound.apart gone (mem_filter.mp member).1
      · exact same (mem_singleton.mp new)
    · rw [lists, row]
      exact sound.unlisted
    · rw [lists, row]
      exact sound.going
    · rw [lists, row]
      exact sound.owed
    · rw [row]
      exact sound.stopped

theorem listed_keyOut (listed : List (υ × β)) (was : s.listed key ≠ [] ∨ key = k) :
    (s.keyOut cfg k listed).listed key ≠ [] := by
  change Function.update s.listed k (listed :: s.listed k) key ≠ []
  rw [Function.update_apply]
  split_ifs with same
  · exact cons_ne_nil _ _
  · exact was.resolve_right same

theorem Sound.keyOutAll (sound : s.Sound cfg key) (late : κ → List (υ × β)) (ids : List κ) :
    (ids.foldl (fun s k => s.keyOut cfg k (late k)) s).Sound cfg key := by
  induction ids generalizing s with
  | nil => exact sound
  | cons k ids ih => exact ih (sound.keyOut (late k))

theorem listed_keyOutAll (late : κ → List (υ × β)) (was : s.listed key ≠ [] ∨ key ∈ ids) :
    (ids.foldl (fun s k => s.keyOut cfg k (late k)) s).listed key ≠ [] := by
  induction ids generalizing s with
  | nil => exact was.resolve_right not_mem_nil
  | cons k ids ih =>
    refine ih ?_
    obtain out | inside := was
    · exact .inl (listed_keyOut (late k) (.inl out))
    · obtain same | later := mem_cons.mp inside
      · exact .inl (listed_keyOut (late k) (.inr same))
      · exact .inr later

theorem filed_keyOutAll (late : κ → List (υ × β)) (ids : List κ) :
    (ids.foldl (fun s k => s.keyOut cfg k (late k)) s).filed = s.filed := by
  induction ids generalizing s with
  | nil => rfl
  | cons k ids ih => exact ih

/-- What a remove and a leave do: each of the keys is out, with what was listed of it. -/
def putOut (cfg : Config κ υ ε β δ μ) (ids : List κ) (late : κ → List (υ × β))
    (s : Room κ υ ε β δ) : Room κ υ ε β δ :=
  (ids.foldl (fun s k => s.keyOut cfg k (late k)) s).unlistenGone cfg ids

theorem Sound.putOut (sound : s.Sound cfg key) : (s.putOut cfg ids late).Sound cfg key :=
  (sound.keyOutAll late ids).unlistenGone fun _ inside => listed_keyOutAll late (.inr inside)

theorem filed_putOut : (s.putOut cfg ids late).filed = s.filed :=
  (still_unlistenAll _).1.trans (filed_keyOutAll late ids)

theorem listed_putOut (out : s.listed key ≠ []) : (s.putOut cfg ids late).listed key ≠ [] := by
  unfold putOut Room.unlistenGone
  rw [(still_unlistenAll _).2]
  exact listed_keyOutAll late (.inl out)

theorem Sound.noteEntry (sound : s.Sound cfg key) :
    (s.noteEntry cfg k frame).Sound cfg key := by
  unfold Room.noteEntry
  split
  · exact sound.alike (alike_setKey_note _)
  · exact sound

theorem still_noteEntry : s.Still (s.noteEntry cfg k frame) := by
  unfold Room.noteEntry
  split <;> exact ⟨rfl, rfl⟩

end Out

/-! ## Messages -/

variable [DecidableEq υ]

theorem Sound.takeUnsend (sound : s.Sound cfg key) : (s.takeUnsend k u).Sound cfg key := by
  unfold Room.takeUnsend
  by_cases others : s.has u = true ∧ ¬ (s.rows.any fun m => m.uid = some u ∧ m.key = k) = true
  · rw [if_pos others]
    exact sound
  · rw [if_neg others]
    refine ⟨sound.noted, sound.apart, sound.unlisted, sound.going, sound.owed, sound.stopped,
      fun m inside own u' named => ?_⟩
    obtain ⟨m', here, own', named'⟩ | gone := sound.known m inside own u' named
    · by_cases same : u' = u
      · subst same
        refine .inr (mem_append_right _ (mem_map.mpr ⟨m', ?_, by rw [own']⟩))
        exact mem_filter.mpr ⟨here, decide_eq_true named'⟩
      · refine .inl ⟨m', mem_filter.mpr ⟨here, decide_eq_true fun is => same ?_⟩, own', named'⟩
        exact Option.some.inj (named'.symm.trans is)
    · exact .inr (mem_append_left _ (mem_append_left _ gone))

theorem still_takeUnsend : s.Still (s.takeUnsend k u) := by
  unfold Room.takeUnsend
  split_ifs <;> exact ⟨rfl, rfl⟩

/-- No message by this id of this key is here, nor went. -/
def New (k : κ) (u : υ) (s : Room κ υ ε β δ) : Prop := s.has u = false ∧ (k, u) ∉ s.goneIn

theorem fileText_cases (s : Room κ υ ε β δ) (a : Answer υ) (k : κ) (uid : Option υ) (body : β) :
    s.fileText a k uid body = s ∨
      s.fileText a k uid body = s.save ⟨k, uid, body⟩ ∧ ∀ u ∈ uid, s.New k u := by
  unfold fileText
  split_ifs with dropped
  · exact .inl rfl
  · refine .inr ⟨rfl, fun u named => ?_⟩
    obtain rfl := Option.mem_def.mp named
    have fresh := (not_or.mp dropped).2
    simp only [Option.any_some, decide_eq_true_eq, not_or, Bool.not_eq_true] at fresh
    exact fresh

theorem fileSlices_cases [DecidableEq ε] (s : Room κ υ ε β δ) (key : κ) (x : Slice υ δ μ) (late : Bool) :
    Alike key s (s.fileSlices cfg a k x late) ∨
      ∃ body, Alike key (s.save ⟨k, x.uid, body⟩) (s.fileSlices cfg a k x late) ∧
        (k ∈ s.members ∨ cfg.entry x.mid body ∈ (s.keys k).owed) := by
  unfold fileSlices
  set body := cfg.fileBody x.total (s.sliceData x.mid x.total) x.info
  have noted : Alike key s
      (if k ∈ s.members then s.setKey k (KeyRow.note (cfg.entry x.mid body)) else s) := by
    split_ifs
    · exact alike_setKey_note _
    · exact .refl s
  by_cases dropped : a.thumbnail = true ∨
      ¬ (k ∈ s.members ∨ late = true ∧ cfg.entry x.mid body ∈ (s.keys k).owed)
  · rw [if_pos dropped]
    obtain ⟨h₁, h₂, h₃, h₄, h₅, h₆, h₇, h₈⟩ := noted
    exact .inl ⟨h₁, h₂, h₃, h₄, h₅, h₆, h₇, h₈⟩
  · rw [if_neg dropped]
    obtain ⟨h₁, h₂, h₃, h₄, h₅, h₆, h₇, h₈⟩ := noted
    refine .inr ⟨body, ⟨h₁, h₂, h₃, h₄, h₅, ?_, h₇, ?_⟩, ?_⟩
    · exact congrArg (· ++ _) h₆
    · exact congrArg (· ++ _) h₈
    · exact (not_not.mp (not_or.mp dropped).2).imp_right And.right

theorem takeSlice_cases [DecidableEq ε] (cfg : Config κ υ ε β δ μ) (s : Room κ υ ε β δ) (a : Answer υ)
    (k key : κ) (x : Slice υ δ μ) (late : Bool) :
    Alike key s (s.takeSlice cfg a k x late) ∨
      ∃ body, Alike key (s.save ⟨k, x.uid, body⟩) (s.takeSlice cfg a k x late) ∧
        (∀ u ∈ x.uid, u = x.mid) ∧ s.New k x.mid ∧
        (k ∈ s.members ∨ cfg.entry x.mid body ∈ (s.keys k).owed) := by
  unfold takeSlice
  by_cases refused : a.ends = true ∨ (x.uid.any (· ≠ x.mid)) = true ∨ kMaxSlices < x.total ∨
      x.idx < 0 ∨ x.total ≤ x.idx ∨
      (s.slices.any fun y => y.mid = x.mid ∧ y.sender ≠ k) = true
  · rw [if_pos refused]
    exact .inl (.refl s)
  · rw [if_neg refused]
    by_cases had : (k, x.mid) ∈ s.goneIn ∨ s.has x.mid = true
    · rw [if_pos had]
      exact .inl ⟨rfl, rfl, rfl, rfl, rfl, rfl, rfl, rfl⟩
    · dsimp only
      split_ifs
      · exact .inl ⟨rfl, rfl, rfl, rfl, rfl, rfl, rfl, rfl⟩
      · obtain same | ⟨body, ⟨h₁, h₂, h₃, h₄, h₅, h₆, h₇, h₈⟩, owed⟩ :=
          fileSlices_cases (s.putSlice k x) key x late
        · exact .inl ⟨same.1, same.2, same.3, same.4, same.5, same.6, same.7, same.8⟩
        · refine .inr ⟨body, ⟨h₁, h₂, h₃, h₄, h₅, h₆, h₇, h₈⟩, fun u named => ?_,
            ⟨?_, (not_or.mp had).1⟩, owed⟩
          · have own := (not_or.mp (not_or.mp refused).2).1
            rw [Option.mem_def.mp named, Option.any_some, decide_eq_true_eq, not_not] at own
            exact own
          · exact Bool.eq_false_iff.mpr (not_or.mp had).2

theorem Sound.owedIn (sound : s.Sound cfg key) (out : k = key → s.listed key ≠ []) :
    (s.owedIn cfg k u).Sound cfg key := by
  unfold Room.owedIn
  split_ifs
  · have less : (s.setKey k (KeyRow.owedIn cfg u)).Sound cfg key := by
      by_cases same : k = key
      · subst same
        refine sound.setKey (out rfl) (sound.going (out rfl)) (fun _ inside => (mem_filter.mp inside).1)
          fun isOver => ?_
        have none : (s.keys k).owed = [] := sound.stopped isOver
        simp only [KeyRow.owedIn, none, filter_nil]
      · exact sound.alike (alike_setKey_of_ne same _)
    dsimp only
    split_ifs
    · exact less.unlistenNow out
    · exact less
  · exact sound

theorem still_owedIn : s.Still (s.owedIn cfg k u) := by
  unfold Room.owedIn
  split_ifs
  · dsimp only
    split_ifs
    · exact still_unlistenNow
    · exact ⟨rfl, rfl⟩
  · exact ⟨rfl, rfl⟩

/-! ## Frames -/

/-- What may still be filed of a key that is out: its lane is not stopped, every remove of it listed
the message, and none was filed by that id. -/
def StillOwed (key : κ) (s : Room κ υ ε β δ) (m : Message κ υ β) : Prop :=
  (s.keys key).lane ≠ .stopped ∧ ∃ u, m.uid = some u ∧
    (∀ l ∈ s.listed key, (u, m.body) ∈ l) ∧ ∀ m' ∈ s.filed, m'.key = key → m'.uid ≠ some u

omit [DecidableEq κ] in
theorem Sound.stillOwed (sound : s.Sound cfg key) {body : β} (new : s.New key u)
    (owed : cfg.entry u body ∈ (s.keys key).owed) : s.StillOwed key ⟨key, some u, body⟩ := by
  refine ⟨fun isOver => ?_, u, rfl, fun l inside => ?_, sound.not_filed new.1 new.2⟩
  · rw [sound.stopped isOver] at owed
    exact not_mem_nil owed
  · obtain ⟨m, mem, same⟩ := mem_map.mp (sound.owed _ owed l inside)
    obtain ⟨rfl, rfl⟩ := cfg.entry_inj same
    exact mem

/-- What a step files: nothing, or one message, which is one still owed if its key is out. -/
def Filing (key : κ) (s s' : Room κ υ ε β δ) : Prop :=
  s'.filed = s.filed ∨ ∃ m, s'.filed = s.filed ++ [m] ∧
    (m.key = key → s.listed key ≠ [] → s.StillOwed key m)

/-- The message a frame may have filed: one with an id only as new, a file under its own id, and of
a key that is not a member only as it is owed. -/
def Comes (cfg : Config κ υ ε β δ μ) (k : κ) (s : Room κ υ ε β δ) (m : Message κ υ β) :
    Frame κ υ β δ μ → Prop
  | .text uid body _ => m = ⟨k, uid, body⟩ ∧ ∀ u ∈ uid, s.New k u
  | .slice x _ => m = ⟨k, x.uid, m.body⟩ ∧ (∀ u ∈ x.uid, u = x.mid) ∧ s.New k x.mid ∧
      (k ∈ s.members ∨ cfg.entry x.mid m.body ∈ (s.keys k).owed)
  | _ => False

omit [DecidableEq κ] in
theorem Comes.key_eq {m : Message κ υ β} (comes : s.Comes cfg k m frame) : m.key = k := by
  cases frame with
  | text uid body roster | slice x roster => exact congrArg Message.key comes.1
  | _ => exact comes.elim

variable [DecidableEq ε]

/-- What a frame that is taken makes of the room. -/
inductive Applied (cfg : Config κ υ ε β δ μ) (key k : κ) (frame : Frame κ υ β δ μ)
    (s t : Room κ υ ε β δ) : Prop
  | still (still : s.Still t) (kept : s.Sound cfg key → t.Sound cfg key)
  | out (ids : List κ) (late : κ → List (υ × β)) (put : t = s.putOut cfg ids late)
  | filed (m : Message κ υ β) (alike : Alike key (s.save m) t) (comes : s.Comes cfg k m frame)

theorem Applied.alike (alike : Alike key s s') : Applied cfg key k frame s s' :=
  .still ⟨alike.filed, alike.listed⟩ fun sound => sound.alike alike

theorem applied_of_apply (key : κ) {late : Bool} (made : Made cfg (.frame a k frame))
    (taken : s.applyIncomingPayload cfg a k late frame = some s') :
    Applied cfg key k frame s s' := by
  cases frame with
  | create ids stamp =>
    obtain rfl := Option.some.inj taken
    split_ifs
    · exact .still (still_takeCreate ids stamp) fun sound => sound.takeCreate ids stamp
    · exact .alike (.refl s)
  | add ids =>
    obtain rfl := Option.some.inj taken
    rw [if_neg made]
    exact .alike (.refl s)
  | remove ids listed =>
    simp only [applyIncomingPayload] at taken
    split_ifs at taken
    · unfold takeRemove at taken
      split_ifs at taken
      exact .out _ _ (Option.some.inj taken).symm
    · obtain rfl := Option.some.inj taken
      exact .alike (.refl s)
  | leave =>
    obtain rfl := Option.some.inj taken
    exact .out [k] (fun _ => []) rfl
  | text uid body roster =>
    obtain rfl := Option.some.inj taken
    rw [takeRoster_of_made made]
    obtain same | ⟨filed, new⟩ := fileText_cases s a k uid body
    · rw [same]
      exact .alike (.refl s)
    · rw [filed]
      exact .filed _ (.refl _) ⟨rfl, new⟩
  | slice x roster =>
    obtain rfl := Option.some.inj taken
    rw [takeRoster_of_made made]
    obtain same | ⟨body, filed, rest⟩ := takeSlice_cases cfg s a k key x late
    · exact .alike same
    · exact .filed _ filed ⟨rfl, rest⟩
  | unsend u =>
    obtain rfl := Option.some.inj taken
    exact .still still_takeUnsend Sound.takeUnsend
  | other =>
    obtain rfl := Option.some.inj taken
    exact .alike ⟨rfl, rfl, rfl, rfl, rfl, rfl, rfl, rfl⟩

/-- What is known of a key stays so, and a key that is out stays out. -/
theorem Sound.apply (sound : s.Sound cfg key) {late : Bool} (made : Made cfg (.frame a k frame))
    (taken : s.applyIncomingPayload cfg a k late frame = some s') :
    s'.Sound cfg key ∧ (s.listed key ≠ [] → s'.listed key ≠ []) := by
  cases applied_of_apply key made taken with
  | still still kept => exact ⟨kept sound, fun out => by rwa [still.2]⟩
  | out ids late put => exact put ▸ ⟨sound.putOut, listed_putOut⟩
  | filed m alike comes => exact ⟨(sound.save m).alike alike, fun out => by rwa [alike.listed]⟩

theorem filed_apply {late : Bool} (made : Made cfg (.frame a k frame))
    (taken : s.applyIncomingPayload cfg a k late frame = some s') :
    s'.filed = s.filed ∨ ∃ m, s'.filed = s.filed ++ [m] ∧ s.Comes cfg k m frame := by
  cases applied_of_apply k made taken with
  | still still => exact .inl still.1
  | out ids late put => exact .inl (put ▸ filed_putOut)
  | filed m alike comes => exact .inr ⟨m, alike.filed, comes⟩

omit [DecidableEq κ] in
theorem Sound.listed_of_owes (sound : s.Sound cfg k) (owes : s.owes cfg k frame = some u) :
    s.listed k ≠ [] := by
  intro none
  have nothing : (s.keys k).owed = [] := (sound.unlisted none).2
  unfold Room.owes at owes
  split at owes
  · simp only [nothing, not_mem_nil, and_false] at owes
    contradiction
  · simp only [KeyRow.owesUid, nothing, any_nil, Bool.false_eq_true, and_false] at owes
    contradiction
  · contradiction

theorem Sound.handle (sound : s.Sound cfg key) (made : Made cfg (.frame a k frame))
    (taken : s.handleRoomFrame cfg a k frame = some s') :
    s'.Sound cfg key ∧ (s.listed key ≠ [] → s'.listed key ≠ []) := by
  unfold handleRoomFrame at taken
  split_ifs at taken
  · obtain ⟨after, stays⟩ := sound.noteEntry.apply made taken
    exact ⟨after, by rwa [still_noteEntry.2] at stays⟩
  · split at taken
    · rename_i u owes
      obtain ⟨s₁, applied, rfl⟩ := Option.map_eq_some_iff.mp taken
      obtain ⟨after, stays⟩ := sound.apply made applied
      refine ⟨after.owedIn fun same => ?_, fun out => ?_⟩
      · subst same
        exact stays (sound.listed_of_owes owes)
      · rw [still_owedIn.2]
        exact stays out
    · obtain rfl := Option.some.inj taken
      exact ⟨sound, id⟩

omit [DecidableEq κ] in
theorem Sound.stillOwed_of_comes (sound : s.Sound cfg key) (member : key ∉ s.members)
    (named : Named key s s' (.frame a key frame)) (owes : s.owes cfg key frame = some u)
    {m : Message κ υ β} (filed : s'.filed = s.filed ++ [m]) (comes : s.Comes cfg key m frame) :
    s.StillOwed key m := by
  cases frame with
  | text uid body roster =>
    obtain ⟨rfl, new⟩ := comes
    cases uid with
    | none => contradiction
    | some u' =>
      simp only [Room.owes] at owes
      split_ifs at owes with owed
      exact sound.stillOwed (new u' rfl) owed.2
  | slice x roster =>
    obtain ⟨same, own, new, owed⟩ := comes
    obtain ⟨u', uid⟩ := Option.isSome_iff_exists.mp (named rfl (by simp [filed]))
    obtain rfl := own u' uid
    rw [same, uid]
    exact sound.stillOwed new (owed.resolve_left member)
  | _ => exact comes.elim

theorem Sound.filing_handle (sound : s.Sound cfg key) (made : Made cfg (.frame a k frame))
    (named : Named key s s' (.frame a k frame))
    (taken : s.handleRoomFrame cfg a k frame = some s') : s.Filing key s' := by
  unfold handleRoomFrame at taken
  split_ifs at taken with member
  · obtain same | ⟨m, filed, comes⟩ := filed_apply made taken
    · exact .inl (same.trans still_noteEntry.1)
    · rw [still_noteEntry.1] at filed
      refine .inr ⟨m, filed, fun own out => ?_⟩
      obtain rfl : key = k := own.symm.trans comes.key_eq
      exact absurd member (sound.notMember out)
  · split at taken
    · rename_i u owes
      obtain ⟨s₁, applied, rfl⟩ := Option.map_eq_some_iff.mp taken
      obtain same | ⟨m, filed, comes⟩ := filed_apply made applied
      · exact .inl (still_owedIn.1.trans same)
      · refine .inr ⟨m, still_owedIn.1.trans filed, fun own out => ?_⟩
        obtain rfl : key = k := own.symm.trans comes.key_eq
        exact sound.stillOwed_of_comes member named owes (still_owedIn.1.trans filed) comes
    · obtain rfl := Option.some.inj taken
      exact .inl rfl

/-- A frame about messages, or a control, of a key that is no member changes nothing. -/
theorem handle_of_not_mem (member : key ∉ s.members) (about : ¬ frame.IsData) :
    s.handleRoomFrame cfg a key frame = some s := by
  unfold handleRoomFrame
  rw [if_neg member]
  cases frame with
  | text uid body roster | slice x roster => exact absurd trivial about
  | _ => rfl

end Room

/-! ## Runs -/

variable [DecidableEq κ] [DecidableEq υ] [DecidableEq ε]
variable {act : Act κ υ β δ μ} {members : List κ}

theorem Room.Sound.step (sound : s.Sound cfg key) (made : Made cfg act)
    (taken : next cfg (some s) act = some s') :
    s'.Sound cfg key ∧ (s.listed key ≠ [] → s'.listed key ≠ []) := by
  cases act with
  | frame a k frame => exact sound.handle made taken
  | stop k =>
    obtain rfl := Option.some.inj taken
    split_ifs with going
    · refine ⟨sound.unlistenNow fun same none => ?_, by rw [still_unlistenNow.2]; exact id⟩
      subst same
      rw [(sound.unlisted none).1] at going
      exact Lane.noConfusion going
    · exact ⟨sound, id⟩

theorem Room.Sound.filing_next (sound : s.Sound cfg key) (made : Made cfg act)
    (named : Named key s s' act) (taken : next cfg (some s) act = some s') : s.Filing key s' := by
  cases act with
  | frame a k frame => exact sound.filing_handle made named taken
  | stop k =>
    obtain rfl := Option.some.inj taken
    split_ifs
    · exact .inl still_unlistenNow.1
    · exact .inl rfl

/-- The states a room comes to, with what its creator's app makes and one key's files named. -/
abbrev Reaches (cfg : Config κ υ ε β δ μ) (key : κ) (members : List κ)
    (s : Room κ υ ε β δ) : Prop :=
  Run (fun s act s' => s' = next cfg s act)
    (fun s act => Made cfg act ∧ ∀ s₀ ∈ s, ∀ s' ∈ next cfg s act, Named key s₀ s' act)
    (some (joined members)) (some s)

theorem Reaches.sound (run : Reaches cfg key members s) : s.Sound cfg key := by
  have along : ∀ s₁, some s = some s₁ → s₁.Sound cfg key := by
    refine run.invariant (fun s => ∀ s₁, s = some s₁ → s₁.Sound cfg key) ?_ ?_
    · intro s₁ same
      obtain rfl := Option.some.inj same
      exact .joined members
    · intro before after act sound rule taken s₁ same
      subst taken
      cases before with
      | none => contradiction
      | some s₀ => exact ((sound s₀ rfl).step rule.1 same).1
  exact along s rfl

/-- In every state a room comes to in which a key left it or was taken out: the key is no
member, its frames that are no messages change nothing, and from there on it stays out and what
is filed of it is still owed. -/
theorem out_of_reaches (run : Reaches cfg key members s) (out : s.listed key ≠ []) :
    key ∉ s.members ∧ (∀ (a : Answer υ) (frame : Frame κ υ β δ μ), ¬ frame.IsData →
        s.handleRoomFrame cfg a key frame = some s) ∧
      ∀ act s', Made cfg act → Named key s s' act → next cfg (some s) act = some s' →
        s'.listed key ≠ [] ∧ (s'.filed = s.filed ∨ ∃ m, s'.filed = s.filed ++ [m] ∧
            (m.key = key → s.StillOwed key m)) := by
  have sound : s.Sound cfg key := run.sound
  have member : key ∉ s.members := sound.notMember out
  refine ⟨member, fun a frame about => Room.handle_of_not_mem member about,
    fun act s' made named taken => ⟨(sound.step made taken).2 out, ?_⟩⟩
  obtain same | ⟨m, filed, owed⟩ := sound.filing_next made named taken
  · exact .inl same
  · exact .inr ⟨m, filed, fun own => owed own out⟩

def fileRoom : Config Nat Nat (Nat × List (Option Nat)) (List (Option Nat)) Nat Unit where
  me := 1
  creator := 0
  shaped _ := true
  cap := none
  entry u body := (u, body)
  names h u := h.1 = u
  fileBody _ slices _ := slices
  entry_inj same := Prod.mk.inj same
  names_entry := decide_eq_true_iff

/-- The third key joined, and was taken out with a file of two slices listed. -/
def takenOut : List (Act Nat Nat (List (Option Nat)) Nat Unit) :=
  [.frame {} 0 (.create [0, 1, 2] (some 1)),
    .frame {} 0 (.remove [2] fun _ => [(9, [some 5, some 6])])]

def firstSlice (uid : Option Nat) : Act Nat Nat (List (Option Nat)) Nat Unit :=
  .frame {} 2 (.slice ⟨9, uid, 0, 2, 5, (), by decide⟩ none)

def lastSlice (uid : Option Nat) : Act Nat Nat (List (Option Nat)) Nat Unit :=
  .frame {} 2 (.slice ⟨9, uid, 1, 2, 6, (), by decide⟩ none)

def roomAfter (acts : List (Act Nat Nat (List (Option Nat)) Nat Unit)) :
    Room Nat Nat (Nat × List (Option Nat)) (List (Option Nat)) Nat :=
  (acts.foldl (next fileRoom) (some (joined [0, 1]))).getD (joined [])

/-- With its id on each slice the file is filed, and is one still owed. -/
theorem out_of_reaches_named :
    2 ∉ (roomAfter (takenOut ++ [firstSlice (some 9)])).members ∧
      ∃ m, (roomAfter (takenOut ++ [firstSlice (some 9), lastSlice (some 9)])).filed = [m] ∧
        (roomAfter (takenOut ++ [firstSlice (some 9)])).StillOwed 2 m := by
  have run : Reaches fileRoom 2 [0, 1] (roomAfter (takenOut ++ [firstSlice (some 9)])) := by
    refine @Run.of_allowed _ _ _ _ _ (takenOut ++ [firstSlice (some 9)]) ?_
    exact ⟨⟨trivial, fun _ _ _ _ => trivial⟩, ⟨trivial, fun _ _ _ _ => trivial⟩,
      ⟨fun _ => rfl, fun _ _ _ _ _ _ => rfl⟩, trivial⟩
  obtain ⟨member, -, later⟩ := out_of_reaches run (cons_ne_nil _ _)
  obtain ⟨-, same | ⟨m, filed, owed⟩⟩ := later (lastSlice (some 9))
    (roomAfter (takenOut ++ [firstSlice (some 9), lastSlice (some 9)])) (fun _ => rfl)
    (fun _ _ => rfl) rfl
  · exact absurd (congrArg List.length same) (by decide)
  · have only : m = ⟨2, some 9, [some 5, some 6]⟩ := (List.cons.inj filed).1.symm
    exact ⟨member, m, filed, owed (by rw [only])⟩

/-- Without it the file is filed, and filed again, under no id. -/
theorem unnamedSlices_filedAgain :
    Run (fun s act s' => s' = next fileRoom s act) (fun _ act => Made fileRoom act)
        (some (joined [0, 1]))
        (some (roomAfter (takenOut ++ [firstSlice none, lastSlice none, firstSlice none]))) ∧
      (roomAfter (takenOut ++ [firstSlice none, lastSlice none, firstSlice none])).listed 2 ≠ [] ∧
      Made fileRoom (lastSlice none) ∧
      (roomAfter (takenOut ++ [firstSlice none, lastSlice none, firstSlice none])).filed =
        [⟨2, none, [some 5, some 6]⟩] ∧
      (next fileRoom
          (some (roomAfter (takenOut ++ [firstSlice none, lastSlice none, firstSlice none])))
          (lastSlice none)).map Room.filed =
        some [⟨2, none, [some 5, some 6]⟩, ⟨2, none, [some 5, some 6]⟩] := by
  refine ⟨?_, cons_ne_nil _ _, fun _ => rfl, rfl, rfl⟩
  have allowed : Allowed (next fileRoom) (fun _ act => Made fileRoom act)
      (some (joined [0, 1])) (takenOut ++ [firstSlice none, lastSlice none, firstSlice none]) :=
    ⟨trivial, trivial, fun _ => rfl, fun _ => rfl, fun _ => rfl, trivial⟩
  exact Run.of_allowed _ _ allowed

end Kryfo.Rooms
