import Kryfo.Catchup.Hold

/-!
# The book, operation by operation

What each operation of the book leaves in its maps, so that nothing above has to unfold one.
-/

namespace Kryfo.Catchup

open List

namespace Hold

variable {h : Hold}

theorem held_of_began (positive : 0 < h.began) : h.held = true := by
  simpa [held] using positive

theorem start_held {anchor now : Int} (positive : 0 < now) : (h.start anchor now).held = true := by
  unfold start
  split_ifs with isHeld lower
  · simpa [held] using isHeld
  · exact isHeld
  · exact held_of_began positive

theorem start_start {anchor now : Int} (positive : 0 < now) :
    (h.start anchor now).start anchor now = h.start anchor now := by
  have isHeld : (h.start anchor now).held = true := start_held positive
  have low : (h.start anchor now).floor ≤ anchor := by
    unfold start
    split_ifs with isHeld lower
    · exact le_rfl
    · omega
    · exact le_rfl
  rw [start, if_neg (by simp [isHeld]), if_neg (by omega)]

/-- Starting lowers the floor of a hold and never moves its beginning. -/
theorem start_of_held (isHeld : h.held = true) (anchor now : Int) :
    (h.start anchor now).began = h.began ∧ (h.start anchor now).floor ≤ h.floor := by
  unfold start
  split_ifs with lower
  · exact ⟨rfl, by simp only; omega⟩
  · exact ⟨rfl, le_rfl⟩

theorem start_of_not_held (notHeld : h.held = false) (anchor now : Int) :
    h.start anchor now = { floor := anchor, began := now } := by
  rw [start, if_pos (by simp [notHeld])]

theorem done_unstepped (h : Hold) : h.done false = {} := by
  simp [done]

theorem done_stepped (isHeld : h.held = true) :
    h.done true = { floor := max h.floor h.began, began := h.began } := by
  simp [done, isHeld]

theorem done_began_of_held {stepped : Bool} (isHeld : (h.done stepped).held = true) :
    h.held = true ∧ stepped = true := by
  unfold done at isHeld
  split_ifs at isHeld with clears
  · exact absurd isHeld (by decide)
  · simp only [not_or, Bool.not_eq_true, Bool.not_eq_false] at clears
    exact ⟨clears.2, clears.1⟩

end Hold

namespace Book

variable {κ : Type*} [DecidableEq κ] {b : Book κ}

section Set

theorem setHold_holds_self {key : κ} {h : Hold} (isHeld : h.held = true) :
    (b.setHold key h).holds key = h := by
  simp [setHold, isHeld]

@[simp]
theorem setHold_holds_of_ne {key k : κ} {h : Hold} (other : k ≠ key) :
    (b.setHold key h).holds k = b.holds k := by
  simp [setHold, other]

@[simp]
theorem setHold_marks (key : κ) (h : Hold) : (b.setHold key h).marks = b.marks := rfl

@[simp]
theorem setHold_freed (key : κ) (h : Hold) : (b.setHold key h).freed = b.freed := rfl

@[simp]
theorem setMark_holds (key : κ) (m : Mark) : (b.setMark key m).holds = b.holds := rfl

@[simp]
theorem setMark_freed (key : κ) (m : Mark) : (b.setMark key m).freed = b.freed := rfl

@[simp]
theorem setMark_marks_self (key : κ) (m : Mark) : (b.setMark key m).marks key = m := by
  simp [setMark]

@[simp]
theorem setMark_marks_of_ne {key k : κ} {m : Mark} (other : k ≠ key) :
    (b.setMark key m).marks k = b.marks k := by
  simp [setMark, other]

end Set

section Connect

omit [DecidableEq κ] in
private theorem foldl_takeFrom (holds : κ → Hold) (ks : List κ) (anchor : Int) :
    ks.foldl (fun base k => (holds k).takeFrom base) anchor ≤ anchor ∧
      (∀ k ∈ ks, (holds k).held = true →
        ks.foldl (fun base k => (holds k).takeFrom base) anchor ≤ (holds k).floor) ∧
      (ks.foldl (fun base k => (holds k).takeFrom base) anchor = anchor ∨
        ∃ k ∈ ks, (holds k).held = true ∧
          ks.foldl (fun base k => (holds k).takeFrom base) anchor = (holds k).floor) := by
  induction ks generalizing anchor with
  | nil => simp
  | cons head ks ih =>
    obtain ⟨lower, floors, value⟩ := ih ((holds head).takeFrom anchor)
    have first := Hold.takeFrom_le (holds head) anchor
    simp only [foldl_cons]
    refine ⟨by omega, ?_, ?_⟩
    · intro k member isHeld
      rcases mem_cons.mp member with same | inRest
      · subst same
        have := Hold.takeFrom_le_floor isHeld anchor
        omega
      · exact floors k inRest isHeld
    · rcases value with same | ⟨k, member, isHeld, atFloor⟩
      · rcases Hold.takeFrom_eq (holds head) anchor with kept | ⟨isHeld, lowered⟩
        · exact Or.inl (same.trans kept)
        · exact Or.inr ⟨head, by simp, isHeld, same.trans lowered⟩
      · exact Or.inr ⟨k, by simp [member], isHeld, atFloor⟩

variable {own : List κ} {key : κ} (last now : Int)

theorem connect_key : (b.connect key own last now).key = key := by
  unfold connect
  split_ifs <;> rfl

theorem connect_twins :
    (b.connect key own last now).twins = own.filter fun k => k ≠ key := by
  unfold connect
  split_ifs <;> rfl

theorem connect_freed : (b.connect key own last now).freed = (b.freed key).n := by
  unfold connect
  split_ifs <;> rfl

theorem connect_own (isOwn : key ∈ own) : (b.connect key own last now).own = true := by
  simp [connect, isOwn]

private theorem connect_base (isOwn : key ∈ own) :
    (b.connect key own last now).base =
      (own.filter fun k => k ≠ key).foldl (fun base k => (b.holds k).takeFrom base)
        ((b.holds key).takeFrom last) := by
  simp [connect, isOwn]

theorem connect_base_le_last (isOwn : key ∈ own) :
    (b.connect key own last now).base ≤ last := by
  rw [connect_base last now isOwn]
  exact le_trans (foldl_takeFrom b.holds _ _).1 (Hold.takeFrom_le _ _)

theorem connect_base_le_floor (isOwn : key ∈ own) {k : κ} (member : k ∈ own)
    (isHeld : (b.holds k).held = true) :
    (b.connect key own last now).base ≤ (b.holds k).floor := by
  rw [connect_base last now isOwn]
  obtain ⟨lower, floors, -⟩ := foldl_takeFrom b.holds
    (own.filter fun k => k ≠ key) ((b.holds key).takeFrom last)
  by_cases same : k = key
  · subst same
    exact le_trans lower (Hold.takeFrom_le_floor isHeld last)
  · exact floors k (mem_filter.mpr ⟨member, by simpa using same⟩) isHeld

/-- What a connection owes if its walk stops short: the hold it carries on from, or its own
window. -/
theorem connect_owed (isOwn : key ∈ own) :
    ((b.marks key).started = true ∧ (b.holds key).held = true ∧
        (b.connect key own last now).owed = b.holds key) ∨
      (¬ ((b.marks key).started = true ∧ (b.holds key).held = true) ∧
        (b.connect key own last now).owed =
          { floor := (b.connect key own last now).base, began := now }) := by
  have value : (b.connect key own last now).owed =
      (b.holds key).cut (b.connect key own last now).base now (b.marks key).started := by
    simp [connect, isOwn]
  rw [value, Hold.cut]
  by_cases carries : (b.marks key).started = true ∧ (b.holds key).held = true
  · rw [if_pos carries]
    exact .inl ⟨carries.1, carries.2, rfl⟩
  · rw [if_neg carries, if_neg]
    · exact .inr ⟨carries, rfl⟩
    · rintro ⟨isHeld, lower⟩
      have := connect_base_le_floor last now isOwn isOwn isHeld
      omega

theorem connect_base_eq (isOwn : key ∈ own) :
    (b.connect key own last now).base = last ∨ ∃ k ∈ own, (b.holds k).held = true ∧
        (b.connect key own last now).base = (b.holds k).floor := by
  rw [connect_base last now isOwn]
  obtain ⟨-, -, value⟩ := foldl_takeFrom b.holds
    (own.filter fun k => k ≠ key) ((b.holds key).takeFrom last)
  rcases value with same | ⟨k, member, isHeld, atFloor⟩
  · rw [same]
    rcases Hold.takeFrom_eq (b.holds key) last with kept | ⟨isHeld, lowered⟩
    · exact .inl kept
    · exact .inr ⟨key, isOwn, isHeld, lowered⟩
  · exact .inr ⟨k, (mem_filter.mp member).1, isHeld, atFloor⟩

end Connect

section Write

def write (b : Book κ) (c : Conn κ) (m : Mark) : Book κ :=
  (b.setHold c.key c.owed).setMark c.key m

variable {c : Conn κ}

private theorem setMark_marks_eq (b : Book κ) (key : κ) :
    b.setMark key (b.marks key) = b := by
  simp [setMark]

theorem owe_eq (isOwn : c.own = true) :
    b.owe c = if b.covered c then b else b.write c (b.marks c.key) := by
  have same := setMark_marks_eq (b.setHold c.key c.owed) c.key
  rw [setHold_marks] at same
  rw [owe, write, same]
  cases b.covered c <;> simp [isOwn]

theorem cut_eq (isOwn : c.own = true) (m : Mark) :
    b.cut c m = if b.covered c then b else b.write c (if m.started then m else b.marks c.key) := by
  have same := setMark_marks_eq (b.setHold c.key c.owed) c.key
  rw [setHold_marks] at same
  rw [cut]
  cases b.covered c with
  | true => rfl
  | false =>
    cases started : m.started with
    | true => simp [isOwn, write, setHold, setMark]
    | false => simp [isOwn, write, same]

theorem keepFirst_eq (isOwn : c.own = true) (oldest top : Int) :
    b.keepFirst c oldest top = if oldest ≤ 0 ∨ b.covered c then b
      else b.write c ((firstMark (b.marks c.key) oldest top).getD (b.marks c.key)) := by
  have same := setMark_marks_eq (b.setHold c.key c.owed) c.key
  rw [setHold_marks] at same
  rw [keepFirst]
  by_cases skips : oldest ≤ 0 ∨ b.covered c
  · rw [if_pos skips, if_pos skips]
  · cases firstMark (b.marks c.key) oldest top with
    | some m => simp [isOwn, write]
    | none => simp [isOwn, write, same]

theorem write_holds_self (m : Mark) (isHeld : c.owed.held = true) :
    (b.write c m).holds c.key = c.owed := by
  rw [write, setMark_holds, setHold_holds_self isHeld]

@[simp]
theorem write_marks_self (m : Mark) : (b.write c m).marks c.key = m := by
  rw [write, setMark_marks_self]

theorem write_of_ne {k : κ} (m : Mark) (other : k ≠ c.key) :
    (b.write c m).holds k = b.holds k ∧ (b.write c m).marks k = b.marks k := by
  rw [write, setMark_holds, setHold_holds_of_ne other, setMark_marks_of_ne other]
  exact ⟨rfl, rfl⟩

@[simp]
theorem write_freed (m : Mark) : (b.write c m).freed = b.freed := rfl

end Write

section Done

private theorem foldl_letGo (base : Int) (ks : List κ) (b : Book κ) (k : κ) :
    (ks.foldl (letGo base) b).holds k =
        (if k ∈ ks ∧ (b.holds k).held ∧ base ≤ (b.holds k).floor then {}
          else b.holds k) ∧
      (ks.foldl (letGo base) b).marks k =
        (if k ∈ ks ∧ (b.holds k).held ∧ base ≤ (b.holds k).floor then {}
          else b.marks k) ∧
      (k ∈ ks → ((ks.foldl (letGo base) b).freed k).base = base) ∧
      (k ∉ ks → (ks.foldl (letGo base) b).freed k = b.freed k) := by
  induction ks generalizing b with
  | nil => simp
  | cons head ks ih =>
    obtain ⟨holds, marks, inside, outside⟩ := ih (letGo base b head)
    simp only [foldl_cons]
    rw [holds, marks]
    by_cases same : k = head
    · subst same
      by_cases goes : (b.holds k).held ∧ base ≤ (b.holds k).floor
      · refine ⟨by simp [letGo, goes], by simp [letGo, goes], ?_, by simp⟩
        intro _
        by_cases again : k ∈ ks
        · exact inside again
        · rw [outside again]
          simp [letGo, goes]
      · refine ⟨by simp [letGo, goes], by simp [letGo, goes], ?_, by simp⟩
        intro _
        by_cases again : k ∈ ks
        · exact inside again
        · rw [outside again]
          simp [letGo, goes]
    · have sameHold : (letGo base b head).holds k = b.holds k := by
        unfold letGo
        split_ifs <;> simp [same]
      have sameMark : (letGo base b head).marks k = b.marks k := by
        unfold letGo
        split_ifs <;> simp [same]
      have sameFreed : (letGo base b head).freed k = b.freed k := by
        unfold letGo
        split_ifs <;> simp [same]
      refine ⟨by simp [sameHold, same], by simp [sameHold, sameMark, same], ?_, ?_⟩
      · intro member
        exact inside ((mem_cons.mp member).resolve_left same)
      · intro absent
        rw [outside (fun member => absent (mem_cons_of_mem head member)), sameFreed]

variable {c : Conn κ} {stepped : Bool}

theorem done_holds_self (stepped : Bool) (isOwn : c.own = true) (notTwin : c.key ∉ c.twins) :
    (b.done c stepped).holds c.key = (b.holds c.key).done stepped := by
  simp only [done, isOwn, if_true]
  rw [(foldl_letGo c.base c.twins _ c.key).1, if_neg (fun goes => notTwin goes.1)]
  cases isHeld : ((b.holds c.key).done stepped).held with
  | true => exact setHold_holds_self isHeld
  | false =>
    have empty : (b.holds c.key).done stepped = {} := by
      unfold Hold.done at isHeld ⊢
      split_ifs at isHeld ⊢ with clears
      · rfl
      · simp only [not_or] at clears
        simp only [Hold.held, decide_eq_false_iff_not] at isHeld
        have := clears.2
        simp only [Hold.held, decide_eq_true_eq] at this
        omega
    simp [setHold, empty]

theorem done_marks_self (isOwn : c.own = true) : (b.done c stepped).marks c.key = {} := by
  simp only [done, isOwn, if_true]
  rw [(foldl_letGo c.base c.twins _ c.key).2.1]
  simp

theorem done_holds_of_ne (stepped : Bool) (isOwn : c.own = true) {k : κ} (other : k ≠ c.key) :
    (b.done c stepped).holds k =
      if k ∈ c.twins ∧ (b.holds k).held ∧ c.base ≤ (b.holds k).floor then {}
      else b.holds k := by
  simp only [done, isOwn, if_true]
  rw [(foldl_letGo c.base c.twins _ k).1]
  simp [other]

theorem done_marks_of_ne (isOwn : c.own = true) {k : κ} (other : k ≠ c.key) :
    (b.done c stepped).marks k =
      if k ∈ c.twins ∧ (b.holds k).held ∧ c.base ≤ (b.holds k).floor then {}
      else b.marks k := by
  simp only [done, isOwn, if_true]
  rw [(foldl_letGo c.base c.twins _ k).2.1]
  simp [other]

theorem done_covered (isOwn : c.own = true) {c' : Conn κ} (twin : c'.key ∈ c.twins)
    (isCovered : (b.done c stepped).covered c' = true) : c.base ≤ c'.owed.floor := by
  simp only [covered, done, isOwn, if_true, Bool.and_eq_true, decide_eq_true_eq] at isCovered
  rw [(foldl_letGo c.base c.twins _ c'.key).2.2.1 twin] at isCovered
  exact isCovered.2

theorem done_freed_of_no_twins (isOwn : c.own = true) (alone : c.twins = []) :
    (b.done c stepped).freed = b.freed := by
  simp [done, isOwn, alone]

end Done

section Start

variable {own : List κ} {anchor now : Int}

@[simp]
theorem start_marks : (b.start own anchor now).marks = b.marks := by
  unfold start
  induction own generalizing b with
  | nil => rfl
  | cons head own ih => simpa using ih (b := b.setHold head ((b.holds head).start anchor now))

@[simp]
theorem start_freed : (b.start own anchor now).freed = b.freed := by
  unfold start
  induction own generalizing b with
  | nil => rfl
  | cons head own ih => simpa using ih (b := b.setHold head ((b.holds head).start anchor now))

theorem start_holds (own : List κ) (anchor : Int) (positive : 0 < now) (k : κ) :
    (b.start own anchor now).holds k = b.holds k ∨
      (b.start own anchor now).holds k = (b.holds k).start anchor now := by
  induction own generalizing b with
  | nil => exact .inl rfl
  | cons head own ih =>
    have onward := ih (b := b.setHold head ((b.holds head).start anchor now))
    by_cases same : k = head
    · subst same
      rw [setHold_holds_self (Hold.start_held positive), Hold.start_start positive] at onward
      exact .inr (onward.elim id id)
    · rw [setHold_holds_of_ne same] at onward
      exact onward

end Start

end Book

end Kryfo.Catchup
