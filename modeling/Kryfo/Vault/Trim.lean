import Kryfo.Vault.Inbox
import Mathlib.Algebra.Order.BigOperators.Group.List

/-!
# What a trim leaves

A trim goes through the notes, the plain rows and the kept ones that go last, and drops as few of
the first as it takes to keep to the caps.
-/

namespace Kryfo.Vault

open Library List

@[simp] theorem totalSize_nil : totalSize [] = 0 := rfl

@[simp] theorem totalSize_cons (r : Row) (rows : List Row) :
    totalSize (r :: rows) = r.size + totalSize rows := by
  simp [totalSize]

theorem totalSize_perm {rows rows' : List Row} (perm : rows.Perm rows') :
    totalSize rows = totalSize rows' := (perm.map Row.size).sum_eq

/-- Rows that keep to the caps.  A negative cap is kept to as zero is. -/
def Within (cfg : Config) (rows : List Row) : Prop :=
  rows.length ≤ cfg.maxSealed.toNat ∧ totalSize rows ≤ cfg.maxSealedBytes.toNat ∧
    rows.countP Row.isNote ≤ kMaxSealedNotes

/-- Without the first `k` the rows keep to the caps, and with any of these they do not. -/
def Least (cfg : Config) (rows : List Row) (k : Nat) : Prop :=
  Within cfg (rows.drop k) ∧ ∀ j < k, ¬Within cfg (rows.drop j)

variable {cfg : Config} {r : Row} {rows rows' : List Row} {k : Nat}

theorem Within.nil : Within cfg [] := by simp [Within]

theorem Within.sublist (within : Within cfg rows') (sub : rows.Sublist rows') : Within cfg rows :=
  ⟨sub.length_le.trans within.1, ((sub.map Row.size).sum_le_sum (by simp)).trans within.2.1,
    sub.countP_le.trans within.2.2⟩

theorem Within.perm (within : Within cfg rows) (perm : rows'.Perm rows) : Within cfg rows' := by
  rwa [Within, perm.length_eq, totalSize_perm perm, perm.countP_eq]

theorem Least.zero (within : Within cfg rows) : Least cfg rows 0 := ⟨within, nofun⟩

theorem Least.le_iff (least : Least cfg rows k) {j : Nat} : k ≤ j ↔ Within cfg (rows.drop j) :=
  ⟨fun le => least.1.sublist (drop_sublist_drop_left rows le),
    fun within => not_lt.mp fun before => least.2 j before within⟩

theorem Least.cons (least : Least cfg rows k) (past : ¬Within cfg (r :: rows)) :
    Least cfg (r :: rows) (k + 1) := by
  refine ⟨least.1, fun j before => ?_⟩
  cases j with
  | zero => exact past
  | succ j => exact least.2 j (by omega)

namespace Trim

variable {t : Trim}

/-- What is under way counts the rows that are left. -/
structure Holds (t : Trim) (rows : List Row) : Prop where
  perm : t.inbox.rows.Perm rows
  n : t.n = rows.length
  bytes : t.bytes = totalSize rows

theorem Holds.drop (holds : t.Holds (r :: rows)) : (t.drop r).Holds rows where
  perm := by
    have apart : t.inbox.rows.Pairwise fun r r' => r.id ≠ r'.id := t.inbox.ordered.imp ne_of_lt
    have others := pairwise_cons.mp (apart.perm holds.perm Ne.symm)
    have left : (r :: rows).filter (fun r' => r'.id ≠ r.id) = rows := by
      rw [filter_cons_of_neg (by simp), filter_eq_self]
      exact fun r' inside => by simpa using (others.1 r' inside).symm
    exact left ▸ holds.perm.filter _
  n := by simp [Trim.drop, holds.n]
  bytes := by simp [Trim.drop, holds.bytes]

theorem Holds.within_iff (holds : t.Holds (r :: rows)) (cap : 0 ≤ cfg.maxSealedBytes) :
    Within cfg (r :: rows) ↔
      t.isOver cfg = false ∧ (r :: rows).countP Row.isNote ≤ kMaxSealedNotes := by
  have count := holds.n
  have total := holds.bytes
  rw [length_cons] at count
  simp only [Within, isOver, length_cons, Bool.or_eq_false_iff, decide_eq_false_iff_not]
  omega

theorem dropOver_of_not_over (inside : t.isOver cfg = false) (rows : List Row) :
    t.dropOver cfg rows = t := by
  cases rows with
  | nil => rfl
  | cons r rows => rw [dropOver, if_neg (by simp [inside])]

theorem dropNotes_of_not_over (inside : t.isOver cfg = false) {left : Nat}
    (few : left ≤ kMaxSealedNotes) (rows : List Row) : t.dropNotes cfg rows left = t := by
  induction rows with
  | nil => rfl
  | cons r rows ih => rw [dropNotes, if_pos (by simp [inside, few]), ih]

theorem countP_isNote_eq_zero (others : ∀ r ∈ rows, r.isNote = false) :
    rows.countP Row.isNote = 0 := countP_eq_zero.mpr (by simpa using others)

theorem holds_dropOver (cap : 0 ≤ cfg.maxSealedBytes) (others : ∀ r ∈ rows, r.isNote = false)
    (holds : t.Holds rows) : ∃ k, (t.dropOver cfg rows).Holds (rows.drop k) ∧ Least cfg rows k := by
  induction rows generalizing t with
  | nil => exact ⟨0, holds, .zero .nil⟩
  | cons r rows ih =>
    have within := holds.within_iff cap
    rw [countP_isNote_eq_zero others] at within
    rw [dropOver]
    split_ifs with isOver
    · obtain ⟨k, left, least⟩ := ih (fun r' inside => others r' (.tail r inside)) holds.drop
      exact ⟨k + 1, left, least.cons fun wrong => by simp [within.mp wrong] at isOver⟩
    · exact ⟨0, holds, .zero (within.mpr ⟨by simpa using isOver, by simp⟩)⟩

/-- Both loops drop the first rows, and no more than it takes to keep to the caps. -/
theorem holds_dropNotes {notes : List Row} (cap : 0 ≤ cfg.maxSealedBytes)
    (allNotes : ∀ r ∈ notes, r.isNote = true) (others : ∀ r ∈ rows, r.isNote = false)
    (holds : t.Holds (notes ++ rows)) :
    ∃ k, ((t.dropNotes cfg notes notes.length).dropOver cfg rows).Holds ((notes ++ rows).drop k) ∧
      Least cfg (notes ++ rows) k := by
  induction notes generalizing t with
  | nil => exact holds_dropOver cap others holds
  | cons r notes ih =>
    have within : Within cfg (r :: notes ++ rows) ↔ _ ∧ (r :: notes ++ rows).countP _ ≤ _ :=
      holds.within_iff cap
    have count : (r :: notes ++ rows).countP Row.isNote = (r :: notes).length := by
      rw [countP_append, countP_isNote_eq_zero others, countP_eq_length.mpr allNotes]
      rfl
    rw [count] at within
    rw [dropNotes]
    split_ifs with stays
    · simp only [Bool.and_eq_true, Bool.not_eq_true', decide_eq_true_eq] at stays
      rw [dropNotes_of_not_over stays.1 stays.2, dropOver_of_not_over stays.1]
      exact ⟨0, holds, .zero (within.mpr stays)⟩
    · obtain ⟨k, left, least⟩ := ih (fun r' inside => allNotes r' (.tail r inside)) holds.drop
      refine ⟨k + 1, left, least.cons fun wrong => stays ?_⟩
      simpa using within.mp wrong

end Trim

namespace Inbox

variable {cfg : Config} {inbox : Inbox} {uid : Option String} {part : Option Int} {blob : Bytes}
  {time : Int}

/-- In rows with ascending ids, those that are not among the first are the rest. -/
theorem filter_not_mem_take {rows : List Row} (ordered : rows.Pairwise fun r r' => r.id < r'.id)
    (k : Nat) :
    (rows.filter fun r => !decide (r.id ∈ (rows.take k).map Row.id)) = rows.drop k := by
  have apart := (take_append_drop k rows).symm ▸ ordered
  obtain ⟨-, -, less⟩ := pairwise_append.mp apart
  conv_lhs =>
    arg 2
    rw [← take_append_drop k rows]
  rw [filter_append]
  have none : (rows.take k).filter (fun r => !decide (r.id ∈ (rows.take k).map Row.id)) = [] := by
    rw [filter_eq_nil_iff]
    intro r inside
    simp only [Bool.not_eq_true, Bool.not_eq_false', decide_eq_true_eq]
    exact mem_map_of_mem inside
  have all : (rows.drop k).filter (fun r => !decide (r.id ∈ (rows.take k).map Row.id)) =
      rows.drop k := by
    rw [filter_eq_self]
    intro r inside
    simp only [mem_map, not_exists, not_and, Bool.not_eq_true', decide_eq_false_iff_not]
    exact fun r' first same => absurd (less r' first r inside) (by omega)
  rw [none, all, nil_append]

theorem isNote_of_isKept {r : Row} (kept : r.isKept = true) : r.isNote = false := by
  simp only [Row.isKept, Row.isNote, decide_eq_true_eq] at kept ⊢
  rw [kept]
  decide

theorem perm_others (inbox : Inbox) :
    (inbox.plain ++ inbox.last).Perm (inbox.rows.filter fun r => !r.isNote) := by
  have split := filter_append_perm
    (fun r => !r.isKept || decide (r.id ∈ (inbox.kept.take inbox.spare).map Row.id))
    (inbox.rows.filter fun r => !r.isNote)
  rw [filter_filter, filter_filter] at split
  have last : inbox.last = inbox.rows.filter fun r =>
      !(!r.isKept || decide (r.id ∈ (inbox.kept.take inbox.spare).map Row.id)) && !r.isNote := by
    have ordered : inbox.kept.Pairwise fun r r' => r.id < r'.id := inbox.ordered.filter _
    rw [last, ← filter_not_mem_take ordered]
    rw [kept, filter_filter]
    refine filter_congr fun r _ => ?_
    cases isKept : r.isKept with
    | false => simp
    | true => simp [isNote_of_isKept isKept]
  have plain : inbox.plain = inbox.rows.filter fun r =>
      (!r.isKept || decide (r.id ∈ (inbox.kept.take inbox.spare).map Row.id)) && !r.isNote :=
    filter_congr fun r _ => Bool.and_comm _ _
  rw [plain, last]
  exact split

/-- The rows in the order in which a trim drops them. -/
def order (inbox : Inbox) : List Row := inbox.notes ++ (inbox.plain ++ inbox.last)

theorem perm_order (inbox : Inbox) : inbox.order.Perm inbox.rows :=
  ((perm_others inbox).append_left _).trans (filter_append_perm _ _)

theorem nodup_order (inbox : Inbox) : inbox.order.Nodup :=
  (perm_order inbox).nodup_iff.mpr (inbox.ordered.imp fun less same => by simp [same] at less)

/-- Notes go first and the newest kept rows last. -/
def turn (inbox : Inbox) (r : Row) : Nat :=
  if r.isNote then 0 else if r ∈ inbox.last then 2 else 1

theorem pairwise_order (inbox : Inbox) : inbox.order.Pairwise fun r r' =>
    inbox.turn r < inbox.turn r' ∨ inbox.turn r = inbox.turn r' ∧ r.id < r'.id := by
  have apart := (nodup_append.mp (nodup_append.mp (nodup_order inbox)).2.1).2.2
  have notes : ∀ r ∈ inbox.notes, inbox.turn r = 0 := fun r inside => by
    rw [turn, if_pos (mem_filter.mp inside).2]
  have plain : ∀ r ∈ inbox.plain, inbox.turn r = 1 := fun r inside => by
    have passes := (mem_filter.mp inside).2
    rw [turn, if_neg (by simp_all), if_neg fun isLast => apart r inside r isLast rfl]
  have last : ∀ r ∈ inbox.last, inbox.turn r = 2 := fun r inside => by
    have isKept := (mem_filter.mp (mem_of_mem_drop inside)).2
    rw [turn, if_neg (by simp [isNote_of_isKept isKept]), if_pos inside]
  have alike {rows : List Row} {n : Nat} (ordered : rows.Pairwise fun r r' => r.id < r'.id)
      (all : ∀ r ∈ rows, inbox.turn r = n) : rows.Pairwise fun r r' =>
        inbox.turn r < inbox.turn r' ∨ inbox.turn r = inbox.turn r' ∧ r.id < r'.id :=
    ordered.imp_of_mem fun inside inside' less =>
      .inr ⟨(all _ inside).trans (all _ inside').symm, less⟩
  refine pairwise_append.mpr ⟨alike (inbox.ordered.filter _) notes,
    pairwise_append.mpr ⟨alike (inbox.ordered.filter _) plain,
      alike ((inbox.ordered.filter _).drop) last, fun r inside r' inside' => .inl ?_⟩,
    fun r inside r' inside' => .inl ?_⟩
  · rw [plain r inside, last r' inside']
    decide
  · rw [notes r inside]
    rcases mem_append.mp inside' with isPlain | isLast
    · rw [plain r' isPlain]
      decide
    · rw [last r' isLast]
      decide

/-- The rows a trim comes to after a new row that waits under a part. -/
def behind (inbox : Inbox) (part : Option Int) : List Row :=
  if part = some kNotePart then inbox.rows.filter fun r => !r.isNote
  else if part = some kKeepPart then []
  else inbox.last

/-- A new row fits beside those that a trim comes to after it. -/
def HasRoom (cfg : Config) (inbox : Inbox) (part : Option Int) (size : Nat) : Prop :=
  1 + ((inbox.behind part).length : Int) ≤ cfg.maxSealed ∧
    (size + totalSize (inbox.behind part) : Int) ≤ cfg.maxSealedBytes

section Added

theorem rows_add : (inbox.add uid part blob time).rows =
    inbox.rows ++ [inbox.newRow uid part blob time] := rfl

theorem filter_add (p : Row → Bool) : (inbox.add uid part blob time).rows.filter p =
    inbox.rows.filter p ++ [inbox.newRow uid part blob time].filter p := by
  rw [rows_add, filter_append]

theorem order_add : ∃ before rest, (inbox.add uid part blob time).order =
    before ++ inbox.newRow uid part blob time :: rest ∧ rest.Perm (inbox.behind part) := by
  have notes : (inbox.add uid part blob time).notes = inbox.notes ++ _ := filter_add Row.isNote
  have kept : (inbox.add uid part blob time).kept = inbox.kept ++ _ := filter_add Row.isKept
  by_cases isNote : part = some kNotePart
  · refine ⟨inbox.notes, _, ?_, (perm_others (inbox.add uid part blob time)).trans (.of_eq ?_)⟩
    · rw [order, notes, filter_singleton, append_assoc]
      simp [newRow, Row.isNote, isNote]
    · rw [behind, rows_add]
      simp [newRow, Row.isNote, isNote]
  by_cases isKept : part = some kKeepPart
  · replace kept : _ = inbox.kept ++ [inbox.newRow uid part blob time] :=
      kept.trans (by simp [newRow, Row.isKept, isKept])
    have some : (inbox.add uid part blob time).spare ≤ inbox.kept.length := by
      rw [spare, kept, kMaxSealedKept]
      simp
    refine ⟨(inbox.add uid part blob time).notes ++ ((inbox.add uid part blob time).plain ++
      inbox.kept.drop (inbox.add uid part blob time).spare), [], ?_, ?_⟩
    · rw [order, last, kept, drop_append_of_le_length some, append_assoc, append_assoc]
    · rw [behind, if_neg isNote, if_pos isKept]
  · replace kept : _ = inbox.kept := kept.trans (by simp [newRow, Row.isKept, isKept])
    refine ⟨inbox.notes ++ inbox.plain, inbox.last, ?_, ?_⟩
    · rw [order, notes, last, plain, spare, kept, rows_add, last, plain, spare]
      simp [newRow, Row.isNote, Row.isKept, isNote, isKept]
    · rw [behind, if_neg isNote, if_neg isKept]

theorem isNote_of_mem_behind {r : Row} (inside : r ∈ inbox.behind part) : r.isNote = false := by
  unfold behind at inside
  split_ifs at inside
  · simpa using (mem_filter.mp inside).2
  · exact nomatch inside
  · exact isNote_of_isKept (mem_filter.mp (mem_of_mem_drop inside)).2

/-- What a trim leaves when the newest row is not past the cap on its own. -/
def trimmed (cfg : Config) (inbox : Inbox) : Inbox :=
  let start : Trim := ⟨inbox, inbox.rows.length, totalSize inbox.rows⟩
  ((start.dropNotes cfg inbox.notes inbox.notes.length).dropOver cfg
    (inbox.plain ++ inbox.last)).inbox

theorem trim_add : (inbox.add uid part blob time).trim cfg =
    if cfg.maxSealedBytes < (blob.length : Int) then
      (false, (inbox.add uid part blob time).delete inbox.next)
    else (true, (inbox.add uid part blob time).trimmed cfg) := by
  rw [trim, rows_add, getLast?_concat]
  rfl

theorem rows_delete_add : ((inbox.add uid part blob time).delete inbox.next).rows = inbox.rows := by
  show (inbox.rows ++ [_]).filter _ = _
  rw [filter_append, filter_eq_self.mpr]
  · simp [newRow]
  · exact fun r inside => by simpa using (inbox.below r inside).ne

/-- A trim drops the first rows in its order, and no more than it takes. -/
theorem least_trimmed (inbox : Inbox) (cap : 0 ≤ cfg.maxSealedBytes) :
    ∃ k, (inbox.trimmed cfg).rows.Perm (inbox.order.drop k) ∧ Least cfg inbox.order k := by
  have perm := perm_order inbox
  have holds : Trim.Holds ⟨inbox, inbox.rows.length, totalSize inbox.rows⟩ inbox.order :=
    ⟨perm.symm, by rw [perm.length_eq], by rw [totalSize_perm perm]⟩
  obtain ⟨k, left, least⟩ := Trim.holds_dropNotes cap
    (fun r inside => (mem_filter.mp inside).2) (fun r inside => by
      simpa using (mem_filter.mp ((perm_others inbox).mem_iff.mp inside)).2) holds
  exact ⟨k, left.perm, least⟩

/-- After a trim the newest row is there if and only if it had room. -/
theorem mem_trimmed_iff (cap : 0 ≤ cfg.maxSealedBytes) :
    inbox.newRow uid part blob time ∈ ((inbox.add uid part blob time).trimmed cfg).rows ↔
      HasRoom cfg inbox part blob.length := by
  obtain ⟨k, perm, least⟩ := least_trimmed (inbox.add uid part blob time) cap
  obtain ⟨before, rest, order, behind⟩ := @order_add inbox uid part blob time
  have once := nodup_order (inbox.add uid part blob time)
  rw [order] at perm least once
  obtain ⟨-, notRest, notBefore⟩ := nodup_append.mp once
  have reached : inbox.newRow uid part blob time ∈
      (before ++ inbox.newRow uid part blob time :: rest).drop k ↔ k ≤ before.length := by
    constructor
    · intro inside
      by_contra past
      rw [drop_append, drop_eq_nil_of_le (by omega)] at inside
      obtain ⟨n, more⟩ : ∃ n, k - before.length = n + 1 := ⟨k - before.length - 1, by omega⟩
      rw [more] at inside
      exact (nodup_cons.mp notRest).1 (mem_of_mem_drop inside)
    · intro le
      rw [drop_append_of_le_length le]
      exact mem_append_right _ mem_cons_self
  have few : (inbox.newRow uid part blob time :: rest).countP Row.isNote ≤ kMaxSealedNotes := by
    rw [countP_cons, Trim.countP_isNote_eq_zero fun r inside =>
      isNote_of_mem_behind (behind.mem_iff.mp inside)]
    split_ifs <;> decide
  have size : (inbox.newRow uid part blob time).size = blob.length := rfl
  rw [perm.mem_iff, reached, least.le_iff, drop_left, Within, HasRoom, length_cons,
    totalSize_cons, behind.length_eq, totalSize_perm behind]
  omega

end Added

end Inbox

namespace Router

variable {cfg : Config} {r : Router} {a : Unsealed} {uid : Option String} {part : Option Int}
  {keep : Bool}

/-- `seal` answers yes: the arrival was sealed, is not past the cap on its own, and what was sealed
before was trimmed with it. -/
theorem of_sealTo (kept : (r.sealTo cfg a uid part keep).1 = true) :
    ∃ pub blob, r.pub = some pub ∧ cfg.sealer pub a = some blob ∧
      (blob.length : Int) ≤ cfg.maxSealedBytes ∧ (r.sealTo cfg a uid part keep).2.inbox =
        (r.inbox.add uid (partOf a part keep) blob a.time).trimmed cfg := by
  unfold sealTo at kept ⊢
  cases pub : r.pub with
  | none => simp [pub] at kept
  | some key =>
    simp only [pub] at kept ⊢
    cases made : cfg.sealer key a with
    | none => simp [made] at kept
    | some blob =>
      simp only [made, Inbox.trim_add] at kept ⊢
      split_ifs at kept ⊢ with past
      · exact ⟨key, blob, rfl, made, not_lt.mp past, rfl⟩

/-- Where `seal` answers true the arrival waits in the inbox if and only if it had room beside
the rows that a trim comes to after it. -/
theorem mem_sealTo_iff (kept : (r.sealTo cfg a uid part keep).1 = true) :
    ∃ pub blob, r.pub = some pub ∧ cfg.sealer pub a = some blob ∧
      (r.inbox.newRow uid (partOf a part keep) blob a.time ∈
          (r.sealTo cfg a uid part keep).2.inbox.rows ↔
        r.inbox.HasRoom cfg (partOf a part keep) blob.length) := by
  obtain ⟨pub, blob, isPub, made, fits, inbox⟩ := of_sealTo kept
  rw [inbox]
  exact ⟨pub, blob, isPub, made, Inbox.mem_trimmed_iff (by omega)⟩

theorem sealTo_of_made {pub : String} {blob : Bytes} (isPub : r.pub = some pub)
    (made : cfg.sealer pub a = some blob) :
    if cfg.maxSealedBytes < (blob.length : Int) then
      (r.sealTo cfg a uid part keep).1 = false ∧
        (r.sealTo cfg a uid part keep).2.inbox.rows = r.inbox.rows
    else (r.sealTo cfg a uid part keep).2.inbox =
      (r.inbox.add uid (partOf a part keep) blob a.time).trimmed cfg := by
  simp only [sealTo, isPub, made, Inbox.trim_add]
  split_ifs
  · exact ⟨rfl, Inbox.rows_delete_add⟩
  · rfl

theorem within_sealTo (within : Within cfg r.inbox.rows) :
    Within cfg (r.sealTo cfg a uid part keep).2.inbox.rows := by
  cases isPub : r.pub with
  | none => simpa [sealTo, isPub] using within
  | some pub =>
    cases made : cfg.sealer pub a with
    | none => simpa [sealTo, isPub, made] using within
    | some blob =>
      have after := @sealTo_of_made cfg r a uid part keep pub blob isPub made
      split_ifs at after with past
      · rwa [after.2]
      · obtain ⟨k, perm, least⟩ := Inbox.least_trimmed
          (r.inbox.add uid (partOf a part keep) blob a.time)
          (show 0 ≤ cfg.maxSealedBytes by omega)
        rw [after]
        exact least.1.perm perm

theorem has_of_mem {inbox : Inbox} {row : Row} {uid : String} {part : Option Int}
    (inside : row ∈ inbox.rows) (isUid : row.uid = some uid) (isPart : row.part = part) :
    inbox.has uid part = true :=
  any_eq_true.mpr ⟨row, inside, by simp [isUid, isPart]⟩

theorem msgUid_of_receipt {env : Envelope} {mine : Bool} {uid : String}
    (goes : r.receipt env mine = some uid) : env.msgUid = some uid := by
  obtain ⟨ticks, -⟩ := Option.filter_eq_some_iff.mp goes
  unfold Envelope.ticks at ticks
  split_ifs at ticks
  exact ticks

/-- With room for what is sealed, a receipt for a message in one piece goes out only while it
waits. -/
theorem has_of_sealArrival {now : Int} {myId sender wire uid : String} {env : Envelope}
    {fromBackPair : Bool} {wrappedAt : Option Int} {reached : Option (Int × Int)}
    (whole : env.sliced = false) (control : env.groupControl = none)
    (room : ∀ pub blob, r.pub = some pub →
      cfg.sealer pub ⟨sender, wire, fromBackPair, now, false, none, wrappedAt, false, none, none,
        reached⟩ = some blob → r.inbox.HasRoom cfg none blob.length)
    (goes : (r.sealArrival cfg now myId sender env wire fromBackPair wrappedAt reached).1 =
      some uid) :
    (r.sealArrival cfg now myId sender env wire fromBackPair wrappedAt reached).2.inbox.has uid none =
      true := by
  have noPart : env.part = none := by simp [Envelope.part, whole]
  unfold sealArrival at goes ⊢
  dsimp only at goes ⊢
  by_cases blocked : sender ∈ r.blocked
  · rw [if_pos blocked] at goes
    split at goes
    · exact nomatch goes
    · split at goes <;> exact nomatch goes
  rw [if_neg blocked] at goes ⊢
  by_cases there : (env.msgUid.any fun uid => r.inbox.has uid env.part) = true
  · rw [if_pos there] at goes ⊢
    split_ifs at goes
    rw [msgUid_of_receipt goes, noPart] at there
    exact there
  rw [if_neg there] at goes ⊢
  rw [noPart, control] at goes ⊢
  split at goes
  next kept =>
    obtain ⟨pub, blob, isPub, made, fits, inbox⟩ := of_sealTo kept
    rw [inbox]
    exact has_of_mem ((Inbox.mem_trimmed_iff (by omega)).mpr (room pub blob isPub made))
      (msgUid_of_receipt goes) rfl
  next => exact nomatch goes

/-- Caps of three rows and a thousand bytes, and seals of ten bytes. -/
def smallConfig : Config := ⟨3, 1000, fun _ _ => some (List.replicate 10 0)⟩

def anEnd : Envelope := { groupId := some "g", groupControl := some "end" }

def aMessage : Envelope := { msgUid := some "u", message := "hi" }

/-- Two messages and an end wait, as many as may. -/
def twoAndEnd : Router :=
  [{ aMessage with msgUid := some "s" }, anEnd, { aMessage with msgUid := some "t" }].foldl
    (fun r env => (r.sealArrival smallConfig 0 "me" "you" env "hi" false none none).2)
    { pub := some "key" }

theorem has_of_sealArrival_aMessage :
    let arrived := twoAndEnd.sealArrival smallConfig 0 "me" "you" aMessage "hi" false none none
    twoAndEnd.inbox.rows.length = 3 ∧ arrived.2.inbox.has "u" none = true := by
  refine ⟨by decide, has_of_sealArrival rfl rfl (fun pub blob _ made => ?_) (by decide)⟩
  cases made
  constructor <;> decide

def threeEnds : Router :=
  let seals (r : Router) : Router :=
    (r.sealArrival smallConfig 0 "me" "you" anEnd "end" false none none).2
  seals (seals (seals { pub := some "key" }))

theorem mem_sealTo_iff_message :
    let a : Unsealed := ⟨"you", "hi", false, 0, false, none, none, false, none, none, none⟩
    (twoAndEnd.sealTo smallConfig a (some "u") none false).1 = true ∧
      ∃ row ∈ (twoAndEnd.sealTo smallConfig a (some "u") none false).2.inbox.rows,
        row.uid = some "u" := by
  intro a
  have kept : (twoAndEnd.sealTo smallConfig a (some "u") none false).1 = true := by decide
  obtain ⟨pub, blob, isPub, made, iff⟩ := mem_sealTo_iff kept
  refine ⟨kept, _, iff.mpr ?_, rfl⟩
  cases made
  constructor <;> decide

/-- With three ends waiting, the message after them is trimmed in their place, and yet `seal`
answers true and its receipt goes out. -/
theorem dropped_of_ends :
    let a : Unsealed := ⟨"you", "hi", false, 0, false, none, none, false, none, none, none⟩
    (threeEnds.sealTo smallConfig a (some "u") none false).1 = true ∧
      (∀ row ∈ (threeEnds.sealTo smallConfig a (some "u") none false).2.inbox.rows,
        row.uid ≠ some "u") ∧
      (threeEnds.sealArrival smallConfig 0 "me" "you" aMessage "hi" false none none).1 =
        some "u" := by
  decide

end Router

end Kryfo.Vault
