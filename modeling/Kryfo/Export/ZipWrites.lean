import Kryfo.Export.Zip

/-!
# What an add leaves in the file

An add that comes through leaves its record, name and data at the end of the file.  One that fails
leaves some bytes there, unless it fails while the sizes are written over.
-/

namespace Kryfo.Export

open Library Library.Crc32 List

def entryBytes (fmt : Format) (name : String) (data : Bytes) : Bytes :=
  localRecord fmt (crc32 data) data.length (utf8 name).length ++ utf8 name ++ data

def dirBytes (fmt : Format) (name : String) (data : Bytes) (start : Nat) : Bytes :=
  centralRecord fmt (crc32 data) data.length (utf8 name).length start ++ utf8 name

theorem length_localRecord (fmt : Format) (crc : BitVec 32) (size nameLength : Nat) :
    (localRecord fmt crc size nameLength).length = 30 := rfl

structure Grown (z : StoreZip) (more : Bytes) (z' : StoreZip) : Prop where
  bytes : z'.bytes = z.bytes ++ more
  pos : z'.pos = z'.bytes.length
  central : z'.central = z.central
  count : z'.count = z.count

namespace Grown

variable {z z' z'' : StoreZip} {more more' : Bytes}

theorem refl (atEnd : z.pos = z.bytes.length) : Grown z [] z :=
  ⟨(append_nil _).symm, atEnd, rfl, rfl⟩

theorem trans (first : Grown z more z') (second : Grown z' more' z'') :
    Grown z (more ++ more') z'' where
  bytes := by rw [second.bytes, first.bytes, append_assoc]
  pos := second.pos
  central := second.central.trans first.central
  count := second.count.trans first.count

theorem wrote (atEnd : z.pos = z.bytes.length) (data : Bytes) : Grown z data (z.wrote data) where
  bytes := by
    rw [StoreZip.wrote, patch, atEnd, take_length,
      drop_of_length_le (Nat.le_add_right _ _), append_nil]
  pos := by
    rw [StoreZip.wrote, patch, atEnd, take_length,
      drop_of_length_le (Nat.le_add_right _ _), append_nil, length_append]
  central := rfl
  count := rfl

theorem writeFrom (atEnd : z.pos = z.bytes.length) (data : Bytes) :
    ∃ more, Grown z more (z.writeFrom data).2 ∧ ((z.writeFrom data).1 = true → more = data) := by
  unfold StoreZip.writeFrom
  split
  · exact ⟨data, wrote atEnd data, fun _ => rfl⟩
  · exact ⟨data, { wrote atEnd data with }, fun _ => rfl⟩
  · exact ⟨_, { wrote atEnd _ with }, fun never => by cases never⟩

end Grown

namespace StoreZip

variable {fmt : Format} {z : StoreZip}

theorem head_spec (atEnd : z.pos = z.bytes.length) (name : String) :
    (∃ fail more, (z.head fmt name).1 = .error fail ∧ fail ≠ .sealing ∧
      Grown z more (z.head fmt name).2) ∨
    ((z.head fmt name).1 = .ok z.bytes.length ∧ z.bytes.length < fmt.limit ∧
      z.count + 1 < fmt.entries ∧
      Grown z (localRecord fmt 0 0 (utf8 name).length ++ utf8 name) (z.head fmt name).2) := by
  unfold head
  split_ifs with full
  · exact .inl ⟨_, _, rfl, nofun, Grown.refl atEnd⟩
  · rw [not_or, not_le, not_le] at full
    obtain ⟨more, grown, whole⟩ :=
      Grown.writeFrom atEnd (localRecord fmt 0 0 (utf8 name).length)
    cases written : z.writeFrom (localRecord fmt 0 0 (utf8 name).length) with
    | mk ok headed =>
      rw [written] at grown whole
      cases ok with
      | false => exact .inl ⟨_, more, rfl, nofun, grown⟩
      | true =>
        obtain ⟨more', grown', whole'⟩ := Grown.writeFrom grown.pos (utf8 name)
        dsimp only
        cases written' : headed.writeFrom (utf8 name) with
        | mk ok' named =>
          rw [written'] at grown' whole'
          cases ok' with
          | false => exact .inl ⟨_, _, rfl, nofun, grown.trans grown'⟩
          | true =>
            refine .inr ⟨by rw [← atEnd], atEnd ▸ full.1, full.2, ?_⟩
            rw [← whole rfl, ← whole' rfl]
            exact grown.trans grown'

theorem copy_spec (atEnd : z.pos = z.bytes.length) (blocks : List Bytes) (ending : Ending)
    (crc : BitVec 32) (size : Nat) :
    (∃ fail more, (z.copy fmt blocks ending crc size).1 = .error fail ∧ fail ≠ .sealing ∧
      Grown z more (z.copy fmt blocks ending crc size).2) ∨
    ((z.copy fmt blocks ending crc size).1 =
        .ok (resume crc (blocks.takeWhile fun block => block.length ≠ 0).flatten,
          size + (blocks.takeWhile fun block => block.length ≠ 0).flatten.length) ∧
      (size < fmt.limit →
        size + (blocks.takeWhile fun block => block.length ≠ 0).flatten.length < fmt.limit) ∧
      Grown z (blocks.takeWhile fun block => block.length ≠ 0).flatten
        (z.copy fmt blocks ending crc size).2) := by
  induction blocks generalizing crc size z with
  | nil =>
    cases ending with
    | eof =>
      refine .inr ⟨?_, id, Grown.refl atEnd⟩
      simp [copy, resume_nil]
    | stopped | fails => exact .inl ⟨_, _, rfl, nofun, Grown.refl atEnd⟩
  | cons block blocks ih =>
    unfold copy
    by_cases empty : block.length = 0
    · rw [if_pos empty, takeWhile_cons_of_neg (by simpa using empty)]
      refine .inr ⟨?_, id, Grown.refl atEnd⟩
      simp [resume_nil]
    · rw [takeWhile_cons_of_pos (by simpa using empty), flatten_cons]
      split_ifs with full
      · exact .inl ⟨_, _, rfl, nofun, Grown.refl atEnd⟩
      · obtain ⟨more, grown, whole⟩ := Grown.writeFrom atEnd block
        cases written : z.writeFrom block with
        | mk ok next =>
          rw [written] at grown whole
          cases ok with
          | false => exact .inl ⟨_, _, rfl, nofun, grown⟩
          | true =>
            have here := whole rfl
            subst here
            obtain ⟨fail, more', fails, kind, grown'⟩ | ⟨comes, fits, grown'⟩ :=
              ih grown.pos (resume crc more) (size + more.length)
            · exact .inl ⟨fail, _, fails, kind, grown.trans grown'⟩
            · refine .inr ⟨?_, fun _ => ?_, grown.trans grown'⟩
              · rw [comes, resume_append, length_append, add_assoc]
              · rw [length_append, ← add_assoc]
                exact fits (Nat.lt_of_not_le full)

/-- The sizes are written over, and the directory gets its record. -/
theorem sealEntry_spec {name : String} {before data : Bytes} (crc : BitVec 32) (size : Nat)
    (atEnd : z.pos = z.bytes.length)
    (holds : z.bytes = before ++ (localRecord fmt 0 0 (utf8 name).length ++ utf8 name) ++ data) :
    (z.sealEntry fmt name before.length crc size).1 = .error .sealing ∨
    ((z.sealEntry fmt name before.length crc size).1 = .ok () ∧
      (z.sealEntry fmt name before.length crc size).2.bytes =
        before ++ (localRecord fmt crc size (utf8 name).length ++ utf8 name ++ data) ∧
      (z.sealEntry fmt name before.length crc size).2.pos =
        (z.sealEntry fmt name before.length crc size).2.bytes.length ∧
      (z.sealEntry fmt name before.length crc size).2.central = z.central ++
        (centralRecord fmt crc size (utf8 name).length before.length ++ utf8 name) ∧
      (z.sealEntry fmt name before.length crc size).2.count = z.count + 1) := by
  have patched : patch z.bytes (before.length + 14) (le32 crc.toNat ++ le32 size ++ le32 size) =
      before ++ (localRecord fmt crc size (utf8 name).length ++ utf8 name ++ data) := by
    have split : z.bytes = (before ++ [le32 0x04034b50, le16 20, le16 utf8Names, le16 0,
        le16 fmt.time, le16 fmt.date].flatten) ++ (le32 0 ++ le32 0 ++ le32 0) ++
          (le16 (utf8 name).length ++ le16 0 ++ utf8 name ++ data) := by
      rw [holds]
      simp only [append_assoc]
      rfl
    have start : before.length + 14 = (before ++ [le32 0x04034b50, le16 20, le16 utf8Names,
        le16 0, le16 fmt.time, le16 fmt.date].flatten).length := by
      rw [length_append]
      rfl
    have sameLength : (le32 crc.toNat ++ le32 size ++ le32 size).length =
        (le32 0 ++ le32 0 ++ le32 0).length := rfl
    rw [split, start, patch_append _ _ _ sameLength, localRecord]
    simp only [flatten_cons, flatten_nil, append_assoc, append_nil]
  have sameLength : (before ++ (localRecord fmt crc size (utf8 name).length ++ utf8 name ++
      data)).length = z.pos := by
    rw [atEnd, holds]
    simp only [length_append, length_localRecord]
    omega
  unfold sealEntry writeFrom wrote
  cases z.faults with
  | nil => exact .inr ⟨rfl, patched, (patched ▸ sameLength).symm, rfl, rfl⟩
  | cons fault faults =>
    cases fault with
    | none => exact .inr ⟨rfl, patched, (patched ▸ sameLength).symm, rfl, rfl⟩
    | some kept => exact .inl rfl

end StoreZip

inductive Left (fmt : Format) (z : StoreZip) (call : Call) :
    Except Fail Unit → StoreZip → Prop
  | sealing (z' : StoreZip) : Left fmt z call (.error .sealing) z'
  | failed {z' : StoreZip} {fail : Fail} {more : Bytes} (kind : fail ≠ .sealing)
      (grown : Grown z more z') : Left fmt z call (.error fail) z'
  | added {z' : StoreZip} (start : z.bytes.length < fmt.limit)
      (size : call.data.length < fmt.limit) (count : z.count + 1 < fmt.entries)
      (bytes : z'.bytes = z.bytes ++ entryBytes fmt call.name call.data)
      (pos : z'.pos = z'.bytes.length)
      (central : z'.central = z.central ++ dirBytes fmt call.name call.data z.bytes.length)
      (counted : z'.count = z.count + 1) : Left fmt z call (.ok ()) z'

/-- An entry is sealed whose header, name and data stand at the end of the file. -/
theorem Left.of_seal {fmt : Format} {z headed filled : StoreZip} (call : Call)
    (start : z.bytes.length < fmt.limit) (size : call.data.length < fmt.limit)
    (count : z.count + 1 < fmt.entries)
    (head : Grown z (localRecord fmt 0 0 (utf8 call.name).length ++ utf8 call.name) headed)
    (data : Grown headed call.data filled) :
    Left fmt z call
      (filled.sealEntry fmt call.name z.bytes.length (crc32 call.data) call.data.length).1
      (filled.sealEntry fmt call.name z.bytes.length (crc32 call.data) call.data.length).2 := by
  have holds : filled.bytes = z.bytes ++
      (localRecord fmt 0 0 (utf8 call.name).length ++ utf8 call.name) ++ call.data := by
    rw [data.bytes, head.bytes]
  have spec := StoreZip.sealEntry_spec (crc32 call.data) call.data.length data.pos holds
  generalize filled.sealEntry fmt call.name z.bytes.length (crc32 call.data)
    call.data.length = result at spec ⊢
  obtain ⟨answer, z'⟩ := result
  obtain fails | ⟨comes, bytes, pos, central, counted⟩ := spec
  · rw [show answer = _ from fails]
    exact .sealing z'
  · rw [show answer = _ from comes]
    refine .added start size count bytes pos ?_ ?_
    · rw [central, data.central, head.central]
      rfl
    · rw [counted, data.count, head.count]

theorem Left.of_head {fmt : Format} {z : StoreZip} (call : Call) (atEnd : z.pos = z.bytes.length)
    {rest : Nat → StoreZip → Except Fail Unit × StoreZip}
    (goesOn : ∀ headed, z.bytes.length < fmt.limit → z.count + 1 < fmt.entries →
      Grown z (localRecord fmt 0 0 (utf8 call.name).length ++ utf8 call.name) headed →
        Left fmt z call (rest z.bytes.length headed).1 (rest z.bytes.length headed).2) :
    let result : Except Fail Unit × StoreZip :=
      match z.head fmt call.name with
      | (.error fail, z) => (.error fail, z)
      | (.ok start, z) => rest start z
    Left fmt z call result.1 result.2 := by
  have spec := @StoreZip.head_spec fmt z atEnd call.name
  generalize z.head fmt call.name = headed at spec ⊢
  obtain ⟨answer, z'⟩ := headed
  obtain ⟨fail, more, fails, kind, grown⟩ | ⟨comes, start, count, grown⟩ := spec
  · rw [show answer = _ from fails]
    exact .failed kind grown
  · rw [show answer = _ from comes]
    exact goesOn z' start count grown

theorem Call.left (fmt : Format) {z : StoreZip} (atEnd : z.pos = z.bytes.length) (call : Call) :
    Left fmt z call (call.apply fmt z).1 (call.apply fmt z).2 := by
  cases call with
  | bytes name data =>
    unfold apply StoreZip.addBytes
    dsimp only
    split_ifs with big
    · exact .failed nofun (Grown.refl atEnd)
    · refine Left.of_head (.bytes name data) atEnd fun headed start count grown => ?_
      obtain ⟨more, grown', whole⟩ := Grown.writeFrom grown.pos data
      generalize headed.writeFrom data = written at grown' whole ⊢
      obtain ⟨ok, filled⟩ := written
      cases ok with
      | false => exact .failed nofun (grown.trans grown')
      | true =>
        rw [whole rfl] at grown'
        rw [resume_zero]
        exact Left.of_seal (.bytes name data) start (Nat.lt_of_not_le big) count grown grown'
  | file name source =>
    refine Left.of_head (.file name source) atEnd fun headed start count grown => ?_
    split_ifs with opens
    · have empty : 0 < fmt.limit := lt_of_le_of_lt (Nat.zero_le _) start
      have spec := @StoreZip.copy_spec fmt _ grown.pos source.blocks source.ending 0#32 0
      generalize headed.copy fmt source.blocks source.ending 0#32 0 = copied at spec ⊢
      obtain ⟨answer, filled⟩ := copied
      obtain ⟨fail, more, fails, kind, grown'⟩ | ⟨comes, fits, grown'⟩ := spec
      · rw [show answer = _ from fails]
        exact .failed kind (grown.trans grown')
      · rw [show answer = _ from comes]
        rw [zero_add] at fits ⊢
        rw [resume_zero]
        exact Left.of_seal (.file name source) start (fits empty) count grown grown'
    · exact .failed nofun grown

end Kryfo.Export
