import Kryfo.Export.ZipWrites

/-!
# The archive reads back

A plain reader looks at the end record, follows the directory and takes each entry's bytes
from where its record says.  It finds the entries that were added, in order.
-/

namespace Kryfo.Export

open Library Library.Crc32 List

structure Found where
  name : String
  crc : BitVec 32
  size : Nat
  data : Bytes
deriving DecidableEq

def readEntry (file dir : Bytes) : Option Found :=
  if read32 dir = 0x02014b50 ∧ read16 (dir.drop 10) = 0 then
    let size := read32 (dir.drop 20)
    let record := file.drop (read32 (dir.drop 42))
    let data := (record.drop (30 + read16 (record.drop 26) + read16 (record.drop 28))).take size
    if read32 record = 0x04034b50 ∧ data.length = size then
      (String.fromUTF8? ⟨((dir.drop 46).take (read16 (dir.drop 28))).toArray⟩).map fun name =>
        { name, crc := BitVec.ofNat 32 (read32 (dir.drop 16)), size := read32 (dir.drop 24), data }
    else none
  else none

def readDir (file : Bytes) : Nat → Bytes → Option (List Found)
  | 0, _ => some []
  | n + 1, dir => do
      let found ← readEntry file dir
      let rest ← readDir file n
        (dir.drop (46 + read16 (dir.drop 28) + read16 (dir.drop 30) + read16 (dir.drop 32)))
      return found :: rest

/-- A plain reader: the end record is at the end and has no comment. -/
def readZip (file : Bytes) : Option (List Found) :=
  let last := file.drop (file.length - 22)
  if 22 ≤ file.length ∧ read32 last = 0x06054b50 ∧ read16 (last.drop 20) = 0 ∧
      read32 (last.drop 16) + read32 (last.drop 12) + 22 = file.length then
    readDir file (read16 (last.drop 10)) (file.drop (read32 (last.drop 16)))
  else none

def Call.found (call : Call) : Found :=
  { name := call.name, crc := crc32 call.data, size := call.data.length, data := call.data }

/-- An entry of the file: the call that added it and where it starts. -/
structure Entry where
  call : Call
  start : Nat

/-- The entry's bytes stand in the file, and its fields fit their records. -/
structure Entry.Stands (fmt : Format) (file : Bytes) (entry : Entry) : Prop where
  start : entry.start < fmt.limit
  size : entry.call.data.length < fmt.limit
  name : (utf8 entry.call.name).length ≤ 65535
  inside : entry.start ≤ file.length
  bytes : ∃ rest, file.drop entry.start = entryBytes fmt entry.call.name entry.call.data ++ rest

theorem Entry.Stands.append {fmt : Format} {file : Bytes} {entry : Entry}
    (stands : entry.Stands fmt file) (more : Bytes) : entry.Stands fmt (file ++ more) where
  start := stands.start
  size := stands.size
  name := stands.name
  inside := by
    rw [length_append]
    exact Nat.le_add_right_of_le stands.inside
  bytes := by
    obtain ⟨rest, bytes⟩ := stands.bytes
    refine ⟨rest ++ more, ?_⟩
    rw [drop_append_of_le_length stands.inside, bytes, append_assoc]

theorem fromUTF8_utf8 (name : String) : String.fromUTF8? ⟨(utf8 name).toArray⟩ = some name := by
  have bytes : (⟨(utf8 name).toArray⟩ : ByteArray) = name.toUTF8 := by
    rw [utf8]
  rw [bytes]
  simp only [String.fromUTF8?, String.toUTF8_eq_toByteArray, dif_pos name.isValidUTF8]
  rfl

section Fields

variable {b rest : Bytes} {n : Nat}

theorem read16_of_eq (small : n < 2 ^ 16) (there : b = le16 n ++ rest) : read16 b = n := by
  rw [there, read16_le16 small]

theorem read32_of_eq (small : n < 2 ^ 32) (there : b = le32 n ++ rest) : read32 b = n := by
  rw [there, read32_le32, Nat.mod_eq_of_lt small]

end Fields

theorem centralRecord_fields (fmt : Format) (crc : BitVec 32) {size nameLength start : Nat}
    (fits : size < 2 ^ 32 ∧ nameLength < 2 ^ 16 ∧ start < 2 ^ 32) (rest : Bytes) :
    let dir := centralRecord fmt crc size nameLength start ++ rest
    read32 dir = 0x02014b50 ∧ read16 (dir.drop 10) = 0 ∧ read32 (dir.drop 16) = crc.toNat ∧
      read32 (dir.drop 20) = size ∧ read32 (dir.drop 24) = size ∧
      read16 (dir.drop 28) = nameLength ∧ read16 (dir.drop 30) = 0 ∧ read16 (dir.drop 32) = 0 ∧
      read32 (dir.drop 42) = start ∧ dir.drop 46 = rest :=
  ⟨read32_of_eq (by decide) rfl, read16_of_eq (by decide) rfl, read32_of_eq crc.isLt rfl,
    read32_of_eq fits.1 rfl, read32_of_eq fits.1 rfl, read16_of_eq fits.2.1 rfl,
    read16_of_eq (by decide) rfl, read16_of_eq (by decide) rfl, read32_of_eq fits.2.2 rfl, rfl⟩

theorem localRecord_fields (fmt : Format) (crc : BitVec 32) {size nameLength : Nat}
    (fits : nameLength < 2 ^ 16) (rest : Bytes) :
    let record := localRecord fmt crc size nameLength ++ rest
    read32 record = 0x04034b50 ∧ read16 (record.drop 26) = nameLength ∧
      read16 (record.drop 28) = 0 ∧ record.drop 30 = rest :=
  ⟨read32_of_eq (by decide) rfl, read16_of_eq fits rfl, read16_of_eq (by decide) rfl, rfl⟩

theorem endRecord_fields {count dirLength dirStart : Nat}
    (fits : count < 2 ^ 16 ∧ dirLength < 2 ^ 32 ∧ dirStart < 2 ^ 32) :
    let last := endRecord count dirLength dirStart
    read32 last = 0x06054b50 ∧ read16 (last.drop 10) = count ∧
      read32 (last.drop 12) = dirLength ∧ read32 (last.drop 16) = dirStart ∧
      read16 (last.drop 20) = 0 :=
  ⟨read32_of_eq (by decide) rfl, read16_of_eq fits.1 rfl, read32_of_eq fits.2.1 rfl,
    read32_of_eq fits.2.2 rfl, read16_of_eq (by decide) (append_nil _).symm⟩

section Directory

variable {fmt : Format} {file : Bytes}

/-- The directory's record of an entry that stands in the file gives the entry. -/
theorem readEntry_dirBytes {entry : Entry} (stands : entry.Stands fmt file) (rest : Bytes) :
    readEntry file (dirBytes fmt entry.call.name entry.call.data entry.start ++ rest) =
      some entry.call.found := by
  have limit := fmt.limit_le
  have size : entry.call.data.length < 2 ^ 32 := lt_of_lt_of_le stands.size (by omega)
  have start : entry.start < 2 ^ 32 := lt_of_lt_of_le stands.start (by omega)
  have name : (utf8 entry.call.name).length < 2 ^ 16 := lt_of_le_of_lt stands.name (by decide)
  obtain ⟨after, bytes⟩ := stands.bytes
  rw [entryBytes, append_assoc, append_assoc] at bytes
  obtain ⟨localSign, localName, localExtra, localRest⟩ :=
    @localRecord_fields fmt (crc32 entry.call.data) entry.call.data.length _ name
      (utf8 entry.call.name ++ (entry.call.data ++ after))
  rw [dirBytes, append_assoc]
  obtain ⟨sign, method, crc, packed, plain, nameLength, -, -, isStart, afterRecord⟩ :=
    centralRecord_fields fmt (crc32 entry.call.data) ⟨size, name, start⟩
      (utf8 entry.call.name ++ rest)
  have data : (file.drop entry.start).drop (30 + (utf8 entry.call.name).length + 0) =
      entry.call.data ++ after := by
    rw [bytes, add_zero, ← drop_drop, localRest, drop_left]
  unfold readEntry
  rw [if_pos ⟨sign, method⟩]
  dsimp only
  rw [isStart, packed, plain, crc, nameLength, afterRecord, take_left, fromUTF8_utf8]
  rw [← bytes] at localSign localName localExtra
  rw [localName, localExtra, data, take_left, if_pos ⟨localSign, rfl⟩]
  simp [Call.found]

theorem readDir_entries {entries : List Entry} (stand : ∀ entry ∈ entries, entry.Stands fmt file)
    (rest : Bytes) :
    readDir file entries.length
      (entries.flatMap (fun entry =>
        dirBytes fmt entry.call.name entry.call.data entry.start) ++ rest) =
      some (entries.map fun entry => entry.call.found) := by
  induction entries with
  | nil => rfl
  | cons entry entries ih =>
    have stands := stand entry mem_cons_self
    have name : (utf8 entry.call.name).length < 2 ^ 16 :=
      lt_of_le_of_lt stands.name (by decide)
    have limit := fmt.limit_le
    have size : entry.call.data.length < 2 ^ 32 := lt_of_lt_of_le stands.size (by omega)
    have start : entry.start < 2 ^ 32 := lt_of_lt_of_le stands.start (by omega)
    rw [flatMap_cons, append_assoc, length_cons, readDir, readEntry_dirBytes stands]
    rw [dirBytes, append_assoc]
    obtain ⟨-, -, -, -, -, nameLength, extra, comment, -, afterRecord⟩ :=
      centralRecord_fields fmt (crc32 entry.call.data) ⟨size, name, start⟩
        (utf8 entry.call.name ++ (entries.flatMap (fun entry =>
          dirBytes fmt entry.call.name entry.call.data entry.start) ++ rest))
    rw [nameLength, extra, comment, Nat.add_zero, ← drop_drop, afterRecord,
      drop_left, ih fun entry inside => stand entry (mem_cons_of_mem _ inside)]
    rfl

end Directory

structure Good (fmt : Format) (w : Writing) (entries : List Entry) : Prop where
  pos : w.zip.pos = w.zip.bytes.length
  central : w.zip.central = entries.flatMap fun entry =>
    dirBytes fmt entry.call.name entry.call.data entry.start
  count : w.zip.count = entries.length
  few : entries.length < 2 ^ 16
  stand : ∀ entry ∈ entries, entry.Stands fmt w.zip.bytes
  added : entries.map Entry.call = w.added

theorem good_start (fmt : Format) (faults : List (Option Nat)) :
    Good fmt { zip := { faults } } [] :=
  ⟨rfl, rfl, rfl, by decide, nofun, rfl⟩

theorem Good.step {fmt : Format} {w : Writing} {entries : List Entry} (good : Good fmt w entries)
    {call : Call} (name : (utf8 call.name).length ≤ 65535)
    (unsealed : (call.apply fmt w.zip).1 ≠ .error .sealing) :
    ∃ entries, Good fmt (w.step fmt call) entries := by
  have left := call.left fmt good.pos
  have zip : (w.step fmt call).zip = (call.apply fmt w.zip).2 := rfl
  have added : (w.step fmt call).added = w.added ++
      if (call.apply fmt w.zip).1.isOk then [call] else [] := by
    unfold Writing.added Writing.step
    rw [filterMap_append]
    cases (call.apply fmt w.zip).1 <;> rfl
  generalize call.apply fmt w.zip = result at left unsealed zip added
  obtain ⟨answer, z'⟩ := result
  cases left with
  | sealing => exact absurd rfl unsealed
  | failed kind grown =>
    refine ⟨entries, ?_, ?_, ?_, good.few, ?_, ?_⟩
    · rw [zip]
      exact grown.pos
    · rw [zip]
      exact grown.central.trans good.central
    · rw [zip]
      exact grown.count.trans good.count
    · intro entry inside
      rw [zip]
      rw [grown.bytes]
      exact (good.stand entry inside).append _
    · rw [added]
      exact good.added.trans (append_nil _).symm
  | added start size count bytes pos central counted =>
    refine ⟨entries ++ [⟨call, w.zip.bytes.length⟩], ?_, ?_, ?_, ?_, ?_, ?_⟩
    · rw [zip]
      exact pos
    · rw [zip]
      rw [central, good.central]
      simp
    · rw [zip]
      rw [counted, good.count, length_append]
      rfl
    · have few := fmt.entries_le
      rw [length_append, ← good.count, length_singleton]
      omega
    · intro entry inside
      rw [zip]
      rw [bytes]
      obtain before | here := mem_append.mp inside
      · exact (good.stand entry before).append _
      · rw [mem_singleton.mp here]
        refine ⟨start, size, name, ?_, [], ?_⟩
        · rw [length_append]
          exact Nat.le_add_right _ _
        · rw [drop_left, append_nil]
    · rw [added, map_append, good.added]
      rfl

theorem calls_subset_run (fmt : Format) (calls : List Call) (w : Writing) :
    w.calls ⊆ (calls.foldl (Writing.step fmt) w).calls := by
  induction calls generalizing w with
  | nil => exact .refl _
  | cons call calls ih =>
    exact List.Subset.trans (subset_append_left _ _) (ih (w.step fmt call))

theorem Good.run {fmt : Format} {calls : List Call} {w : Writing} {entries : List Entry}
    (good : Good fmt w entries) (names : ∀ call ∈ calls, (utf8 call.name).length ≤ 65535)
    (unsealed : ∀ done ∈ (calls.foldl (Writing.step fmt) w).calls, done.2 ≠ .error .sealing) :
    ∃ entries, Good fmt (calls.foldl (Writing.step fmt) w) entries := by
  induction calls generalizing w entries with
  | nil => exact ⟨entries, good⟩
  | cons call calls ih =>
    have done : (call, (call.apply fmt w.zip).1) ∈ (w.step fmt call).calls :=
      mem_append_right _ (mem_singleton.mpr rfl)
    obtain ⟨entries', good'⟩ := good.step (names call mem_cons_self)
      (unsealed _ (calls_subset_run fmt calls (w.step fmt call) done))
    exact ih good' (fun call inside => names call (mem_cons_of_mem _ inside)) unsealed

theorem Good.close {fmt : Format} {w : Writing} {entries : List Entry}
    (good : Good fmt w entries) {z : StoreZip} (closes : w.zip.close fmt = (true, z)) :
    readZip z.bytes = some (w.added.map Call.found) := by
  have limit := fmt.limit_le
  unfold StoreZip.close at closes
  split_ifs at closes with full
  · cases closes
  obtain ⟨more, grown, whole⟩ := Grown.writeFrom good.pos w.zip.central
  generalize w.zip.writeFrom w.zip.central = written at grown whole closes
  obtain ⟨ok, listed⟩ := written
  cases ok with
  | false => cases closes
  | true =>
    obtain ⟨more', grown', whole'⟩ := Grown.writeFrom grown.pos
      (endRecord w.zip.count w.zip.central.length w.zip.pos)
    rw [show StoreZip.writeFrom _ listed = _ from closes] at grown' whole'
    rw [whole rfl] at grown
    rw [whole' rfl] at grown'
    have bytes := (grown.trans grown').bytes
    have fits : w.zip.count < 2 ^ 16 ∧ w.zip.central.length < 2 ^ 32 ∧ w.zip.pos < 2 ^ 32 := by
      refine ⟨?_, by omega, by omega⟩
      rw [good.count]
      exact good.few
    obtain ⟨sign, count, dirLength, dirStart, comment⟩ := endRecord_fields fits
    have ends : (endRecord w.zip.count w.zip.central.length w.zip.pos).length = 22 := rfl
    have length : z.bytes.length = w.zip.pos + w.zip.central.length + 22 := by
      rw [bytes, length_append, length_append, ends, good.pos, add_assoc]
    have last : z.bytes.drop (z.bytes.length - 22) =
        endRecord w.zip.count w.zip.central.length w.zip.pos := by
      have before : z.bytes.length - 22 = (w.zip.bytes ++ w.zip.central).length := by
        rw [length, length_append, good.pos, Nat.add_sub_cancel]
      rw [before, bytes, ← append_assoc, drop_left]
    have dir : z.bytes.drop w.zip.pos = w.zip.central ++
        endRecord w.zip.count w.zip.central.length w.zip.pos := by
      rw [bytes, good.pos, drop_left]
    unfold readZip
    rw [last, if_pos ⟨by omega, sign, comment, by rw [dirStart, dirLength, length]⟩, count,
      dirStart, dir, good.count, good.central, readDir_entries, ← good.added, map_map]
    · rfl
    · intro entry inside
      rw [bytes]
      exact (good.stand entry inside).append _

/-- Whatever is added and whatever fails, but for a failure while an entry's sizes are written
over, an archive that is closed reads back as the entries that were added, and a checksum
taken over blocks is that of the whole. -/
theorem archive_reads_back (fmt : Format) (faults : List (Option Nat)) (calls : List Call)
    (names : ∀ call ∈ calls, (utf8 call.name).length ≤ 65535)
    (unsealed : ∀ done ∈ (calls.foldl (Writing.step fmt) { zip := { faults } }).calls,
      done.2 ≠ .error .sealing)
    (z : StoreZip)
    (closes : (calls.foldl (Writing.step fmt) { zip := { faults } }).zip.close fmt = (true, z)) :
    readZip z.bytes =
        some ((calls.foldl (Writing.step fmt) { zip := { faults } }).added.map Call.found) ∧
      ∀ blocks : List Bytes, blocks.foldl resume 0#32 = crc32 blocks.flatten := by
  obtain ⟨entries, good⟩ := (good_start fmt faults).run names unsealed
  refine ⟨good.close closes, fun blocks => ?_⟩
  rw [foldl_resume, resume_zero]

def plainFormat : Format :=
  { time := 0, date := 33, limit_le := le_rfl, entries_le := le_rfl }

def threeCalls : List Call :=
  [.bytes "a" [1, 2], .file "b" ⟨false, [], .eof⟩, .file "c" ⟨true, [[3], [4, 5]], .eof⟩]

theorem archive_reads_back_three :
    readZip ((threeCalls.foldl (Writing.step plainFormat) { zip := {} }).zip.close
        plainFormat).2.bytes =
      some [⟨"a", crc32 [1, 2], 2, [1, 2]⟩, ⟨"c", crc32 [3, 4, 5], 3, [3, 4, 5]⟩] := by
  have names : ∀ call ∈ threeCalls, (utf8 call.name).length ≤ 65535 := by decide
  have results : (threeCalls.foldl (Writing.step plainFormat) { zip := {} }).calls.map Prod.snd =
      [.ok (), .error .source, .ok ()] := by decide
  have closes : ((threeCalls.foldl (Writing.step plainFormat) { zip := {} }).zip.close
      plainFormat).1 = true := by decide
  have added : (threeCalls.foldl (Writing.step plainFormat) { zip := {} }).added =
      [.bytes "a" [1, 2], .file "c" ⟨true, [[3], [4, 5]], .eof⟩] := by decide
  have reads := (archive_reads_back plainFormat [] threeCalls names (fun done inside fails => by
    have member := mem_map_of_mem (f := Prod.snd) inside
    rw [results, fails] at member
    revert member
    decide) _ (Prod.ext closes rfl)).1
  rw [added] at reads
  exact reads

/-- The file fails while an entry's sizes are written over: the next write goes into the
entry, and nothing reads back. -/
theorem archive_lost :
    let w := [Call.bytes "a" (List.replicate 10 1)].foldl (Writing.step plainFormat)
      { zip := { faults := [none, none, none, some 0] } }
    w.added = [] ∧ (w.zip.close plainFormat).1 = true ∧
      readZip (w.zip.close plainFormat).2.bytes = none := by
  decide +kernel

end Kryfo.Export
