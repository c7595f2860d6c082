import Kryfo.Backup.RoundTrip

/-!
# The round trip of a backup

What the writer puts out is read back byte for byte as long as every sealed length
fits the four bytes of its header, and nothing but that backup is accepted.
-/

namespace Kryfo.Backup

open Library List

variable {codec : Codec} {salt : Bytes} {manifest : Manifest} {disk : Name → Option Bytes}
  {chunk : Nat} {files : List (Name × Bytes)} {cipher : ChunkCipher}

theorem mem_fileRecords {r : Record} (inside : r ∈ fileRecords chunk files) :
    ∃ f ∈ files, ∃ plain ∈ pieces chunk f.2, r = (recChunk, plain) := by
  obtain ⟨f, listed, piece⟩ := mem_flatMap.mp inside
  obtain ⟨plain, cut, rfl⟩ := mem_map.mp piece
  exact ⟨f, listed, plain, cut, rfl⟩

theorem mem_backupRecords {r : Record} (inside : r ∈ backupRecords codec manifest chunk files) :
    r = (recManifest, codec.encode (manifestJson manifest chunk)) ∨
      (∃ f ∈ files, ∃ plain ∈ pieces chunk f.2, r = (recChunk, plain)) ∨ r = (recEnd, []) := by
  rcases mem_cons.mp inside with first | inside
  · exact .inl first
  · rcases mem_append.mp inside with chunked | ended
    · exact .inr (.inl (mem_fileRecords chunked))
    · exact .inr (.inr (mem_singleton.mp ended))

theorem typed_of_mem_backupRecords {r : Record}
    (inside : r ∈ backupRecords codec manifest chunk files) : Typed r := by
  rcases mem_backupRecords inside with rfl | ⟨_, _, _, _, rfl⟩ | rfl
  all_goals simp [Typed, recManifest, recChunk, recEnd]

theorem length_le_of_mem_backupRecords {r : Record}
    (inside : r ∈ backupRecords codec manifest chunk files) :
    r.2.length ≤ max (codec.encode (manifestJson manifest chunk)).length chunk := by
  rcases mem_backupRecords inside with rfl | ⟨f, _, plain, cut, rfl⟩ | rfl
  · exact Nat.le_max_left _ _
  · exact (length_le_of_mem_pieces cut).trans (Nat.le_max_right _ _)
  · exact Nat.zero_le _

def Short (cipher : ChunkCipher) (records : List Record) : Prop :=
  ∀ k r, records[k]? = some r → (cipher.sealed k r.1 r.2).length < 2 ^ 32

theorem drop_header (salted : salt.length = 16) (body : Bytes) :
    (kBackupMagic ++ salt ++ body).drop 24 = body := by
  refine drop_left' ?_
  rw [length_append, salted]
  rfl

theorem extractBackup_writeBackup (salt : Bytes) (manifest : Manifest) (disk : Name → Option Bytes)
    (chunk : Nat) (files : List (Name × Bytes)) (cipher : ChunkCipher) (codec : Codec)
    (dest : Name → Name) (asked : Asked salt manifest disk chunk files)
    (decoded : codec.decode (codec.encode (manifestJson manifest chunk)) =
      some (manifestJson manifest chunk)) :
    ∃ w, writeBackup cipher codec salt manifest disk = .ok w ∧
      (Opens cipher 0 (backupRecords codec manifest chunk files) →
        Short cipher (backupRecords codec manifest chunk files) →
        extractBackup cipher codec w (fun n => some (dest n)) = .ok (restored dest files)) ∧
      (Ideal cipher (backupRecords codec manifest chunk files) →
        ∀ x out, extractBackup cipher codec x (fun n => some (dest n)) = .ok out →
          out = restored dest files ∧ x.drop 24 = w.drop 24) := by
  refine ⟨_, asked.writeBackup_eq, ?_, ?_⟩
  · intro opens short
    refine asked.extractBackup_of_spans decoded opens ?_
    have here : (kBackupMagic ++ salt ++
        frames cipher 0 (backupRecords codec manifest chunk files)).drop 24 =
          frames cipher 0 (backupRecords codec manifest chunk files) ++ [] := by
      rw [append_nil, drop_header asked.salted]
    have shortHere : ∀ k r, (backupRecords codec manifest chunk files)[k]? = some r →
        (cipher.sealed (0 + k) r.1 r.2).length < 2 ^ 32 := by
      intro k r found
      rw [zero_add]
      exact short k r found
    obtain ⟨last, spans, ended⟩ :=
      spans_frames (fun _ inside => typed_of_mem_backupRecords inside) shortHere here
    have inside : 24 ≤ (kBackupMagic ++ salt ++
        frames cipher 0 (backupRecords codec manifest chunk files)).length := by
      rw [length_append, length_append, asked.salted]
      exact Nat.le_add_right 24 _
    have reached := drop_eq_nil_iff.mp ended
    obtain rfl := le_antisymm (spans.le inside) reached
    exact spans
  · intro ideal x out read
    obtain ⟨spans, same⟩ := asked.spans_of_extractBackup decoded ideal read
    refine ⟨same, ?_⟩
    rw [spans.drop_eq, drop_length, append_nil, drop_header asked.salted]

/-- A cipher that opens what it finds in a table of sealed records. -/
def tableCipher (records : List Record) : ChunkCipher where
  sealed index type plain := UInt8.ofNat index :: UInt8.ofNat type :: plain
  opened index type c :=
    match records[index]? with
    | none => none
    | some (type', plain) =>
      if type' = type ∧ c = UInt8.ofNat index :: UInt8.ofNat type :: plain then some plain
      else none

theorem opens_tableCipher (records : List Record) : Opens (tableCipher records) 0 records := by
  intro k r found
  simp [tableCipher, found]

theorem ideal_tableCipher (records : List Record) : Ideal (tableCipher records) records := by
  intro index type c plain opened
  simp only [tableCipher] at opened
  split at opened
  · exact absurd opened (by simp)
  · rename_i type' plain' found
    split_ifs at opened with same
    obtain rfl := Option.some.inj opened
    obtain ⟨rfl, rfl⟩ := same
    exact ⟨found, rfl⟩

theorem short_tableCipher {records : List Record}
    (small : ∀ r ∈ records, r.2.length + 2 < 2 ^ 32) : Short (tableCipher records) records :=
  fun _ r found => small r (mem_of_getElem? found)

def plainManifest (chunk : Nat) (files : List (Name × Bytes)) : Manifest where
  entries := [("chunk".toList, .num chunk),
    ("files".toList, .arr ((files.map entryOf).map BackupFileEntry.toJson))]
  nodup := by
    change ["chunk".toList, "files".toList].Nodup
    decide

theorem asked_plainManifest (positive : 1 ≤ chunk) (safe : ∀ f ∈ files, safeBackupName f.1 = true)
    (held : ∀ f ∈ files, disk f.1 = some f.2) :
    Asked (List.replicate 16 0) (plainManifest chunk files) disk chunk files where
  salted := rfl
  chunked := rfl
  positive := positive
  listed := rfl
  safe := safe
  held := held

def oneText (j : Json) : Codec where
  encode _ := []
  decode _ := some j

def threeFiles : List (Name × Bytes) := [(['a'], [1, 2, 3]), (['b'], []), (['c'], [4, 5])]

def threeManifest : Manifest := plainManifest 2 threeFiles

def threeCodec : Codec := oneText (manifestJson threeManifest 2)

def threeCipher : ChunkCipher := tableCipher (backupRecords threeCodec threeManifest 2 threeFiles)

theorem short_threeCipher :
    Short threeCipher (backupRecords threeCodec threeManifest 2 threeFiles) := by
  refine short_tableCipher ?_
  intro r inside
  have small := length_le_of_mem_backupRecords inside
  have empty : threeCodec.encode (manifestJson threeManifest 2) = [] := rfl
  rw [empty, length_nil] at small
  omega

theorem extractBackup_writeBackup_threeFiles :
    ∃ w, writeBackup threeCipher threeCodec (List.replicate 16 0) threeManifest
        (fun n => threeFiles.lookup n) = .ok w ∧
      extractBackup threeCipher threeCodec w (fun n => some n) = .ok threeFiles ∧
      ∀ x out, extractBackup threeCipher threeCodec x (fun n => some n) = .ok out →
        out = threeFiles ∧ x.drop 24 = w.drop 24 := by
  have asked : Asked (List.replicate 16 0) threeManifest (fun n => threeFiles.lookup n) 2
      threeFiles := asked_plainManifest (by decide) (by decide) (by decide)
  obtain ⟨w, wrote, forth, back⟩ :=
    extractBackup_writeBackup _ _ _ _ _ threeCipher threeCodec id asked rfl
  exact ⟨w, wrote, forth (opens_tableCipher _) short_threeCipher, back (ideal_tableCipher _)⟩

theorem Asked.unread_of_long (asked : Asked salt manifest disk chunk files)
    (decoded : codec.decode (codec.encode (manifestJson manifest chunk)) =
      some (manifestJson manifest chunk))
    (ideal : Ideal cipher (backupRecords codec manifest chunk files)) {k : Nat} {r : Record}
    (found : (backupRecords codec manifest chunk files)[k]? = some r)
    (long : 2 ^ 32 ≤ (cipher.sealed k r.1 r.2).length) (dest : Name → Name) (x : Bytes)
    (out : List (Name × Bytes)) :
    extractBackup cipher codec x (fun n => some (dest n)) ≠ .ok out := by
  intro read
  have short := (asked.spans_of_extractBackup decoded ideal read).1.short found
  rw [zero_add] at short
  omega

theorem not_extractBackup_writeBackup :
    ∃ (salt : Bytes) (manifest : Manifest) (disk : Name → Option Bytes) (chunk : Nat)
      (files : List (Name × Bytes)) (cipher : ChunkCipher) (codec : Codec) (w : Bytes),
      Asked salt manifest disk chunk files ∧
      codec.decode (codec.encode (manifestJson manifest chunk)) =
        some (manifestJson manifest chunk) ∧
      Opens cipher 0 (backupRecords codec manifest chunk files) ∧
      Ideal cipher (backupRecords codec manifest chunk files) ∧
      writeBackup cipher codec salt manifest disk = .ok w ∧
      ∀ out, extractBackup cipher codec w (fun n => some n) ≠ .ok out := by
  obtain ⟨data, size⟩ : ∃ data : Bytes, data.length = 2 ^ 32 :=
    ⟨List.replicate (2 ^ 32) 0, length_replicate⟩
  have asked : Asked (List.replicate 16 0) (plainManifest (2 ^ 32) [(['a'], data)])
      (fun _ => some data) (2 ^ 32) [(['a'], data)] := by
    refine asked_plainManifest (by decide) ?_ ?_
    · intro f inside
      obtain rfl := mem_singleton.mp inside
      change safeBackupName ['a'] = true
      decide
    · intro f inside
      obtain rfl := mem_singleton.mp inside
      rfl
  generalize plainManifest (2 ^ 32) [(['a'], data)] = manifest at asked
  have nonempty : data ≠ [] := by
    rintro rfl
    simp at size
  have found : (backupRecords (oneText (manifestJson manifest (2 ^ 32))) manifest (2 ^ 32)
      [(['a'], data)])[1]? = some (recChunk, data) := by
    have first : fileRecords (2 ^ 32) [(['a'], data)] =
        (recChunk, data.take (2 ^ 32)) :: chunkRecords (2 ^ 32) (data.drop (2 ^ 32)) := by
      rw [fileRecords, flatMap_singleton, chunkRecords_of_ne_nil (by decide) nonempty]
    rw [backupRecords, first, ← size, take_length]
    rfl
  refine ⟨_, manifest, _, 2 ^ 32, _, tableCipher _, oneText (manifestJson manifest (2 ^ 32)), _,
    asked, rfl, opens_tableCipher _, ideal_tableCipher _, asked.writeBackup_eq, ?_⟩
  intro out
  refine asked.unread_of_long rfl (ideal_tableCipher _) found ?_ id _ out
  rw [← size]
  exact Nat.le_add_right data.length 2

end Kryfo.Backup
