import Kryfo.Backup.Stream

/-!
# The records of a backup

What the writer puts out is the frames of a list of records, and what a header
says of the bytes it was read from.
-/

namespace Kryfo.Backup

open Library List

variable {cipher : ChunkCipher}

def frames (cipher : ChunkCipher) : Nat → List Record → Bytes
  | _, [] => []
  | index, r :: rs => frame cipher index r ++ frames cipher (index + 1) rs

theorem frames_append (cipher : ChunkCipher) (index : Nat) (rs ss : List Record) :
    frames cipher index (rs ++ ss) =
      frames cipher index rs ++ frames cipher (index + rs.length) ss := by
  induction rs generalizing index with
  | nil => rfl
  | cons r rs ih =>
    rw [cons_append, frames, frames, ih, append_assoc, length_cons]
    congr 3
    omega

theorem foldl_put (rs : List Record) (o : Out) :
    rs.foldl (put cipher) o = ⟨o.bytes ++ frames cipher o.index rs, o.index + rs.length⟩ := by
  induction rs generalizing o with
  | nil => simp [frames]
  | cons r rs ih =>
    rw [foldl_cons, ih]
    simp only [put, frames, append_assoc, length_cons, Out.mk.injEq, true_and]
    omega

def chunkRecords (chunk : Nat) (data : Bytes) : List Record :=
  (pieces chunk data).map fun plain => (recChunk, plain)

theorem length_chunkRecords {chunk : Nat} (positive : 0 < chunk) (data : Bytes) :
    (chunkRecords chunk data).length = (data.length + chunk - 1) / chunk := by
  rw [chunkRecords, length_map, length_pieces positive]

theorem chunkRecords_nil (chunk : Nat) : chunkRecords chunk [] = [] := by
  rw [chunkRecords, pieces_nil, map_nil]

theorem chunkRecords_of_ne_nil {chunk : Nat} (positive : 0 < chunk) {data : Bytes}
    (some : data ≠ []) :
    chunkRecords chunk data =
      (recChunk, data.take chunk) :: chunkRecords chunk (data.drop chunk) := by
  rw [chunkRecords, pieces_of_ne_nil positive some, map_cons, chunkRecords]

theorem writeFile_eq {chunk : Nat} (positive : 0 < chunk) (name : Name) {left : Nat}
    {data : Bytes} (enough : left ≤ data.length) (o : Out) :
    writeFile cipher chunk name left data o =
      .ok ((chunkRecords chunk (data.take left)).foldl (put cipher) o) := by
  induction left using Nat.strong_induction_on generalizing data o with
  | _ left ih =>
    rw [writeFile]
    by_cases done : left = 0
    · rw [if_pos done, done, take_zero, chunkRecords_nil, foldl_nil]
    · have some : data.take left ≠ [] := by
        intro none
        have := congrArg List.length none
        rw [length_take, length_nil] at this
        omega
      have same : (data.take left).take chunk = data.take (min left chunk) := by
        rw [take_take, Nat.min_comm]
      have rest : (data.take left).drop chunk =
          (data.drop (min left chunk)).take (left - min left chunk) := by
        rw [drop_take]
        by_cases last : left ≤ chunk
        · rw [Nat.min_eq_left last, Nat.sub_self, take_zero, Nat.sub_eq_zero_of_le last, take_zero]
        · rw [Nat.min_eq_right (by omega)]
      rw [if_neg done, if_neg (by omega), if_neg (by omega),
        ih _ (by omega) (by rw [length_drop]; omega),
        chunkRecords_of_ne_nil positive some, foldl_cons, same, rest]

def entryOf (f : Name × Bytes) : BackupFileEntry := ⟨f.1, f.2.length⟩

def fileRecords (chunk : Nat) (files : List (Name × Bytes)) : List Record :=
  files.flatMap fun f => chunkRecords chunk f.2

theorem writeFiles_eq {chunk : Nat} (positive : 0 < chunk) {disk : Name → Option Bytes}
    {files : List (Name × Bytes)} (held : ∀ f ∈ files, disk f.1 = some f.2) (o : Out) :
    writeFiles cipher chunk disk (files.map entryOf) o =
      .ok ((fileRecords chunk files).foldl (put cipher) o) := by
  induction files generalizing o with
  | nil => rfl
  | cons f files ih =>
    have found : disk (entryOf f).name = some f.2 := held f mem_cons_self
    have whole : (entryOf f).size.toNat = f.2.length := rfl
    rw [map_cons, writeFiles, found]
    simp only [whole]
    rw [writeFile_eq positive _ le_rfl, take_length]
    simp only
    rw [ih fun g inside => held g (mem_cons_of_mem f inside), ← foldl_append]
    rfl

theorem fromJson_toJson (f : BackupFileEntry) :
    BackupFileEntry.fromJson f.toJson = .ok f := rfl

theorem fromJsons_toJson (files : List BackupFileEntry) :
    fromJsons (files.map BackupFileEntry.toJson) = .ok files := by
  induction files with
  | nil => rfl
  | cons f files ih =>
    rw [map_cons, fromJsons, ih]
    rfl

theorem checkFiles_toJson {files : List BackupFileEntry}
    (safe : ∀ f ∈ files, safeBackupName f.name = true) :
    checkFiles (files.map BackupFileEntry.toJson) = .ok files := by
  induction files with
  | nil => rfl
  | cons f files ih =>
    rw [map_cons, checkFiles, fromJson_toJson, ih fun g inside => safe g (mem_cons_of_mem f inside)]
    simp only [safe f mem_cons_self]
    rfl

/-- A call of the writer that names these files, with what the disk holds of them. -/
structure Asked (salt : Bytes) (manifest : Manifest) (disk : Name → Option Bytes) (chunk : Nat)
    (files : List (Name × Bytes)) : Prop where
  salted : salt.length = 16
  chunked : chunkOf manifest = .ok (chunk : Int)
  positive : 1 ≤ chunk
  listed : manifest.lookup "files".toList =
    some (.arr ((files.map entryOf).map BackupFileEntry.toJson))
  safe : ∀ f ∈ files, safeBackupName f.1 = true
  held : ∀ f ∈ files, disk f.1 = some f.2

def manifestJson (manifest : Manifest) (chunk : Nat) : Json :=
  .obj (filled manifest chunk).entries

def backupRecords (codec : Codec) (manifest : Manifest) (chunk : Nat)
    (files : List (Name × Bytes)) : List Record :=
  (recManifest, codec.encode (manifestJson manifest chunk)) ::
    (fileRecords chunk files ++ [(recEnd, [])])

variable {codec : Codec} {salt : Bytes} {manifest : Manifest} {disk : Name → Option Bytes}
  {chunk : Nat} {files : List (Name × Bytes)}

theorem Asked.lookup_files (asked : Asked salt manifest disk chunk files) :
    (filled manifest chunk).lookup "files".toList =
      some (.arr ((files.map entryOf).map BackupFileEntry.toJson)) := by
  rw [filled, Dict.lookup_set, if_neg (by decide), asked.listed]

theorem lookup_chunk (manifest : Manifest) (chunk : Nat) :
    (filled manifest chunk).lookup "chunk".toList = some (.num chunk) := by
  rw [filled, Dict.lookup_set, if_pos rfl]

theorem Asked.entries_safe (asked : Asked salt manifest disk chunk files) :
    ∀ f ∈ files.map entryOf, safeBackupName f.name = true := by
  intro f inside
  obtain ⟨g, listed, rfl⟩ := mem_map.mp inside
  exact asked.safe g listed

theorem Asked.checkManifest_eq (asked : Asked salt manifest disk chunk files) :
    checkManifest (manifestJson manifest chunk) = .ok ((chunk : Int), files.map entryOf) := by
  simp only [manifestJson, checkManifest, Dict.lookup_entries, asked.lookup_files, lookup_chunk,
    checkFiles_toJson asked.entries_safe]
  rfl

theorem Asked.writeBackup_eq (asked : Asked salt manifest disk chunk files) :
    writeBackup cipher codec salt manifest disk =
      .ok (kBackupMagic ++ salt ++ frames cipher 0 (backupRecords codec manifest chunk files)) := by
  have unsafeNone : ((files.map entryOf).find? fun f => !safeBackupName f.name) = none := by
    rw [find?_eq_none]
    intro f inside
    rw [asked.entries_safe f inside]
    decide
  have listed : filesOf ((filled manifest chunk).lookup "files".toList) =
      .ok (files.map entryOf) := by
    rw [asked.lookup_files]
    exact fromJsons_toJson _
  have written (o : Out) : writeFiles cipher chunk disk (files.map entryOf) o =
      .ok ((fileRecords chunk files).foldl (put cipher) o) :=
    writeFiles_eq asked.positive asked.held o
  simp only [writeBackup, asked.salted, asked.chunked,
    bind, Except.bind, listed, unsafeNone, Int.toNat_natCast, written]
  simp only [foldl_put, put, backupRecords, frames, frames_append, append_assoc, append_nil]
  congr 7

end Kryfo.Backup
