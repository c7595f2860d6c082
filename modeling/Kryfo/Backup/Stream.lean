import Kryfo.Library.Bytes
import Kryfo.Library.Dict
import Kryfo.Library.Json

/-!
# The streamed backup file

The magic, the salt and sealed records: the manifest, the chunks of each file, and an empty
record that says the file is whole.
-/

namespace Kryfo.Backup

open Library

abbrev Name := List Char

def kBackupMagic : Bytes := [75, 82, 89, 70, 79, 66, 75, 50]

def kBackupChunk : Int := 1024 * 1024

def recManifest : Nat := 1

def recChunk : Nat := 2

def recEnd : Nat := 3

/-- What the writer and the reader throw.  `never` stands for a loop that does not end, the rest for
an exception. -/
inductive Thrown where
  | argument (text : String)
  | damaged (why : String)
  | locked
  | format
  | cast
  | range
  | division
  | missing (name : Name)
  | never
  deriving DecidableEq

structure ChunkCipher where
  sealed : Nat → Nat → Bytes → Bytes
  opened : Nat → Nat → Bytes → Option Bytes

/-- The text of a manifest, and what a text decodes to. -/
structure Codec where
  encode : Json → Bytes
  decode : Bytes → Option Json

def Codec.decoded (codec : Codec) (plain : Bytes) : Except Thrown Json :=
  match codec.decode plain with
  | none => .error .format
  | some j => .ok j

structure BackupFileEntry where
  name : Name
  size : Int
  deriving DecidableEq

def BackupFileEntry.toJson (f : BackupFileEntry) : Json :=
  .obj [("name".toList, .str f.name), ("size".toList, .num f.size)]

def BackupFileEntry.fromJson (j : Json) : Except Thrown BackupFileEntry :=
  match (j.field "name".toList).bind Json.text?, (j.field "size".toList).bind Json.num? with
  | some name, some size => .ok ⟨name, size⟩
  | _, _ => .error .cast

def fromJsons : List Json → Except Thrown (List BackupFileEntry)
  | [] => .ok []
  | j :: js =>
    match BackupFileEntry.fromJson j with
    | .error e => .error e
    | .ok f => (fromJsons js).map (f :: ·)

/-- A name that could only ever land inside the restore root. -/
def safeBackupName (n : Name) : Bool :=
  !(n.isEmpty || n.head? == some '/' || n.contains '\\') &&
    !(n.any fun c => c.toNat < 32) &&
    (n.splitOn '/').all fun seg => !(seg.isEmpty || seg == ['.'] || seg == ['.', '.'])

/-- What the writer has put out, and the index of the next record. -/
structure Out where
  bytes : Bytes
  index : Nat

abbrev Record := Nat × Bytes

def frame (cipher : ChunkCipher) (index : Nat) (r : Record) : Bytes :=
  UInt8.ofNat r.1 :: be32 (cipher.sealed index r.1 r.2).length ++ cipher.sealed index r.1 r.2

def put (cipher : ChunkCipher) (o : Out) (r : Record) : Out where
  bytes := o.bytes ++ frame cipher o.index r
  index := o.index + 1

/-- The loop over one file, with `data` what is left to read of it. -/
def writeFile (cipher : ChunkCipher) (chunk : Nat) (name : Name) (left : Nat) (data : Bytes)
    (o : Out) : Except Thrown Out :=
  if left = 0 then .ok o
  else if chunk = 0 then .error .never
  else if data.length < min left chunk then
    .error (.damaged (String.ofList name ++ " shorter than listed"))
  else
    writeFile cipher chunk name (left - min left chunk) (data.drop (min left chunk))
      (put cipher o (recChunk, data.take (min left chunk)))
termination_by left

def writeFiles (cipher : ChunkCipher) (chunk : Nat) (disk : Name → Option Bytes) :
    List BackupFileEntry → Out → Except Thrown Out
  | [], o => .ok o
  | f :: fs, o =>
    match disk f.name with
    | none => .error (.missing f.name)
    | some data =>
      match writeFile cipher chunk f.name f.size.toNat data o with
      | .error e => .error e
      | .ok o => writeFiles cipher chunk disk fs o

abbrev Manifest := Dict Name Json

def chunkOf (manifest : Manifest) : Except Thrown Int :=
  match manifest.lookup "chunk".toList with
  | none => .ok kBackupChunk
  | some .null => .ok kBackupChunk
  | some (.num chunk) => .ok chunk
  | some _ => .error .cast

def filesOf (files : Option Json) : Except Thrown (List BackupFileEntry) :=
  match files with
  | some (.arr items) => fromJsons items
  | _ => .error .cast

def filled (manifest : Manifest) (chunk : Int) : Manifest :=
  manifest.set "chunk".toList (.num chunk)

def writeBackup (cipher : ChunkCipher) (codec : Codec) (salt : Bytes) (manifest : Manifest)
    (disk : Name → Option Bytes) : Except Thrown Bytes := do
  if salt.length ≠ 16 then throw (.argument "salt must be 16 bytes")
  let chunk ← chunkOf manifest
  let files ← filesOf ((filled manifest chunk).lookup "files".toList)
  match files.find? fun f => !safeBackupName f.name with
  | some f => throw (.argument ("bad name " ++ String.ofList f.name))
  | none =>
    let o := put cipher ⟨kBackupMagic ++ salt, 0⟩
      (recManifest, codec.encode (.obj (filled manifest chunk).entries))
    if chunk < 0 then throw .range
    let o ← writeFiles cipher chunk.toNat disk files o
    return (put cipher o (recEnd, [])).bytes

/-- A record of a file: its type, its length and where its sealed bytes start. -/
structure Rec where
  type : Nat
  len : Nat
  start : Nat

def header (x : Bytes) (pos : Nat) : Except Thrown Rec :=
  let h := (x.drop pos).take 5
  let type := (h.getD 0 0).toNat
  let len := u32 (h.drop 1)
  if pos + 5 > x.length then .error (.damaged "ends inside a record header")
  else if h.length < 5 then .error (.damaged "short header")
  else if type < recManifest ∨ recEnd < type then
    .error (.damaged ("unknown record type " ++ toString type))
  else if pos + 5 + len > x.length then .error (.damaged "record runs past the end")
  else .ok ⟨type, len, pos + 5⟩

def sealedAt (x : Bytes) (r : Rec) : Bytes := (x.drop r.start).take r.len

def openRecord (cipher : ChunkCipher) (index type : Nat) (c : Bytes) : Except Thrown Bytes :=
  match cipher.opened index type c with
  | none => .error .locked
  | some plain => .ok plain

/-- The entries of a decoded manifest, each checked as it is read. -/
def checkFiles : List Json → Except Thrown (List BackupFileEntry)
  | [] => .ok []
  | j :: js =>
    match BackupFileEntry.fromJson j with
    | .error e => .error e
    | .ok f =>
      if !safeBackupName f.name then .error (.damaged ("bad name " ++ String.ofList f.name))
      else (checkFiles js).map (f :: ·)

def checkManifest (j : Json) : Except Thrown (Int × List BackupFileEntry) :=
  match j with
  | .obj fields =>
    match fields.lookup "files".toList, fields.lookup "chunk".toList with
    | some (.arr items), some (.num chunk) => (checkFiles items).map fun files => (chunk, files)
    | _, _ => .error (.damaged "manifest fields")
  | _ => .error (.damaged "manifest shape")

def readBackupManifest (cipher : ChunkCipher) (codec : Codec) (x : Bytes) :
    Except Thrown (Int × List BackupFileEntry) := do
  let r ← header x 24
  if r.type ≠ recManifest then throw (.damaged "no manifest first")
  let plain ← openRecord cipher 0 recManifest (sealedAt x r)
  let j ← codec.decoded plain
  checkManifest j

/-- Where the reader is: the position of the next record and its index. -/
structure Cursor where
  pos : Nat
  index : Nat

def nextChunk (x : Bytes) (pos : Nat) : Except Thrown Rec := do
  let r ← header x pos
  if r.type ≠ recChunk then throw (.damaged "chunk expected")
  return r

def chunkPlain (cipher : ChunkCipher) (x : Bytes) (index : Nat) (r : Rec) (n : Int) :
    Except Thrown Bytes := do
  let plain ← openRecord cipher index recChunk (sealedAt x r)
  if (plain.length : Int) ≠ n then throw (.damaged "chunk size")
  return plain

/-- The loop over the records of one file; those of a file that is not wanted are passed over. -/
def readChunks (cipher : ChunkCipher) (x : Bytes) (chunk : Int) (wanted : Bool) :
    Nat → Int → Cursor → Bytes → Except Thrown (Cursor × Bytes)
  | 0, _, c, got => .ok (c, got)
  | records + 1, left, c, got => do
      let r ← nextChunk x c.pos
      let n := if left < chunk then left else chunk
      let plain ← if wanted then chunkPlain cipher x c.index r n else pure []
      readChunks cipher x chunk wanted records (left - n) ⟨r.start + r.len, c.index + 1⟩
        (got ++ plain)

def readFiles (cipher : ChunkCipher) (x : Bytes) (chunk : Int) (want : Name → Option Name) :
    List BackupFileEntry → Cursor → Except Thrown (Cursor × List (Name × Bytes))
  | [], c => .ok (c, [])
  | f :: fs, c => do
      if chunk = 0 then throw .division
      let records := ((f.size + chunk - 1).tdiv chunk).toNat
      let (c, got) ← readChunks cipher x chunk (want f.name).isSome records f.size c []
      let (c, files) ← readFiles cipher x chunk want fs c
      return (c, ((want f.name).map fun dest => (dest, got)).toList ++ files)

def readEnd (cipher : ChunkCipher) (x : Bytes) (c : Cursor) : Except Thrown Unit := do
  let r ← header x c.pos
  if r.type ≠ recEnd then throw (.damaged "no end record")
  let _ ← openRecord cipher c.index recEnd (sealedAt x r)
  if r.start + r.len ≠ x.length then throw (.damaged "bytes after the end")

def extractBackup (cipher : ChunkCipher) (codec : Codec) (x : Bytes)
    (want : Name → Option Name) : Except Thrown (List (Name × Bytes)) := do
  let (chunk, entries) ← readBackupManifest cipher codec x
  let r ← header x 24
  let (c, files) ← readFiles cipher x chunk want entries ⟨r.start + r.len, 1⟩
  readEnd cipher x c
  return files

end Kryfo.Backup
