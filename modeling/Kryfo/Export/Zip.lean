import Kryfo.Library.Crc32
import Kryfo.Library.LittleEndian
import Kryfo.Library.Patch

/-!
# A zip of stored entries

Each entry's header goes first, with its sizes left at zero, then the data, and then the sizes are
written over.  The directory is kept aside until the archive is closed.
-/

namespace Kryfo.Export

open Library Library.Crc32

/-- The time an archive's entries carry, and the limits, zip's own or smaller ones for tests. -/
structure Format where
  time : Nat
  date : Nat
  limit : Nat := 0xFFFFFFFF
  entries : Nat := 0xFFFF
  limit_le : limit ≤ 0xFFFFFFFF
  entries_le : entries ≤ 0xFFFF

/-- `ZipTooLarge`, `ZipStopped`, an error of the file that is added, one of the archive, or one of
the archive while the sizes are written over. -/
inductive Fail where
  | tooLarge
  | stopped
  | source
  | write
  | sealing
deriving DecidableEq

def utf8 (name : String) : Bytes := name.toUTF8.data.toList

def utf8Names : Nat := 0x0800

def localRecord (fmt : Format) (crc : BitVec 32) (size nameLength : Nat) : Bytes :=
  [le32 0x04034b50, le16 20, le16 utf8Names, le16 0, le16 fmt.time, le16 fmt.date,
    le32 crc.toNat, le32 size, le32 size, le16 nameLength, le16 0].flatten

def centralRecord (fmt : Format) (crc : BitVec 32) (size nameLength start : Nat) : Bytes :=
  [le32 0x02014b50, le16 20, le16 20, le16 utf8Names, le16 0, le16 fmt.time, le16 fmt.date,
    le32 crc.toNat, le32 size, le32 size, le16 nameLength, le16 0, le16 0, le16 0, le16 0,
    le32 0, le32 start].flatten

def endRecord (count dirLength dirStart : Nat) : Bytes :=
  [le32 0x06054b50, le16 0, le16 0, le16 count, le16 count, le32 dirLength, le32 dirStart,
    le16 0].flatten

/-- `StoreZip`, with the file it writes. -/
structure StoreZip where
  bytes : Bytes := []
  pos : Nat := 0
  central : Bytes := []
  count : Nat := 0
  /-- What becomes of the writes to come: one that fails leaves so many bytes written. -/
  faults : List (Option Nat) := []
deriving DecidableEq

namespace StoreZip

def wrote (data : Bytes) (z : StoreZip) : StoreZip :=
  { z with bytes := patch z.bytes z.pos data, pos := z.pos + data.length }

def writeFrom (data : Bytes) (z : StoreZip) : Bool × StoreZip :=
  match z.faults with
  | [] => (true, z.wrote data)
  | none :: faults => (true, { z.wrote data with faults })
  | some kept :: faults => (false, { z.wrote (data.take kept) with faults })

variable (fmt : Format)

def head (name : String) (z : StoreZip) : Except Fail Nat × StoreZip :=
  if fmt.limit ≤ z.pos ∨ fmt.entries ≤ z.count + 1 then (.error .tooLarge, z)
  else
    match z.writeFrom (localRecord fmt 0 0 (utf8 name).length) with
    | (false, z) => (.error .write, z)
    | (true, headed) =>
      match headed.writeFrom (utf8 name) with
      | (false, z) => (.error .write, z)
      | (true, named) => (.ok z.pos, named)

/-- `_seal`. -/
def sealEntry (name : String) (start : Nat) (crc : BitVec 32) (size : Nat) (z : StoreZip) :
    Except Fail Unit × StoreZip :=
  match { z with pos := start + 14 }.writeFrom (le32 crc.toNat ++ le32 size ++ le32 size) with
  | (false, z) => (.error .sealing, z)
  | (true, patched) =>
    (.ok (), { patched with
      pos := z.pos
      central := z.central ++ (centralRecord fmt crc size (utf8 name).length start ++ utf8 name)
      count := z.count + 1 })

def addBytes (name : String) (data : Bytes) (z : StoreZip) : Except Fail Unit × StoreZip :=
  if fmt.limit ≤ data.length then (.error .tooLarge, z)
  else
    match z.head fmt name with
    | (.error fail, z) => (.error fail, z)
    | (.ok start, z) =>
      match z.writeFrom data with
      | (false, z) => (.error .write, z)
      | (true, z) => z.sealEntry fmt name start (resume 0#32 data) data.length

inductive Ending where
  | eof
  | stopped
  | fails
deriving DecidableEq

/-- A file that is added: whether it opens, and what reading it gives. -/
structure Source where
  opens : Bool
  blocks : List Bytes
  ending : Ending
deriving DecidableEq

def copy : List Bytes → Ending → BitVec 32 → Nat → StoreZip →
    Except Fail (BitVec 32 × Nat) × StoreZip
  | [], .eof, crc, size, z => (.ok (crc, size), z)
  | [], .stopped, _, _, z => (.error .stopped, z)
  | [], .fails, _, _, z => (.error .source, z)
  | block :: blocks, ending, crc, size, z =>
    if block.length = 0 then (.ok (crc, size), z)
    else if fmt.limit ≤ size + block.length then (.error .tooLarge, z)
    else
      match z.writeFrom block with
      | (false, z) => (.error .write, z)
      | (true, z) => copy blocks ending (resume crc block) (size + block.length) z

def addFile (name : String) (source : Source) (z : StoreZip) : Except Fail Unit × StoreZip :=
  match z.head fmt name with
  | (.error fail, z) => (.error fail, z)
  | (.ok start, z) =>
    if source.opens then
      match z.copy fmt source.blocks source.ending 0#32 0 with
      | (.error fail, z) => (.error fail, z)
      | (.ok (crc, size), z) => z.sealEntry fmt name start crc size
    else (.error .source, z)

/-- `close`: whether it came through, and the file. -/
def close (z : StoreZip) : Bool × StoreZip :=
  if fmt.limit ≤ z.pos ∨ fmt.limit ≤ z.central.length then (false, z)
  else
    match z.writeFrom z.central with
    | (false, z) => (false, z)
    | (true, listed) => listed.writeFrom (endRecord z.count z.central.length z.pos)

end StoreZip

inductive Call where
  | bytes (name : String) (data : Bytes)
  | file (name : String) (source : StoreZip.Source)
deriving DecidableEq

namespace Call

def name : Call → String
  | bytes name _ => name
  | file name _ => name

def data : Call → Bytes
  | bytes _ data => data
  | file _ source => (source.blocks.takeWhile fun block => block.length ≠ 0).flatten

def apply (fmt : Format) (z : StoreZip) : Call → Except Fail Unit × StoreZip
  | bytes name data => z.addBytes fmt name data
  | file name source => z.addFile fmt name source

end Call

/-- An archive that is being written: the calls so far with what became of them. -/
structure Writing where
  zip : StoreZip
  calls : List (Call × Except Fail Unit) := []

namespace Writing

def step (fmt : Format) (w : Writing) (call : Call) : Writing :=
  { zip := (call.apply fmt w.zip).2, calls := w.calls ++ [(call, (call.apply fmt w.zip).1)] }

def added (w : Writing) : List Call :=
  w.calls.filterMap fun done => if done.2.isOk then some done.1 else none

end Writing

end Kryfo.Export
