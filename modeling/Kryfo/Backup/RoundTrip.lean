import Kryfo.Backup.Headers
import Kryfo.Library.Attempt

/-!
# A backup comes back as it was, or not at all

The reader goes over a file exactly as the records lie in it.  With a cipher that
opens only what a backup sealed, no other file than that backup is accepted.
-/

namespace Kryfo.Backup

open Library List

variable {cipher : ChunkCipher} {x : Bytes} {chunk : Nat}

def Opens (cipher : ChunkCipher) (index : Nat) (rs : List Record) : Prop :=
  ∀ k r, rs[k]? = some r →
    cipher.opened (index + k) r.1 (cipher.sealed (index + k) r.1 r.2) = some r.2

/-- What opens under an index and a type was sealed under them, among the records. -/
def Ideal (cipher : ChunkCipher) (records : List Record) : Prop :=
  ∀ index type c plain, cipher.opened index type c = some plain →
    records[index]? = some (type, plain) ∧ c = cipher.sealed index type plain

variable {index : Nat}

theorem Opens.append {rs ss : List Record} (opens : Opens cipher index (rs ++ ss)) :
    Opens cipher index rs ∧ Opens cipher (index + rs.length) ss := by
  constructor
  · intro k r found
    have bound : k < rs.length := (List.getElem?_eq_some_iff.mp found).1
    exact opens k r (by rwa [getElem?_append_left bound])
  · intro k r found
    rw [add_assoc]
    refine opens (rs.length + k) r ?_
    rwa [getElem?_append_right (Nat.le_add_right _ _), Nat.add_sub_cancel_left]

theorem Opens.cons {r : Record} {rs : List Record} (opens : Opens cipher index (r :: rs)) :
    cipher.opened index r.1 (cipher.sealed index r.1 r.2) = some r.2 ∧
      Opens cipher (index + 1) rs :=
  ⟨opens 0 r rfl, (show Opens cipher index ([r] ++ rs) from opens).append.2⟩

variable {pos : Nat}

theorem nextChunk_eq_ok {h : Rec} :
    nextChunk x pos = .ok h ↔ header x pos = .ok h ∧ h.type = recChunk := by
  simp only [nextChunk, bind_eq_ok, guard_eq_ok, not_not, pure_eq_ok]
  constructor
  · rintro ⟨h', read, type, rfl⟩
    exact ⟨read, type⟩
  · rintro ⟨read, type⟩
    exact ⟨h, read, type, rfl⟩

theorem openRecord_eq_ok {type : Nat} {c plain : Bytes} :
    openRecord cipher index type c = .ok plain ↔ cipher.opened index type c = some plain := by
  unfold openRecord
  cases cipher.opened index type c <;> simp

theorem chunkPlain_eq_ok {h : Rec} {n : Int} {plain : Bytes} :
    chunkPlain cipher x index h n = .ok plain ↔
      cipher.opened index recChunk (sealedAt x h) = some plain ∧ (plain.length : Int) = n := by
  simp only [chunkPlain, bind_eq_ok, guard_eq_ok, openRecord_eq_ok, not_not, pure_eq_ok]
  constructor
  · rintro ⟨plain', opened, size, rfl⟩
    exact ⟨opened, size⟩
  · rintro ⟨opened, size⟩
    exact ⟨plain, opened, size, rfl⟩

variable {c : Cursor}

theorem readChunks_succ_eq_ok {chunk : Int} {records : Nat} {left : Int} {got : Bytes}
    {result : Cursor × Bytes} :
    readChunks cipher x chunk true (records + 1) left c got = .ok result ↔
      ∃ h plain, header x c.pos = .ok h ∧ h.type = recChunk ∧
        cipher.opened c.index recChunk (sealedAt x h) = some plain ∧
        (plain.length : Int) = (if left < chunk then left else chunk) ∧
        readChunks cipher x chunk true records
          (left - if left < chunk then left else chunk) ⟨h.start + h.len, c.index + 1⟩
          (got ++ plain) = .ok result := by
  simp only [readChunks, bind_eq_ok, nextChunk_eq_ok, if_true, chunkPlain_eq_ok]
  constructor
  · rintro ⟨h, ⟨read, type⟩, plain, ⟨opened, size⟩, rest⟩
    exact ⟨h, plain, read, type, opened, size, rest⟩
  · rintro ⟨h, plain, read, type, opened, size, rest⟩
    exact ⟨h, ⟨read, type⟩, plain, ⟨opened, size⟩, rest⟩

theorem length_take_eq (chunk : Nat) (data : Bytes) :
    ((data.take chunk).length : Int) =
      if (data.length : Int) < chunk then (data.length : Int) else chunk := by
  rw [length_take]
  split <;> omega

theorem length_drop_eq (chunk : Nat) (data : Bytes) :
    ((data.drop chunk).length : Int) =
      data.length - if (data.length : Int) < chunk then (data.length : Int) else chunk := by
  rw [length_drop]
  split <;> omega

theorem readChunks_of_spans (positive : 0 < chunk) {data got : Bytes} {last : Nat}
    (spans : Spans cipher x index (chunkRecords chunk data) pos last)
    (opens : Opens cipher index (chunkRecords chunk data)) :
    readChunks cipher x chunk true (chunkRecords chunk data).length data.length ⟨pos, index⟩ got =
      .ok (⟨last, index + (chunkRecords chunk data).length⟩, got ++ data) := by
  induction data using pieces.induct chunk generalizing index pos got with
  | case1 data none =>
    obtain rfl : data = [] := none.resolve_left (by omega)
    rw [chunkRecords_nil] at spans ⊢
    obtain rfl : pos = last := spans
    rw [append_nil]
    rfl
  | case2 data some ih =>
    have some := (not_or.mp some).2
    rw [chunkRecords_of_ne_nil positive some] at spans opens ⊢
    obtain ⟨h, read, type, body, rest⟩ := spans
    obtain ⟨opened, opensRest⟩ := opens.cons
    rw [length_cons, readChunks_succ_eq_ok]
    refine ⟨h, data.take chunk, read, type, ?_, length_take_eq chunk data, ?_⟩
    · rw [body]
      exact opened
    · rw [← length_drop_eq, ih rest opensRest, append_assoc, take_append_drop,
        add_assoc index, add_comm 1]

theorem spans_of_readChunks (positive : 0 < chunk) {records rest : List Record}
    (ideal : Ideal cipher records) {data got out : Bytes}
    (here : records.drop index = chunkRecords chunk data ++ rest)
    (read : readChunks cipher x chunk true (chunkRecords chunk data).length data.length
      ⟨pos, index⟩ got = .ok (c, out)) :
    Spans cipher x index (chunkRecords chunk data) pos c.pos ∧
      c.index = index + (chunkRecords chunk data).length ∧ out = got ++ data := by
  induction data using pieces.induct chunk generalizing index pos got with
  | case1 data none =>
    obtain rfl : data = [] := none.resolve_left (by omega)
    rw [chunkRecords_nil] at read ⊢
    obtain ⟨rfl, rfl⟩ := Prod.mk.inj (Except.ok.inj read)
    exact ⟨rfl, rfl, (append_nil got).symm⟩
  | case2 data some ih =>
    have some := (not_or.mp some).2
    rw [chunkRecords_of_ne_nil positive some] at here read ⊢
    rw [length_cons, readChunks_succ_eq_ok] at read
    obtain ⟨h, plain, header, type, opened, size, read⟩ := read
    obtain ⟨sealedHere, body⟩ := ideal _ _ _ _ opened
    have first : records[index]? = Option.some (recChunk, data.take chunk) := by
      have := congrArg (·[0]?) here
      simpa [getElem?_drop] using this
    obtain rfl : plain = data.take chunk := by
      have := Option.some.inj (sealedHere.symm.trans first)
      exact congrArg Prod.snd this
    have next : records.drop (index + 1) = chunkRecords chunk (data.drop chunk) ++ rest := by
      rw [← drop_drop, here]
      rfl
    rw [← length_drop_eq] at read
    obtain ⟨spans, indexed, written⟩ := ih next read
    refine ⟨⟨h, header, type, body, spans⟩, ?_, ?_⟩
    · rw [length_cons]
      omega
    · rw [written, append_assoc, take_append_drop]

theorem records_toNat (positive : 0 < chunk) (data : Bytes) :
    (((data.length : Int) + chunk - 1).tdiv chunk).toNat = (chunkRecords chunk data).length := by
  have whole : (data.length : Int) + chunk - 1 = ((data.length + chunk - 1 : Nat) : Int) := by
    omega
  rw [whole, ← Int.ofNat_tdiv, Int.toNat_natCast, length_chunkRecords positive]

def restored (dest : Name → Name) (files : List (Name × Bytes)) : List (Name × Bytes) :=
  files.map fun f => (dest f.1, f.2)

variable {out : List (Name × Bytes)}

theorem readFiles_cons_eq_ok (positive : 0 < chunk) {dest : Name → Name} {f : Name × Bytes}
    {fs : List BackupFileEntry} {last : Cursor} :
    readFiles cipher x chunk (fun n => some (dest n)) (entryOf f :: fs) c = .ok (last, out) ↔
      ∃ mid got files,
        readChunks cipher x chunk true (chunkRecords chunk f.2).length f.2.length c [] =
          .ok (mid, got) ∧
        readFiles cipher x chunk (fun n => some (dest n)) fs mid = .ok (last, files) ∧
        out = (dest f.1, got) :: files := by
  have nonzero : ¬(chunk : Int) = 0 := by omega
  have count : (((entryOf f).size + chunk - 1).tdiv chunk).toNat =
      (chunkRecords chunk f.2).length := records_toNat positive f.2
  simp only [readFiles, if_neg nonzero, bind_eq_ok, pure_eq_ok, count, Prod.exists, Prod.mk.injEq]
  constructor
  · rintro ⟨mid, got, first, last', files, rest, rfl, rfl⟩
    exact ⟨mid, got, files, first, rest, rfl⟩
  · rintro ⟨mid, got, files, first, rest, rfl⟩
    exact ⟨mid, got, first, last, files, rest, rfl, rfl⟩

theorem readFiles_of_spans (positive : 0 < chunk) {dest : Name → Name}
    {files : List (Name × Bytes)} {last : Nat}
    (spans : Spans cipher x index (fileRecords chunk files) pos last)
    (opens : Opens cipher index (fileRecords chunk files)) :
    readFiles cipher x chunk (fun n => some (dest n)) (files.map entryOf) ⟨pos, index⟩ =
      .ok (⟨last, index + (fileRecords chunk files).length⟩, restored dest files) := by
  induction files generalizing index pos with
  | nil =>
    obtain rfl : pos = last := spans
    rfl
  | cons f files ih =>
    have split : fileRecords chunk (f :: files) =
        chunkRecords chunk f.2 ++ fileRecords chunk files := rfl
    rw [split] at spans opens ⊢
    obtain ⟨mid, first, rest⟩ := spans_append.mp spans
    obtain ⟨opensFirst, opensRest⟩ := opens.append
    rw [map_cons, readFiles_cons_eq_ok positive, length_append, ← add_assoc]
    exact ⟨_, _, _, readChunks_of_spans positive first opensFirst, ih rest opensRest, rfl⟩

theorem spans_of_readFiles (positive : 0 < chunk) {records rest : List Record}
    (ideal : Ideal cipher records) {dest : Name → Name} {files : List (Name × Bytes)}
    (here : records.drop index = fileRecords chunk files ++ rest)
    (read : readFiles cipher x chunk (fun n => some (dest n)) (files.map entryOf) ⟨pos, index⟩ = .ok (c, out)) :
    Spans cipher x index (fileRecords chunk files) pos c.pos ∧
      c.index = index + (fileRecords chunk files).length ∧ out = restored dest files := by
  induction files generalizing index pos out with
  | nil =>
    obtain ⟨rfl, rfl⟩ := Prod.mk.inj (Except.ok.inj read)
    exact ⟨rfl, rfl, rfl⟩
  | cons f files ih =>
    have split : fileRecords chunk (f :: files) =
        chunkRecords chunk f.2 ++ fileRecords chunk files := rfl
    rw [split, append_assoc] at here
    rw [map_cons, readFiles_cons_eq_ok positive] at read
    obtain ⟨mid, got, others, first, read, rfl⟩ := read
    obtain ⟨spansFirst, indexed, rfl⟩ := spans_of_readChunks positive ideal here first
    have next : records.drop mid.index = fileRecords chunk files ++ rest := by
      rw [indexed, ← drop_drop, here, drop_left]
    obtain ⟨spansRest, ended, rfl⟩ := ih next read
    rw [indexed] at spansRest ended
    refine ⟨?_, ?_, rfl⟩
    · rw [split, spans_append]
      exact ⟨mid.pos, spansFirst, spansRest⟩
    · rw [ended, split, length_append, add_assoc]

theorem readEnd_eq_ok :
    readEnd cipher x c = .ok () ↔ ∃ h plain, header x c.pos = .ok h ∧ h.type = recEnd ∧
        cipher.opened c.index recEnd (sealedAt x h) = some plain ∧
        h.start + h.len = x.length := by
  have ends (h : Rec) : ((if h.start + h.len ≠ x.length then
      throw (Thrown.damaged "bytes after the end") else pure PUnit.unit : Except Thrown Unit) =
        .ok ()) ↔ h.start + h.len = x.length := by
    by_cases whole : h.start + h.len = x.length
    · simp [pure, Except.pure]
    · simp [whole]
  simp only [readEnd, bind_eq_ok, guard_eq_ok, openRecord_eq_ok, ends, not_not]
  constructor
  · rintro ⟨h, read, type, plain, opened, whole⟩
    exact ⟨h, plain, read, type, opened, whole⟩
  · rintro ⟨h, plain, read, type, opened, whole⟩
    exact ⟨h, read, type, plain, opened, whole⟩

theorem Codec.decoded_eq_ok (codec : Codec) {plain : Bytes} {j : Json} :
    codec.decoded plain = .ok j ↔ codec.decode plain = some j := by
  unfold Codec.decoded
  cases codec.decode plain <;> simp

theorem readBackupManifest_eq_ok {codec : Codec} {result : Int × List BackupFileEntry} :
    readBackupManifest cipher codec x = .ok result ↔
      ∃ h plain j, header x 24 = .ok h ∧ h.type = recManifest ∧
        cipher.opened 0 recManifest (sealedAt x h) = some plain ∧
        codec.decode plain = some j ∧ checkManifest j = .ok result := by
  simp only [readBackupManifest, bind_eq_ok, guard_eq_ok, openRecord_eq_ok,
    codec.decoded_eq_ok, not_not]
  constructor
  · rintro ⟨h, read, type, plain, opened, j, decoded, checked⟩
    exact ⟨h, plain, j, read, type, opened, decoded, checked⟩
  · rintro ⟨h, plain, j, read, type, opened, decoded, checked⟩
    exact ⟨h, read, type, plain, opened, j, decoded, checked⟩

theorem extractBackup_eq_ok {codec : Codec} {want : Name → Option Name} :
    extractBackup cipher codec x want = .ok out ↔
      ∃ chunk entries h c, readBackupManifest cipher codec x = .ok (chunk, entries) ∧
        header x 24 = .ok h ∧
        readFiles cipher x chunk want entries ⟨h.start + h.len, 1⟩ = .ok (c, out) ∧
        readEnd cipher x c = .ok () := by
  simp only [extractBackup, bind_eq_ok, pure_eq_ok, Prod.exists]
  constructor
  · rintro ⟨chunk, entries, manifest, h, read, c, files, got, _, ended, rfl⟩
    exact ⟨chunk, entries, h, c, manifest, read, got, ended⟩
  · rintro ⟨chunk, entries, h, c, manifest, read, got, ended⟩
    exact ⟨chunk, entries, manifest, h, read, c, out, got, (), ended, rfl⟩

section

variable {codec : Codec} {salt : Bytes} {manifest : Manifest} {disk : Name → Option Bytes}
  {files : List (Name × Bytes)} {dest : Name → Name}

theorem Asked.extractBackup_of_spans (asked : Asked salt manifest disk chunk files)
    (decoded : codec.decode (codec.encode (manifestJson manifest chunk)) =
      some (manifestJson manifest chunk))
    (opens : Opens cipher 0 (backupRecords codec manifest chunk files))
    (spans : Spans cipher x 0 (backupRecords codec manifest chunk files) 24 x.length) :
    extractBackup cipher codec x (fun n => some (dest n)) = .ok (restored dest files) := by
  obtain ⟨h, read, type, body, spans⟩ := spans
  obtain ⟨openedFirst, opens⟩ := opens.cons
  obtain ⟨mid, spansFiles, h', read', type', body', whole⟩ := spans_append.mp spans
  obtain ⟨opensFiles, opensEnd⟩ := opens.append
  rw [extractBackup_eq_ok]
  refine ⟨chunk, files.map entryOf, h, _, ?_, read,
    readFiles_of_spans asked.positive spansFiles opensFiles, ?_⟩
  · rw [readBackupManifest_eq_ok]
    refine ⟨h, _, _, read, type, ?_, decoded, asked.checkManifest_eq⟩
    rw [body]
    exact openedFirst
  · rw [readEnd_eq_ok]
    refine ⟨h', [], read', type', ?_, whole⟩
    rw [body']
    exact opensEnd.cons.1

theorem Asked.spans_of_extractBackup (asked : Asked salt manifest disk chunk files)
    (decoded : codec.decode (codec.encode (manifestJson manifest chunk)) = some (manifestJson manifest chunk))
    (ideal : Ideal cipher (backupRecords codec manifest chunk files))
    (read : extractBackup cipher codec x (fun n => some (dest n)) = .ok out) :
    Spans cipher x 0 (backupRecords codec manifest chunk files) 24 x.length ∧
      out = restored dest files := by
  obtain ⟨chunk', entries, h, c, manifestRead, header, filesRead, ended⟩ :=
    extractBackup_eq_ok.mp read
  obtain ⟨h', plain, j, header', type, opened, decoded', checked⟩ :=
    readBackupManifest_eq_ok.mp manifestRead
  obtain rfl : h' = h := Except.ok.inj (header'.symm.trans header)
  obtain ⟨first, body⟩ := ideal _ _ _ _ opened
  obtain rfl : codec.encode (manifestJson manifest chunk) = plain :=
    congrArg Prod.snd (Option.some.inj first)
  obtain rfl : manifestJson manifest chunk = j := Option.some.inj (decoded.symm.trans decoded')
  obtain ⟨rfl, rfl⟩ := Prod.mk.inj (Except.ok.inj (asked.checkManifest_eq.symm.trans checked))
  obtain ⟨spans, indexed, rfl⟩ := spans_of_readFiles asked.positive ideal rfl filesRead
  obtain ⟨last, empty, headerEnd, typeEnd, openedEnd, whole⟩ := readEnd_eq_ok.mp ended
  obtain ⟨sealedEnd, bodyEnd⟩ := ideal _ _ _ _ openedEnd
  have atEnd : (backupRecords codec manifest chunk files)[c.index]? = some (recEnd, []) := by
    rw [indexed, backupRecords, add_comm, getElem?_cons_succ,
      getElem?_append_right le_rfl, Nat.sub_self]
    rfl
  obtain rfl : [] = empty :=
    congrArg Prod.snd (Option.some.inj (atEnd.symm.trans sealedEnd))
  rw [indexed] at bodyEnd
  refine ⟨⟨h', header, type, body, spans_append.mpr ⟨c.pos, spans, ?_⟩⟩, rfl⟩
  exact ⟨last, headerEnd, typeEnd, bodyEnd, whole⟩

end

end Kryfo.Backup
