import Mathlib.Data.List.Nodup
import Kryfo.Bridges.Lines

/-!
# Sorted bridge lines are in normal form

A line that was taken apart and written again is taken apart to the same line, so what sorting
accepts, it accepts again as it stands.
-/

namespace Kryfo.Bridges

open Library List

variable {net : Net}

/-! ## Words -/

theorem splitHostPort_eq_none {text : Text} (plain : ':' ∉ text) : splitHostPort text = none := by
  unfold splitHostPort
  rw [if_pos plain]

theorem trimSpace_eq_self {first last : Char} {text : Text} (left : text.head? = some first)
    (right : text.getLast? = some last) (solid : isSpace first = false)
    (solid' : isSpace last = false) : trimSpace text = text := by
  have front : text.dropWhile isSpace = text := dropWhile_of_head (by simpa [left] using solid)
  have back : text.reverse.dropWhile isSpace = text.reverse :=
    dropWhile_of_head (by simpa [right] using solid')
  rw [trimSpace, front, back, reverse_reverse]

theorem unwords_ends {words : List Word} (some_ : words ≠ []) :
    ∃ first last, (unwords words).head? = some first ∧ (unwords words).getLast? = some last ∧
      isSpace first = false ∧ isSpace last = false := by
  have ends (word : Word) : ∃ first last, word.val.head? = some first ∧
      word.val.getLast? = some last ∧ isSpace first = false ∧ isSpace last = false := by
    obtain ⟨text, nonempty, solid⟩ := word
    exact ⟨text.head nonempty, text.getLast nonempty, head?_eq_some_head nonempty,
      getLast?_eq_some_getLast nonempty, solid _ (head_mem nonempty),
      solid _ (getLast_mem nonempty)⟩
  fun_induction unwords words with
  | case1 => exact absurd rfl some_
  | case2 word => exact ends word
  | case3 word words more ih =>
    obtain ⟨first, _, head, -, solid, -⟩ := ends word
    obtain ⟨_, last, -, tail, -, solid'⟩ := ih more
    refine ⟨first, last, ?_, ?_, solid, solid'⟩
    · rw [head?_append, head]
      rfl
    · rw [getLast?_append, getLast?_cons, tail]
      rfl

theorem trimSpace_unwords {words : List Word} (some_ : words ≠ []) :
    trimSpace (unwords words) = unwords words := by
  obtain ⟨first, last, head, tail, solid, solid'⟩ := unwords_ends some_
  exact trimSpace_eq_self head tail solid solid'

theorem trimSpace_word (word : Word) : trimSpace word.val = word.val :=
  trimSpace_unwords (cons_ne_nil word [])

theorem not_mem_unwords (words : List Word) : '\n' ∉ unwords words := by
  have plain (word : Word) : '\n' ∉ word.val := fun member => by
    have := word.2.2 _ member
    revert this
    decide
  fun_induction unwords words with
  | case1 => exact not_mem_nil
  | case2 word => exact plain word
  | case3 word words more ih =>
    rw [mem_append, mem_cons]
    rintro (here | same | later)
    · exact plain word here
    · revert same
      decide
    · exact ih later

/-! ## Lines -/

theorem toLower_name (t : Transport) : net.toLower t.name = t.name := by
  cases t <;> rfl

theorem ofName_name (t : Transport) : Transport.ofName t.name = some t := by
  cases t <;> rfl

theorem splitHostPort_of_addrError {addr : Text} (fine : net.addrError addr = none) :
    ∃ host port, splitHostPort addr = some (host, port) := by
  unfold Net.addrError at fine
  split at fine
  · cases fine
  next host port split => exact ⟨host, port, split⟩

theorem parseFingerprint_append {fp : Option Word} {kv : List Word}
    (fpFine : ∀ w ∈ fp, IsFingerprint w.val) (kvFine : ∀ w ∈ kv, isArgument w.val = true) :
    parseFingerprint (fp.toList ++ kv) = .ok (⟨fp, fpFine⟩, kv) := by
  cases fp with
  | some w =>
    obtain ⟨hex, upper⟩ := fpFine w rfl
    have plain : '=' ∉ w.val := fun member => by
      rw [isFingerprint, Bool.and_eq_true, all_eq_true] at hex
      have := hex.2 _ member
      revert this
      decide
    simp [parseFingerprint, plain, hex, upper]
  | none =>
    cases kv with
    | nil => rfl
    | cons w kv =>
      have argument := kvFine w mem_cons_self
      rw [isArgument, Bool.and_eq_true, decide_eq_true_eq] at argument
      simp [parseFingerprint, argument.1]

theorem parseNamed_words (b : Line net) :
    parseNamed net (b.transport.word :: b.addr :: (b.fp.toList ++ b.kv)) = .ok b := by
  have named : Transport.ofName (net.toLower b.transport.word.val) = some b.transport := by
    rw [Transport.word, toLower_name, ofName_name]
  unfold parseNamed
  dsimp only
  rw [named]
  dsimp only
  split
  next error wrong => rw [b.addr_fine] at wrong; cases wrong
  next fine =>
    rw [parseFingerprint_append b.fp_fine b.kv_fine]
    dsimp only
    rw [dif_pos b.kv_fine]

theorem withTransport_words (b : Line net) :
    withTransport b.words = b.transport.word :: b.addr :: (b.fp.toList ++ b.kv) := by
  have plain : ':' ∉ b.transport.name := by
    cases b.transport <;> decide
  unfold Line.words
  split
  next vanilla =>
    obtain ⟨host, port, split⟩ := splitHostPort_of_addrError b.addr_fine
    simp [withTransport, split, vanilla]
  next =>
    have named : splitHostPort b.transport.word.val = none := splitHostPort_eq_none plain
    simp [withTransport, named]

theorem words_ne_nil (b : Line net) : b.words ≠ [] := by
  unfold Line.words
  split <;> simp

/-- A line written with its words is taken apart to the same line. -/
theorem parseBridgeLine_words (b : Line net) : parseBridgeLine net (unwords b.words) = .ok b := by
  rw [parseBridgeLine, trimSpace_unwords (words_ne_nil b), fields_unwords, withTransport_words,
    parseNamed_words]

variable {b : Line net}

theorem get_eq_none {key : String} : b.get key = none ↔ ∀ w ∈ b.kv, argKey w.val ≠ key.toList := by
  simp [Line.get]

def isToken (w : Word) : Bool := (ptTokenArg ++ ['=']).isPrefixOf w.val

theorem argKey_of_isToken {w : Word} (token : isToken w = true) : argKey w.val = ptTokenArg := by
  obtain ⟨rest, eq⟩ := isPrefixOf_iff_prefix.mp token
  rw [← eq]
  rfl

theorem normalKV_eq (b : Line net) :
    b.normalKV = b.kv.filter (fun w => !isToken w) ++
      if b.transport = .obfs4 ∧ b.get "iat-mode" = none then
        [⟨"iat-mode=0".toList, by decide⟩] else [] := by
  unfold Line.normalKV
  split
  · rfl
  · rw [append_nil]
    rfl

theorem normal_normal (b : Line net) : b.normal.normal = b.normal := by
  have kept : b.normal.normalKV = b.normalKV := by
    have clean : b.normalKV.filter (fun w => !isToken w) = b.normalKV := by
      refine filter_eq_self.mpr fun w member => ?_
      rw [normalKV_eq] at member
      rcases mem_append.mp member with inside | added
      · exact (mem_filter.mp inside).2
      · split at added
        · obtain rfl := mem_singleton.mp added
          decide
        · cases added
    have filled : ¬(b.normal.transport = .obfs4 ∧ b.normal.get "iat-mode" = none) := by
      rintro ⟨obfs4, missing⟩
      have absent := get_eq_none.mp missing
      change ∀ w ∈ b.normalKV, _ at absent
      rw [normalKV_eq] at absent
      by_cases wanted : b.get "iat-mode" = none
      · refine absent ⟨"iat-mode=0".toList, by decide⟩ ?_ (by decide)
        rw [if_pos ⟨obfs4, wanted⟩]
        exact mem_append_right _ (mem_singleton_self _)
      · refine wanted (get_eq_none.mpr fun w member same => ?_)
        refine absent w (mem_append_left _ (mem_filter.mpr ⟨member, ?_⟩)) same
        cases token : isToken w with
        | false => rfl
        | true =>
          rw [argKey_of_isToken token] at same
          revert same
          decide
    rw [normalKV_eq b.normal, if_neg filled, append_nil]
    exact clean
  unfold Line.normal at kept ⊢
  simp only [kept]

/-! ## Sorting -/

def Line.text (b : Line net) : Text := unwords b.words

def Line.Fine (b : Line net) : Prop := b.normal = b ∧ b.error = none

theorem normaliseBridgeLine_text (fine : b.Fine) :
    normaliseBridgeLine net b.text = (b.text, false) := by
  rw [normaliseBridgeLine, Line.text, parseBridgeLine_words]
  simp [fine.1]

theorem checkBridgeLine_text (fine : b.Fine) : checkBridgeLine net b.text = .ok b := by
  rw [checkBridgeLine, Line.text, parseBridgeLine_words]
  dsimp only
  rw [fine.2]

/-- What passes the check in normal form is the normal form of the line it was. -/
theorem normal_of_checkBridgeLine {ln : Text}
    (checked : checkBridgeLine net (normaliseBridgeLine net ln).1 = .ok b) :
    ∃ b', parseBridgeLine net ln = .ok b' ∧ b'.normal = b ∧
      (normaliseBridgeLine net ln).1 = b.text ∧ b.error = none := by
  unfold normaliseBridgeLine at checked ⊢
  cases parsed : parseBridgeLine net ln with
  | error why =>
    simp [checkBridgeLine, parsed] at checked
  | ok b' =>
    rw [parsed] at checked
    dsimp only at checked ⊢
    rw [checkBridgeLine, parseBridgeLine_words] at checked
    dsimp only at checked
    split at checked
    · cases checked
    next taken =>
      obtain rfl : b'.normal = b := by simpa using checked
      exact ⟨b', rfl, rfl, rfl, taken⟩

theorem fine_of_checkBridgeLine {ln : Text}
    (checked : checkBridgeLine net (normaliseBridgeLine net ln).1 = .ok b) :
    (normaliseBridgeLine net ln).1 = b.text ∧ b.Fine := by
  obtain ⟨b', -, rfl, text, taken⟩ := normal_of_checkBridgeLine checked
  exact ⟨text, normal_normal b', taken⟩

/-- What sorting has accepted, as lines, each with a transport and an address of its own. -/
structure Sound (s : Sorting) (lines : List (Line net)) : Prop where
  good : s.good = lines.map Line.text
  seen : s.seen = lines.map Line.seenKey
  nodup : s.seen.Nodup
  fine : ∀ b ∈ lines, b.Fine
  checks : s.checks.map LineCheck.i = List.range s.checks.length

namespace Sound

variable {s : Sorting} {lines : List (Line net)}

theorem first : Sound {} ([] : List (Line net)) := ⟨rfl, rfl, .nil, nofun, rfl⟩

theorem checks_snoc (sound : Sound s lines) (state : State) :
    (s.checks ++ [LineCheck.mk s.checks.length state]).map LineCheck.i =
      List.range (s.checks ++ [LineCheck.mk s.checks.length state]).length := by
  rw [map_append, sound.checks, length_append, length_singleton, range_succ]
  rfl

theorem take (sound : Sound s lines) (ln : Text) :
    ∃ lines' : List (Line net), Sound (s.take net ln) lines' := by
  unfold Sorting.take
  dsimp only
  cases checked : checkBridgeLine net (normaliseBridgeLine net ln).1 with
  | error why => exact ⟨lines, sound.good, sound.seen, sound.nodup, sound.fine, sound.checks_snoc _⟩
  | ok b =>
    obtain ⟨text, fine⟩ := fine_of_checkBridgeLine checked
    dsimp only
    split
    · exact ⟨lines, sound.good, sound.seen, sound.nodup, sound.fine, sound.checks_snoc _⟩
    next unseen =>
      refine ⟨lines ++ [b], ?_, ?_, ?_, ?_, sound.checks_snoc _⟩
      · simp [sound.good, text]
      · simp [sound.seen]
      · exact sound.nodup.append (nodup_singleton _) (by simpa using unseen)
      · intro b' member
        rcases mem_append.mp member with inside | last
        · exact sound.fine b' inside
        · exact mem_singleton.mp last ▸ fine

theorem foldl (sound : Sound s lines) (pasted : List Text) :
    ∃ lines' : List (Line net), Sound (pasted.foldl (Sorting.take net) s) lines' := by
  induction pasted generalizing s lines with
  | nil => exact ⟨lines, sound⟩
  | cons ln pasted ih =>
    obtain ⟨lines', sound'⟩ := sound.take ln
    exact ih sound'

end Sound

theorem sound_sortBridgeLines (net : Net) (raw : Text) :
    ∃ lines : List (Line net), Sound (sortBridgeLines net raw) lines :=
  Sound.first.foldl (pastedLines raw)

theorem length_checks_take (s : Sorting) (ln : Text) :
    (s.take net ln).checks.length = s.checks.length + 1 := by
  unfold Sorting.take
  dsimp only
  split
  · simp
  · split <;> simp

theorem length_checks_foldl (s : Sorting) (pasted : List Text) :
    (pasted.foldl (Sorting.take net) s).checks.length = s.checks.length + pasted.length := by
  induction pasted generalizing s with
  | nil => rfl
  | cons ln pasted ih =>
    rw [foldl_cons, ih, length_checks_take, length_cons]
    omega

/-! ## Sorting again -/

/-- A line in normal form that is not seen yet is taken as it stands. -/
theorem take_text {s : Sorting} (fine : b.Fine) (unseen : b.seenKey ∉ s.seen) :
    s.take net b.text = { s with
      seen := s.seen ++ [b.seenKey]
      good := s.good ++ [b.text]
      checks := s.checks ++ [⟨s.checks.length, .ok⟩] } := by
  unfold Sorting.take
  rw [normaliseBridgeLine_text fine]
  dsimp only
  rw [checkBridgeLine_text fine]
  dsimp only
  rw [if_neg unseen]
  rfl

variable {lines : List (Line net)}

theorem foldl_text {s : Sorting} (fine : ∀ b ∈ lines, b.Fine)
    (apart : (s.seen ++ lines.map Line.seenKey).Nodup) (calm : ∀ c ∈ s.checks, c.state = .ok) :
    ((lines.map Line.text).foldl (Sorting.take net) s).good = s.good ++ lines.map Line.text ∧
      ((lines.map Line.text).foldl (Sorting.take net) s).bad = s.bad ∧
      ∀ c ∈ ((lines.map Line.text).foldl (Sorting.take net) s).checks, c.state = .ok := by
  induction lines generalizing s with
  | nil => exact ⟨by simp, rfl, calm⟩
  | cons b lines ih =>
    have unseen : b.seenKey ∉ s.seen := fun member =>
      disjoint_of_nodup_append apart member mem_cons_self
    rw [map_cons, foldl_cons, take_text (fine b mem_cons_self) unseen]
    have rest := ih (s := { s with
        seen := s.seen ++ [b.seenKey]
        good := s.good ++ [b.text]
        checks := s.checks ++ [⟨s.checks.length, .ok⟩] })
      (fun b' later => fine b' (mem_cons_of_mem _ later)) (by simpa using apart)
      (by simpa [or_imp, forall_and] using calm)
    refine ⟨?_, rest.2.1, rest.2.2⟩
    rw [rest.1]
    simp

theorem text_plain (b : Line net) : trimSpace b.text = b.text ∧ b.text ≠ [] := by
  refine ⟨trimSpace_unwords (words_ne_nil b), fun empty => ?_⟩
  obtain ⟨first, -, head, -⟩ := unwords_ends (words_ne_nil b)
  change b.text.head? = some first at head
  rw [empty] at head
  cases head

theorem pastedLines_text :
    pastedLines (['\n'].intercalate (lines.map Line.text)) = lines.map Line.text := by
  cases lines with
  | nil => rfl
  | cons b lines =>
    have unbroken : ∀ text ∈ (b :: lines).map Line.text, '\n' ∉ text := by
      intro text member
      obtain ⟨b', -, rfl⟩ := mem_map.mp member
      exact not_mem_unwords _
    have trimmed : ((b :: lines).map Line.text).map trimSpace = (b :: lines).map Line.text := by
      rw [map_map]
      exact map_congr_left fun b' _ => (text_plain b').1
    rw [pastedLines, splitOn_intercalate '\n' unbroken (by simp), trimmed]
    refine filter_eq_self.mpr fun text member => ?_
    obtain ⟨b', -, rfl⟩ := mem_map.mp member
    simpa using (text_plain b').2

/-! ## Finding a line -/

theorem bridgeAddrKey_ne_nil (b : Line net) : bridgeAddrKey net b.addr.val ≠ [] := by
  obtain ⟨host, port, split⟩ := splitHostPort_of_addrError b.addr_fine
  rw [bridgeAddrKey, trimSpace_word, split]
  dsimp only
  unfold Net.toLower joinHostPort
  split <;> simp

theorem bridgeFor_text (nodup : (lines.map Line.seenKey).Nodup) (member : b ∈ lines) :
    bridgeFor net true (lines.map Line.text) b.transport b.addr.val = some b := by
  unfold bridgeFor
  rw [if_neg (by simp [bridgeAddrKey_ne_nil b])]
  induction lines with
  | nil => cases member
  | cons b' lines ih =>
    obtain ⟨apart, rest⟩ := nodup_cons.mp nodup
    rw [map_cons, findSome?_cons, Line.text, parseBridgeLine_words]
    dsimp only
    rcases mem_cons.mp member with rfl | later
    · rw [if_pos ⟨rfl, rfl⟩]
    · have other : ¬(b'.transport = b.transport ∧
          bridgeAddrKey net b'.addr.val = bridgeAddrKey net b.addr.val) := by
        rintro ⟨transport, addr⟩
        refine apart (mem_map.mpr ⟨b, later, ?_⟩)
        rw [Line.seenKey, Line.seenKey, transport, addr]
      rw [if_neg other]
      exact ih rest later

/-! ## Addresses -/

/-- The address a text names: the IP as it is written out, and the number of the port. -/
def Net.address (net : Net) (addr : Text) : Option (Text × Int) :=
  match splitHostPort (trimSpace addr) with
  | none => none
  | some (host, port) => (net.parseIP host).bind fun ip => (parseInt port).map fun p => (ip, p)

/-- The port is written as the number it is, without a sign or a zero before it. -/
def PlainPort (addr : Text) : Prop :=
  ∃ host p, splitHostPort (trimSpace addr) = some (host, formatInt p)

theorem bridgeAddrKey_of_address {addr : Text} {ip : Text} {p : Int} (plain : PlainPort addr)
    (named : net.address addr = some (ip, p)) :
    bridgeAddrKey net addr = net.toLower (joinHostPort ip (formatInt p)) := by
  obtain ⟨host, q, split⟩ := plain
  simp only [Net.address, split, Option.bind_eq_some_iff, Option.map_eq_some_iff,
    Prod.mk.injEq, parseInt_formatInt, Option.some.injEq] at named
  obtain ⟨ip, isIP, p, rfl, rfl, rfl⟩ := named
  rw [bridgeAddrKey, split]
  dsimp only
  rw [isIP, Option.getD_some]

theorem address_line (b : Line net) : ∃ ip p, net.address b.addr.val = some (ip, p) := by
  have fine := b.addr_fine
  unfold Net.addrError at fine
  unfold Net.address
  rw [trimSpace_word]
  cases found : splitHostPort b.addr.val with
  | none =>
    rw [found] at fine
    cases fine
  | some parts =>
    obtain ⟨host, port⟩ := parts
    rw [found] at fine
    dsimp only at fine ⊢
    split_ifs at fine with empty badPort notIP
    obtain ⟨ip, isIP⟩ := Option.ne_none_iff_exists'.mp notIP
    cases number : parseInt port with
    | none => simp [portFine, number] at badPort
    | some p => exact ⟨ip, p, by simp [isIP]⟩

/-- Plainly written, one address has one key. -/
theorem bridgeAddrKey_eq {addr : Text} (plain : PlainPort addr) (plain' : PlainPort b.addr.val)
    (same : net.address addr = net.address b.addr.val) :
    bridgeAddrKey net addr = bridgeAddrKey net b.addr.val := by
  obtain ⟨ip, p, named⟩ := address_line b
  rw [bridgeAddrKey_of_address plain (same.trans named), bridgeAddrKey_of_address plain' named]

def anyNet : Net where
  parseIP := some
  lower := id
  parseURL := fun _ => none
  parseArgs := fun _ _ => true
  ptToken := []

/-- An older line without its mode, one that names no transport, the same in other words, and
none. -/
def pasted : Text :=
  "  OBFS4 192.0.2.1:443  cert=a kryfo=b\n192.0.2.2:9001\n\nvanilla 192.0.2.2:9001\nmeek".toList

/-- One address twice, the second time with a zero before the port. -/
def zeroPort : List Text :=
  ["obfs4 192.0.2.1:443 cert=a iat-mode=0".toList, "obfs4 192.0.2.1:0443 cert=b iat-mode=0".toList]

end Kryfo.Bridges
