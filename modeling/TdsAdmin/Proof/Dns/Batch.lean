import TdsAdmin.Proof.Dns.Clean
import TdsAdmin.Lib.JsonReader

/-!
# When the batch is the dead records

A record reaches the file by way of two `read`s and three expansions without quotes. The first
`read` keeps the backslashes and the second one drops them, a name that is empty leaves its place
to the lifetime, a pattern becomes the files it matches, and nothing escapes what JSON wants
escaped. `deletion_iff` says what is left: an entry is that of its record exactly if there is
nothing in the record to be lost.

The argument for the other direction is about lengths. Dropping backslashes makes a name shorter
and reading the escapes of JSON makes it shorter again, so a name that arrives whole has passed
both without a change.
-/

set_option autoImplicit false

namespace TdsAdmin
namespace Dns

open Fields (isIfs awkFields readFields unescape)
open Json (Doc readValue readMembers readElements readEnd readKey skip isPlain PlainNumber)

/-! ## What should be in the batch -/

/-- A `DELETE` of Route 53. -/
def deleteDoc (name ttl target : Text) : Doc :=
  .object [("Action".toList, .string "DELETE".toList),
    ("ResourceRecordSet".toList, .object [("Name".toList, .string name),
      ("Type".toList, .string "CNAME".toList), ("TTL".toList, .number ttl),
      ("ResourceRecords".toList, .array [.object [("Value".toList, .string target)]])])]

/-- That of a record; its name goes without the final dot. -/
def Record.deletion (r : Record) : Doc :=
  deleteDoc r.name.text.dropLast r.ttl.text r.target.text

def batchDoc (changes : List Doc) : Doc := .object [("Changes".toList, .array changes)]

/-- The records whose calls report no instance. -/
def deadFrom (describe : Nat → Text → Outcome) : Nat → List Record → List Record
  | _, [] => []
  | n, r :: rs =>
      if (describe n (unescape r.target.text)).reportsInstance then deadFrom describe (n + 1) rs
      else r :: deadFrom describe (n + 1) rs

/-- The file is the batch of the dead records, wherever the script runs, and it is submitted if
there are any. -/
def BatchExact (describe : Nat → Text → Outcome) (rs : List Record) : Prop :=
  ∀ matching, let s := cleanPairs matching describe (rs.map Record.pair)
    Json.parse s.batch = some (batchDoc ((deadFrom describe 0 rs).map Record.deletion)) ∧
      (s.delete = true ↔ deadFrom describe 0 rs ≠ [])

/-- Nothing is lost of the record on the way to the file. -/
structure Record.Plain (r : Record) : Prop where
  name : r.name.text ≠ ['.']
  name_plain : ∀ c ∈ r.name.text, isPlain c = true
  target_plain : ∀ c ∈ r.target.text, isPlain c = true
  name_pattern : Expand.isPattern r.name.text.dropLast = false
  target_pattern : Expand.isPattern r.target.text = false
  number : PlainNumber r.ttl.text

/-! ## The loop -/

/-- The entries of the file, with a comma in front of each but the first. -/
def entries : Bool → List Text → Text
  | _, [] => []
  | started, t :: ts => (if started then ",\n".toList else []) ++ t ++ entries true ts

/-- The record that a line names. -/
def removalOf (line : Text) : Removal :=
  let fields := readFields 3 line
  ⟨(fields.getD 0 []).dropLast, fields.getD 1 [], fields.getD 2 []⟩

/-- What is written for a record. -/
def Record.removal (r : Record) : Removal :=
  ⟨(unescape r.name.text).dropLast, unescape r.ttl.text, unescape r.target.text⟩

namespace Record

theorem removalOf_pair (r : Record) : removalOf r.pair = r.removal := by
  unfold removalOf
  rw [record_fields]
  rfl

theorem name_eq (r : Record) : r.name.text = r.name.text.dropLast ++ ['.'] :=
  (List.dropLast_append_getLast? '.' r.name_dot).symm

/-- The dot stays at the end of the name that is read. -/
theorem unescape_name (r : Record) : unescape r.name.text = r.removal.aliasName ++ ['.'] := by
  obtain ⟨t, ht⟩ := Fields.unescape_append_char (c := '.') (by decide) r.name.text.dropLast
  rw [← r.name_eq] at ht
  unfold removal
  rw [ht, List.dropLast_concat]

theorem unescape_ttl (r : Record) : unescape r.ttl.text = r.ttl.text := by
  refine Fields.unescape_plain fun h => ?_
  exact absurd (List.all_eq_true.mp r.ttl_digits _ h) (by decide)

theorem first_field_ne_nil (r : Record) : (readFields 3 r.pair).getD 0 [] ≠ [] := by
  rw [record_fields]
  show unescape r.name.text ≠ []
  rw [unescape_name]
  exact List.append_ne_nil_of_right_ne_nil _ (List.cons_ne_nil _ _)

end Record

section Loop

variable (matching : Text → List Text) (describe : Nat → Text → Outcome)

/-- The texts of the dead records. -/
def written (rs : List Record) : List Text := rs.map fun r => r.removal.text matching

/-- **The loop writes an entry for each dead record.** -/
theorem cleanLoop_file : ∀ (rs : List Record) (s : Cleaning),
    (cleanLoop matching describe s (rs.map Record.pair)).file =
        s.file ++ entries s.delete (written matching (deadFrom describe s.calls rs)) ∧
      ((cleanLoop matching describe s (rs.map Record.pair)).delete = true ↔
        s.delete = true ∨ deadFrom describe s.calls rs ≠ []) := by
  intro rs
  induction rs with
  | nil =>
    intro s
    exact ⟨(List.append_nil _).symm, (or_iff_left fun h => h rfl).symm⟩
  | cons r rs ih =>
    intro s
    obtain ⟨hfile, hdelete⟩ := ih (cleanRecord matching describe s r.removal)
    have hstep : cleanLoop matching describe s ((r :: rs).map Record.pair) =
        cleanLoop matching describe (cleanRecord matching describe s r.removal)
          (rs.map Record.pair) := by
      rw [← r.removalOf_pair]
      exact if_neg r.first_field_ne_nil
    have hcall : (describe s.calls (unescape r.target.text)).reportsInstance =
        (describe s.calls r.removal.hostname).reportsInstance := rfl
    rw [hstep, hfile, hdelete, deadFrom, hcall]
    cases hreports : (describe s.calls r.removal.hostname).reportsInstance with
    | true =>
      have hkept : cleanRecord matching describe s r.removal =
          { s with calls := s.calls + 1 } := if_pos hreports
      rw [hkept, if_pos rfl]
      exact ⟨rfl, Iff.rfl⟩
    | false =>
      have hgone : cleanRecord matching describe s r.removal =
          { delete := true
            file := s.file ++ (if s.delete then ",\n".toList else []) ++ r.removal.text matching
            calls := s.calls + 1 } :=
        if_neg (by rw [hreports]; exact Bool.false_ne_true)
      rw [hgone, if_neg Bool.false_ne_true]
      refine ⟨?_, ?_⟩
      · show (s.file ++ _ ++ _) ++ entries true (written matching _) =
          s.file ++ ((_ ++ _) ++ entries true (written matching _))
        rw [List.append_assoc s.file, List.append_assoc s.file]
      · exact iff_of_true (Or.inl rfl) (Or.inr (List.cons_ne_nil _ _))

/-- Without a record the loop gets an empty line and stops there. -/
theorem cleanPairs_file (rs : List Record) :
    (cleanPairs matching describe (rs.map Record.pair)).batch =
        "\x7b\n\t\"Changes\": [\n".toList ++
          (entries false (written matching (deadFrom describe 0 rs)) ++ "\n\t]\n \x7d\n".toList) ∧
      ((cleanPairs matching describe (rs.map Record.pair)).delete = true ↔
        deadFrom describe 0 rs ≠ []) := by
  unfold Cleaning.batch cleanPairs
  cases rs with
  | nil => exact ⟨rfl, iff_of_false Bool.false_ne_true fun h => h rfl⟩
  | cons r rs =>
    have hlines : loopLines ((r :: rs).map Record.pair) = (r :: rs).map Record.pair :=
      if_neg (List.cons_ne_nil _ _)
    obtain ⟨hfile, hdelete⟩ := cleanLoop_file matching describe (r :: rs) Cleaning.start
    rw [hlines, hfile, hdelete]
    refine ⟨?_, or_iff_right Bool.false_ne_true⟩
    exact List.append_assoc _ _ _

end Loop

/-! ## An entry -/

/-- Behind the value. -/
def closingText (tail : Text) : Text :=
  "\n\t\t\t".toList ++ '\x7d' :: ("\n\t\t".toList ++ ']' :: ("\n\t\t".toList ++ '\x7d' ::
    ("\n\t".toList ++ '\x7d' :: tail)))

/-- From the value on. -/
def valueText (h tail : Text) : Text :=
  "\n\t\t\t\t\"Value\":".toList ++ (' ' :: '"' :: (h ++ '"' :: closingText tail))

/-- From the list of values on. -/
def recordsText (h tail : Text) : Text :=
  "\n\t\t\t\"ResourceRecords\":".toList ++
    (' ' :: '[' :: ("\n\t\t\t".toList ++ '\x7b' :: valueText h tail))

/-- From the lifetime on. -/
def ttlText (t h tail : Text) : Text :=
  "\n\t\t\t\"TTL\":".toList ++ (' ' :: (t ++ ',' :: recordsText h tail))

/-- From the type on. -/
def typeText (t h tail : Text) : Text :=
  "\n\t\t\t\"Type\":".toList ++ (' ' :: '"' :: ("CNAME".toList ++ '"' :: ',' :: ttlText t h tail))

/-- From the name on. -/
def nameText (a t h tail : Text) : Text :=
  "\n\t\t\t\"Name\":".toList ++ (' ' :: '"' :: (a ++ '"' :: ',' :: typeText t h tail))

/-- From the record set on. -/
def setText (a t h tail : Text) : Text :=
  "\n\t\t\"ResourceRecordSet\":".toList ++ (' ' :: '\x7b' :: nameText a t h tail)

/-- An entry with these three words, in front of the rest of the file. -/
def entryText (a t h tail : Text) : Text :=
  '\t' :: '\x7b' :: ("\n\t\t\"Action\":".toList ++
    (' ' :: '"' :: ("DELETE".toList ++ '"' :: ',' :: setText a t h tail)))

theorem formatOnce_delete (args : List Text) (tail : Text) :
    (Expand.formatOnce deleteFormat args).1 ++ tail =
      entryText (args.headD []) (args.tail.headD []) (args.tail.tail.headD []) tail := by
  unfold deleteFormat entryText setText nameText typeText ttlText recordsText valueText closingText
  simp only [Expand.formatOnce, List.append_assoc, List.nil_append]
  rfl

section Entry

variable {n : Nat} {a t h tail N T V r : Text}

/-- The list of values is read whole if the value is. -/
theorem records_iff (hlen : (∀ c ∈ h, isPlain c = true) ∨ h.length ≤ V.length) :
    readMembers (n + 6) (recordsText h tail) = some
        ([("ResourceRecords".toList, .array [.object [("Value".toList, .string V)]])], r) ↔
      (∀ c ∈ h, isPlain c = true) ∧ V = h ∧ r = "\n\t".toList ++ '\x7d' :: tail := by
  have hrecords : readKey (recordsText h tail) = some ("ResourceRecords".toList,
      ' ' :: '[' :: ("\n\t\t\t".toList ++ '\x7b' :: valueText h tail)) :=
    Json.readKey_word (Text.forall_of_all rfl) rfl
  have hkey : readKey (valueText h tail) =
      some ("Value".toList, ' ' :: '"' :: (h ++ '"' :: closingText tail)) :=
    Json.readKey_word (Text.forall_of_all rfl) rfl
  have hstring : ∀ {u : Text}, readValue (n + 1) (' ' :: '"' :: (h ++ '"' :: closingText tail)) =
      some (.string V, u) ↔ (∀ c ∈ h, isPlain c = true) ∧ V = h ∧ u = closingText tail :=
    Json.string_value_iff rfl rfl hlen
  have hclose : readEnd '\x7d' (closingText tail) = some (false, "\n\t\t".toList ++ ']' ::
      ("\n\t\t".toList ++ '\x7d' :: ("\n\t".toList ++ '\x7d' :: tail))) := rfl
  rw [Json.lastMember_iff hrecords]
  constructor
  · intro ⟨u, harray, hend⟩
    rw [Json.array_value_iff (t := "\n\t\t\t".toList ++ '\x7b' :: valueText h tail) rfl rfl,
      Json.lastElement_iff] at harray
    obtain ⟨v, hobject, hdone⟩ := harray
    rw [Json.object_value_iff (t := valueText h tail) rfl rfl, Json.lastMember_iff hkey] at hobject
    obtain ⟨w, hvalue, hw⟩ := hobject
    obtain ⟨hplain, hV, rfl⟩ := hstring.mp hvalue
    cases hclose.symm.trans hw
    cases hdone
    cases hend
    exact ⟨hplain, hV, rfl⟩
  · intro ⟨hplain, hV, hr⟩
    subst hr
    have hvalue := hstring.mpr ⟨hplain, hV, rfl⟩
    have hobject := (Json.object_value_iff (n := n + 2) (s := "\n\t\t\t".toList ++ '\x7b' ::
      valueText h tail) rfl rfl).mpr ((Json.lastMember_iff hkey).mpr ⟨_, hvalue, hclose⟩)
    refine ⟨"\n\t\t".toList ++ '\x7d' :: ("\n\t".toList ++ '\x7d' :: tail), ?_, rfl⟩
    rw [Json.array_value_iff (t := "\n\t\t\t".toList ++ '\x7b' :: valueText h tail) rfl rfl]
    exact Json.lastElement_iff.mpr ⟨_, hobject, rfl⟩

/-- The members of a record set behind its name. -/
def typeMembers (ttl target : Text) : List (Text × Doc) :=
  [("Type".toList, .string "CNAME".toList), ("TTL".toList, .number ttl),
    ("ResourceRecords".toList, .array [.object [("Value".toList, .string target)]])]

/-- Behind the name, an entry is read as it was written if the lifetime is a number and the value
plain. -/
theorem typeMembers_iff (hne : t ≠ []) (ht : ∀ c ∈ t, Text.isDigit c = true)
    (hlen : (∀ c ∈ h, isPlain c = true) ∨ h.length ≤ V.length) :
    readMembers (n + 8) (typeText t h tail) = some (typeMembers T V, r) ↔
      PlainNumber t ∧ T = t ∧ (∀ c ∈ h, isPlain c = true) ∧ V = h ∧
        r = "\n\t".toList ++ '\x7d' :: tail := by
  have htype : readKey (typeText t h tail) = some ("Type".toList,
      ' ' :: '"' :: ("CNAME".toList ++ '"' :: ',' :: ttlText t h tail)) :=
    Json.readKey_word (Text.forall_of_all rfl) rfl
  have httl : readKey (ttlText t h tail) =
      some ("TTL".toList, ' ' :: (t ++ ',' :: recordsText h tail)) :=
    Json.readKey_word (Text.forall_of_all rfl) rfl
  have hskip : skip (' ' :: (t ++ ',' :: recordsText h tail)) = t ++ ',' :: recordsText h tail := by
    obtain ⟨d, t, rfl⟩ := List.exists_cons_of_ne_nil hne
    rw [Json.skip_blank rfl]
    exact Json.skip_char (Json.isBlank_digit (ht d List.mem_cons_self)) _
  have hnumber : ∀ {u : Text}, readValue (n + 6) (' ' :: (t ++ ',' :: recordsText h tail)) =
      some (.number T, u) ↔ PlainNumber t ∧ T = t ∧ u = ',' :: recordsText h tail :=
    Json.number_value_iff hskip hne ht rfl (by decide)
  have hcname : ∀ c ∈ "CNAME".toList, isPlain c = true := Text.forall_of_all rfl
  have hnext : readEnd '\x7d' (',' :: recordsText h tail) = some (true, recordsText h tail) := rfl
  unfold typeMembers
  rw [Json.stringMember_iff (w := "CNAME".toList) (t := ',' :: ttlText t h tail)
    (y := ttlText t h tail) htype rfl rfl (Or.inl hcname) rfl, Json.member_iff httl]
  constructor
  · intro ⟨_, _, u, v, hvalue, hend, hmembers⟩
    obtain ⟨hplain, hT, rfl⟩ := hnumber.mp hvalue
    cases hnext.symm.trans hend
    obtain ⟨hh, hV, hr⟩ := (records_iff hlen).mp hmembers
    exact ⟨hplain, hT, hh, hV, hr⟩
  · intro ⟨hplain, hT, hh, hV, hr⟩
    refine ⟨hcname, rfl, _, _, hnumber.mpr ⟨hplain, hT, rfl⟩, hnext, ?_⟩
    exact (records_iff hlen).mpr ⟨hh, hV, hr⟩

/-- The name of an entry is read first. -/
theorem entry_name_iff (hlen : (∀ c ∈ a, isPlain c = true) ∨ a.length ≤ N.length) :
    readValue (n + 13) (entryText a t h tail) = some (deleteDoc N T V, r) ↔
      (∀ c ∈ a, isPlain c = true) ∧ N = a ∧ ∃ u,
        readMembers (n + 8) (typeText t h tail) = some (typeMembers T V, u) ∧
          readEnd '\x7d' u = some (false, r) := by
  have haction : readKey ("\n\t\t\"Action\":".toList ++
      (' ' :: '"' :: ("DELETE".toList ++ '"' :: ',' :: setText a t h tail))) =
      some ("Action".toList, ' ' :: '"' :: ("DELETE".toList ++ '"' :: ',' :: setText a t h tail)) :=
    Json.readKey_word (Text.forall_of_all rfl) rfl
  have hset : readKey (setText a t h tail) =
      some ("ResourceRecordSet".toList, ' ' :: '\x7b' :: nameText a t h tail) :=
    Json.readKey_word (Text.forall_of_all rfl) rfl
  have hname : readKey (nameText a t h tail) =
      some ("Name".toList, ' ' :: '"' :: (a ++ '"' :: ',' :: typeText t h tail)) :=
    Json.readKey_word (Text.forall_of_all rfl) rfl
  have hdelete : ∀ c ∈ "DELETE".toList, isPlain c = true := Text.forall_of_all rfl
  have hobject : ∀ {u : Text}, readValue (n + 10) (' ' :: '\x7b' :: nameText a t h tail) =
      some (.object (("Name".toList, .string N) :: typeMembers T V), u) ↔
        (∀ c ∈ a, isPlain c = true) ∧ N = a ∧
          readMembers (n + 8) (typeText t h tail) = some (typeMembers T V, u) := by
    intro u
    rw [Json.object_value_iff (t := nameText a t h tail) rfl rfl]
    exact Json.stringMember_iff (t := ',' :: typeText t h tail) (y := typeText t h tail) hname rfl
      rfl hlen rfl
  unfold deleteDoc
  rw [Json.object_value_iff (t := "\n\t\t\"Action\":".toList ++
      (' ' :: '"' :: ("DELETE".toList ++ '"' :: ',' :: setText a t h tail))) rfl rfl,
    Json.stringMember_iff (w := "DELETE".toList) (t := ',' :: setText a t h tail)
      (y := setText a t h tail) haction rfl rfl (Or.inl hdelete) rfl, Json.lastMember_iff hset]
  constructor
  · intro ⟨_, _, u, hvalue, hend⟩
    obtain ⟨ha, hN, hmembers⟩ := hobject.mp hvalue
    exact ⟨ha, hN, u, hmembers, hend⟩
  · intro ⟨ha, hN, u, hmembers, hend⟩
    exact ⟨hdelete, rfl, u, hobject.mpr ⟨ha, hN, hmembers⟩, hend⟩

/-- **An entry is read as it was written if its words are plain.** -/
theorem entry_iff (hne : t ≠ []) (ht : ∀ c ∈ t, Text.isDigit c = true)
    (ha : (∀ c ∈ a, isPlain c = true) ∨ a.length ≤ N.length)
    (hh : (∀ c ∈ h, isPlain c = true) ∨ h.length ≤ V.length) :
    readValue (n + 13) (entryText a t h tail) = some (deleteDoc N T V, r) ↔
      (∀ c ∈ a, isPlain c = true) ∧ N = a ∧ PlainNumber t ∧ T = t ∧
        (∀ c ∈ h, isPlain c = true) ∧ V = h ∧ r = tail := by
  have hlast : readEnd '\x7d' ("\n\t".toList ++ '\x7d' :: tail) = some (false, tail) := rfl
  rw [entry_name_iff ha]
  constructor
  · intro ⟨hplain, hN, u, hmembers, hend⟩
    obtain ⟨hnumber, hT, htarget, hV, rfl⟩ := (typeMembers_iff hne ht hh).mp hmembers
    cases hlast.symm.trans hend
    exact ⟨hplain, hN, hnumber, hT, htarget, hV, rfl⟩
  · intro ⟨hplain, hN, hnumber, hT, htarget, hV, hr⟩
    subst hr
    exact ⟨hplain, hN, _, (typeMembers_iff hne ht hh).mpr ⟨hnumber, hT, htarget, hV, rfl⟩, hlast⟩

end Entry

/-! ## The words of an entry -/

namespace Record

theorem alias_not_ifs (d : Record) : ∀ c ∈ d.removal.aliasName, isIfs c = false := by
  intro c hc
  exact d.name.not_ifs c (Fields.mem_unescape (List.mem_of_mem_dropLast hc))

theorem hostname_not_ifs (d : Record) : ∀ c ∈ d.removal.hostname, isIfs c = false := by
  intro c hc
  exact d.target.not_ifs c (Fields.mem_unescape hc)

theorem ttl_digit (d : Record) : ∀ c ∈ d.ttl.text, Text.isDigit c = true :=
  fun c hc => List.all_eq_true.mp d.ttl_digits c hc

/-- A number is no pattern. -/
theorem ttl_words (d : Record) (matching : Text → List Text) :
    Expand.unquoted matching d.removal.ttl = [d.ttl.text] := by
  have hpattern : Expand.isPattern d.ttl.text = false := by
    refine Expand.isPattern_eq_false fun c hc hspecial => ?_
    have hdigit := d.ttl_digit c hc
    simp only [List.mem_cons, List.not_mem_nil, or_false] at hspecial
    rcases hspecial with rfl | rfl | rfl
    · exact absurd hdigit (by decide)
    · exact absurd hdigit (by decide)
    · exact absurd hdigit (by decide)
  unfold removal
  rw [d.unescape_ttl, Expand.unquoted_word d.ttl.not_ifs d.ttl.ne_nil,
    Expand.wordFiles_plain hpattern]

/-- An entry starts like one, whatever its words are. -/
theorem text_entry (d : Record) (matching : Text → List Text) : ∃ a t h more, ∀ tail,
    d.removal.text matching ++ tail = entryText a t h (more ++ tail) := by
  unfold Removal.text
  rw [Expand.printf_eq]
  exact ⟨_, _, _, _, fun tail => (List.append_assoc _ _ _).trans (formatOnce_delete _ _)⟩

/-- Three words at most are written at once. -/
theorem text_words (d : Record) {matching : Text → List Text} {as hs : List Text}
    (ha : Expand.unquoted matching d.removal.aliasName = as)
    (hh : Expand.unquoted matching d.removal.hostname = hs) (hlen : as.length + hs.length ≤ 2)
    (tail : Text) : d.removal.text matching ++ tail =
      entryText ((as ++ d.ttl.text :: hs).headD []) ((as ++ d.ttl.text :: hs).tail.headD [])
        ((as ++ d.ttl.text :: hs).tail.tail.headD []) tail := by
  unfold Removal.text
  rw [ha, hh, d.ttl_words, List.append_assoc, Expand.printf_fits]
  · exact formatOnce_delete _ tail
  · show (as ++ d.ttl.text :: hs).length ≤ 3
    rw [List.length_append, List.length_cons]
    omega

/-- A record whose name and value come to a word each. -/
theorem text_three (d : Record) {matching : Text → List Text} {a h : Text}
    (ha : Expand.unquoted matching d.removal.aliasName = [a])
    (hh : Expand.unquoted matching d.removal.hostname = [h]) (tail : Text) :
    d.removal.text matching ++ tail = entryText a d.ttl.text h tail :=
  d.text_words ha hh (Nat.le_refl 2) tail

/-! ## A record in the file -/

/-- A record that is plain as far as it does not depend on the files there are. -/
structure Clear (d : Record) : Prop where
  name : d.name.text ≠ ['.']
  name_plain : ∀ c ∈ d.name.text, isPlain c = true
  target_plain : ∀ c ∈ d.target.text, isPlain c = true
  number : PlainNumber d.ttl.text

variable {d : Record}

theorem plain_not_backslash {s : Text} (h : ∀ c ∈ s, isPlain c = true) : '\\' ∉ s :=
  fun hmem => absurd (h _ hmem) (by decide)

theorem Clear.aliasName (h : d.Clear) : d.removal.aliasName = d.name.text.dropLast := by
  show (unescape d.name.text).dropLast = _
  rw [Fields.unescape_plain (plain_not_backslash h.name_plain)]

theorem Clear.hostname (h : d.Clear) : d.removal.hostname = d.target.text :=
  Fields.unescape_plain (plain_not_backslash h.target_plain)

theorem Clear.aliasName_ne_nil (h : d.Clear) : d.removal.aliasName ≠ [] := by
  intro hempty
  rw [h.aliasName] at hempty
  refine h.name ?_
  rw [d.name_eq, hempty]
  rfl

theorem Clear.hostname_ne_nil (h : d.Clear) : d.removal.hostname ≠ [] := by
  rw [h.hostname]
  exact d.target.ne_nil

/-- A clear record is written with what its two words come to. -/
theorem Clear.read (h : d.Clear) {matching : Text → List Text} {a v : Text}
    (ha : Expand.wordFiles matching d.removal.aliasName = [a])
    (hv : Expand.wordFiles matching d.removal.hostname = [v])
    (ha_plain : ∀ c ∈ a, isPlain c = true) (hv_plain : ∀ c ∈ v, isPlain c = true)
    (n : Nat) (tail : Text) : readValue (n + 13) (d.removal.text matching ++ tail) =
      some (deleteDoc a d.ttl.text v, tail) := by
  rw [d.text_three ((Expand.unquoted_word d.alias_not_ifs h.aliasName_ne_nil).trans ha)
    ((Expand.unquoted_word d.hostname_not_ifs h.hostname_ne_nil).trans hv)]
  exact (entry_iff d.ttl.ne_nil d.ttl_digit (Or.inl ha_plain) (Or.inl hv_plain)).mpr
    ⟨ha_plain, rfl, h.number, rfl, hv_plain, rfl, rfl⟩

theorem digits_plain {w : Text} (h : ∀ c ∈ w, Text.isDigit c = true) :
    ∀ c ∈ w, isPlain c = true := by
  intro c hc
  have hdigit := h c hc
  refine Json.isPlain_iff.mpr ⟨?_, ?_, ?_⟩
  · rintro rfl
    exact absurd hdigit (by decide)
  · rintro rfl
    exact absurd hdigit (by decide)
  · simp only [Text.isDigit, Char.isDigit, Bool.and_eq_true, decide_eq_true_eq] at hdigit
    exact fun hlt => absurd (Nat.lt_of_le_of_lt hdigit.1 hlt) (by decide)

/-- An empty name leaves its place to the lifetime, which is then not the name. -/
theorem aliasName_ne_nil {matching : Text → List Text}
    (hsame : ∀ w, Expand.wordFiles matching w = [w]) {n : Nat} {tail r : Text}
    (h : readValue (n + 13) (d.removal.text matching ++ tail) = some (d.deletion, r)) :
    d.removal.aliasName ≠ [] := by
  intro hempty
  have ha : Expand.unquoted matching d.removal.aliasName = [] := by
    rw [hempty]
    rfl
  obtain ⟨hs, hh, hlen⟩ : ∃ hs, Expand.unquoted matching d.removal.hostname = hs ∧
      ([] : List Text).length + hs.length ≤ 2 := by
    refine ⟨_, rfl, ?_⟩
    by_cases hhost : d.removal.hostname = []
    · rw [hhost]
      exact Nat.zero_le 2
    · rw [Expand.unquoted_word d.hostname_not_ifs hhost, hsame]
      exact Nat.le_succ 1
  rw [d.text_words ha hh hlen] at h
  obtain ⟨-, hname, -⟩ := (entry_name_iff (Or.inl (digits_plain d.ttl_digit))).mp h
  -- so the name is a number, and no backslash is dropped from it
  have hback : '\\' ∉ d.name.text := by
    intro hmem
    rw [d.name_eq, hname] at hmem
    rcases List.mem_append.mp hmem with hmem | hmem
    · exact absurd (d.ttl_digit _ hmem) (by decide)
    · exact absurd hmem (by decide)
  have halias : d.removal.aliasName = d.ttl.text := by
    rw [← hname]
    show (unescape d.name.text).dropLast = _
    rw [Fields.unescape_plain hback]
  exact d.ttl.ne_nil (halias.symm.trans hempty)

theorem aliasName_length (d : Record) :
    d.removal.aliasName.length ≤ d.name.text.dropLast.length := by
  have hle := Fields.unescape_length d.name.text
  rw [d.unescape_name, List.length_append] at hle
  rw [List.length_dropLast]
  exact Nat.le_sub_of_add_le hle

/-- **A record that arrives as it is was clear.** -/
theorem clear_of_read {matching : Text → List Text} (hsame : ∀ w, Expand.wordFiles matching w = [w])
    {n : Nat} {tail r : Text}
    (h : readValue (n + 13) (d.removal.text matching ++ tail) = some (d.deletion, r)) :
    d.Clear ∧ r = tail := by
  have hne := aliasName_ne_nil hsame h
  have ha : Expand.unquoted matching d.removal.aliasName = [d.removal.aliasName] := by
    rw [Expand.unquoted_word d.alias_not_ifs hne, hsame]
  have htext : d.removal.text matching ++ tail =
      entryText d.removal.aliasName d.ttl.text d.removal.hostname tail := by
    by_cases hhost : d.removal.hostname = []
    · have hh : Expand.unquoted matching d.removal.hostname = [] := by
        rw [hhost]
        rfl
      rw [d.text_words ha hh (Nat.le_succ 1), hhost]
      rfl
    · refine d.text_three ha ?_ tail
      rw [Expand.unquoted_word d.hostname_not_ifs hhost, hsame]
  rw [htext] at h
  obtain ⟨hplain, hname, hnumber, -, htarget_plain, htarget, hr⟩ :=
    (entry_iff d.ttl.ne_nil d.ttl_digit (Or.inr d.aliasName_length)
      (Or.inr (Fields.unescape_length _))).mp h
  refine ⟨⟨?_, ?_, ?_, hnumber⟩, hr⟩
  · intro hdot
    rw [hdot] at hname
    exact hne hname.symm
  · intro c hc
    rw [d.name_eq, hname] at hc
    rcases List.mem_append.mp hc with hc | hc
    · exact hplain c hc
    · rw [List.mem_singleton.mp hc]
      rfl
  · rw [htarget]
    exact htarget_plain

end Record

/-! ## The list of changes -/

/-- The end of the file. -/
def endText : Text := "\n\t".toList ++ ']' :: "\n \x7d\n".toList

theorem readElements_blank {n : Nat} {c : Char} {s : Text} (h : Json.isBlank c = true) :
    readElements (n + 2) (c :: s) = readElements (n + 2) s := by
  have hvalue : readValue (n + 1) (c :: s) = readValue (n + 1) s := by
    rw [readValue, readValue, Json.skip_blank h]
  rw [readElements, hvalue, ← readElements]

section Elements

variable {matching : Text → List Text}

theorem entries_cons (d e : Record) (ds : List Record) :
    entries false (written matching (d :: e :: ds)) ++ endText = d.removal.text matching ++
      (',' :: '\n' :: (entries false (written matching (e :: ds)) ++ endText)) := by
  show ([] ++ d.removal.text matching ++ (",\n".toList ++ e.removal.text matching ++
    entries true (written matching ds))) ++ endText = _
  rw [List.nil_append, List.append_assoc]
  rfl

theorem entries_last (d : Record) :
    entries false (written matching [d]) ++ endText = d.removal.text matching ++ endText := by
  show ([] ++ d.removal.text matching ++ []) ++ endText = _
  rw [List.append_nil, List.nil_append]

/-- Entries that are read as `f` says come to the list of these. -/
theorem elements_read {f : Record → Doc} : ∀ {ds : List Record}, ds ≠ [] →
    (∀ d ∈ ds, ∀ n tail, readValue (n + 13) (d.removal.text matching ++ tail) =
      some (f d, tail)) → ∀ {n : Nat}, ds.length + 13 ≤ n →
    readElements n (entries false (written matching ds) ++ endText) =
      some (ds.map f, "\n \x7d\n".toList)
  | [], hne, _, _, _ => absurd rfl hne
  | [d], _, h, n, hn => by
    obtain ⟨n, rfl⟩ := Nat.exists_eq_add_of_le' hn
    rw [entries_last]
    exact Json.lastElement_iff.mpr ⟨endText, h d (List.mem_singleton_self d) n endText, rfl⟩
  | d :: e :: ds, _, h, n, hn => by
    obtain ⟨n, rfl⟩ := Nat.exists_eq_add_of_le' hn
    have hmore := elements_read (List.cons_ne_nil e ds)
      (fun x hx => h x (List.mem_cons_of_mem d hx)) (n := n + ds.length + 14) (by
        rw [List.length_cons]
        omega)
    have hfuel : n + ((d :: e :: ds).length + 13) = n + ds.length + 14 + 1 := by
      rw [List.length_cons, List.length_cons]
      omega
    rw [hfuel, entries_cons]
    refine Json.element_iff.mpr ⟨_, _, h d List.mem_cons_self (n + ds.length + 1) _, rfl, ?_⟩
    exact (readElements_blank rfl).trans hmore

/-- Entries that are read as their records are clear. -/
theorem elements_clear (hsame : ∀ w, Expand.wordFiles matching w = [w]) : ∀ {ds : List Record}
    {n : Nat} {r : Text}, ds.length + 13 ≤ n →
    readElements n (entries false (written matching ds) ++ endText) =
      some (ds.map Record.deletion, r) → ∀ d ∈ ds, d.Clear
  | [], _, _, _, _ => fun _ hd => absurd hd List.not_mem_nil
  | [d], n, r, hn, h => by
    obtain ⟨n, rfl⟩ := Nat.exists_eq_add_of_le' hn
    rw [entries_last] at h
    obtain ⟨u, hvalue, -⟩ := Json.lastElement_iff.mp h
    intro x hx
    rw [List.mem_singleton.mp hx]
    exact (Record.clear_of_read hsame hvalue).1
  | d :: e :: ds, n, r, hn, h => by
    obtain ⟨n, rfl⟩ := Nat.exists_eq_add_of_le' hn
    have hfuel : n + ((d :: e :: ds).length + 13) = n + ds.length + 14 + 1 := by
      rw [List.length_cons, List.length_cons]
      omega
    rw [hfuel, entries_cons] at h
    obtain ⟨u, v, hvalue, hend, hmore⟩ := Json.element_iff.mp h
    obtain ⟨hclear, rfl⟩ := Record.clear_of_read (n := n + ds.length + 1) hsame hvalue
    cases hend
    rw [readElements_blank rfl] at hmore
    have hrest := elements_clear hsame (by
      rw [List.length_cons]
      omega) hmore
    intro x hx
    rcases List.mem_cons.mp hx with rfl | hx
    · exact hclear
    · exact hrest x hx

end Elements

/-! ## The file -/

/-- The file with these entries. -/
def batchText (body : Text) : Text :=
  '\x7b' :: ("\n\t\"Changes\":".toList ++ (' ' :: '[' :: '\n' :: (body ++ endText)))

/-- An empty list of changes. -/
theorem parse_empty : Json.parse (batchText []) = some (batchDoc []) := by
  have hkey : readKey ("\n\t\"Changes\":".toList ++ (' ' :: '[' :: '\n' :: ([] ++ endText))) =
      some ("Changes".toList, ' ' :: '[' :: '\n' :: ([] ++ endText)) :=
    Json.readKey_word (Text.forall_of_all rfl) rfl
  have hchanges : readValue 22 (' ' :: '[' :: '\n' :: ([] ++ endText)) =
      some (.array [], "\n \x7d\n".toList) := Json.empty_array rfl rfl
  have hvalue : readValue 24 (batchText []) = some (batchDoc [], ['\n']) := by
    refine (Json.object_value_iff (t := "\n\t\"Changes\":".toList ++
      (' ' :: '[' :: '\n' :: ([] ++ endText))) rfl rfl).mpr ?_
    exact (Json.lastMember_iff hkey).mpr ⟨_, hchanges, rfl⟩
  have hlength : (batchText []).length + 1 = 24 := rfl
  unfold Json.parse
  rw [hlength, hvalue]
  rfl

/-- A list with an entry in it. -/
theorem parse_batch {body : Text} (hbody : Json.expect ']' ('\n' :: (body ++ endText)) = none)
    {changes : List Doc} : Json.parse (batchText body) = some (batchDoc changes) ↔
      ∃ r u, readElements (body.length + 21) (body ++ endText) = some (changes, r) ∧
        readEnd '\x7d' r = some (false, u) ∧ skip u = [] := by
  have hkey : readKey ("\n\t\"Changes\":".toList ++ (' ' :: '[' :: '\n' :: (body ++ endText))) =
      some ("Changes".toList, ' ' :: '[' :: '\n' :: (body ++ endText)) :=
    Json.readKey_word (Text.forall_of_all rfl) rfl
  have hlength : (batchText body).length + 1 = body.length + 24 := by
    unfold batchText
    rw [List.length_cons, List.length_append, List.length_cons, List.length_cons, List.length_cons,
      List.length_append]
    show 12 + (body.length + 7 + 1 + 1 + 1) + 1 + 1 = _
    omega
  have hvalue : ∀ {r : Text}, readValue (body.length + 24) (batchText body) =
      some (batchDoc changes, r) ↔ ∃ u, readElements (body.length + 21) (body ++ endText) =
        some (changes, u) ∧ readEnd '\x7d' u = some (false, r) := by
    intro r
    unfold batchDoc
    rw [Json.object_value_iff (t := "\n\t\"Changes\":".toList ++
      (' ' :: '[' :: '\n' :: (body ++ endText))) rfl rfl, Json.lastMember_iff hkey]
    refine exists_congr fun u => and_congr_left fun _ => ?_
    rw [Json.array_value_iff (t := '\n' :: (body ++ endText)) rfl hbody, readElements_blank rfl]
  unfold Json.parse
  rw [hlength]
  constructor
  · intro h
    obtain ⟨⟨doc, u⟩, hread, hend⟩ := Option.bind_eq_some_iff.mp h
    split at hend
    · rename_i hskip
      cases hend
      obtain ⟨r, helements, hclose⟩ := hvalue.mp hread
      exact ⟨r, u, helements, hclose, hskip⟩
    · cases hend
  · intro ⟨r, u, helements, hclose, hskip⟩
    rw [hvalue.mpr ⟨r, helements, hclose⟩]
    exact if_pos hskip

section File

variable {matching : Text → List Text}

/-- There is an entry at the start of the list. -/
theorem entries_start {ds : List Record} (hne : ds ≠ []) :
    Json.expect ']' ('\n' :: (entries false (written matching ds) ++ endText)) = none := by
  cases ds with
  | nil => exact absurd rfl hne
  | cons d ds =>
    obtain ⟨a, t, h, more, htext⟩ := d.text_entry matching
    have hstart : entries false (written matching (d :: ds)) ++ endText =
        entryText a t h (more ++ (entries true (written matching ds) ++ endText)) := by
      rw [← htext]
      show ([] ++ d.removal.text matching ++ _) ++ endText = _
      rw [List.nil_append, List.append_assoc]
      rfl
    rw [hstart]
    rfl

theorem entries_length (started : Bool) (ds : List Record) :
    ds.length ≤ (entries started (written matching ds)).length := by
  induction ds generalizing started with
  | nil => exact Nat.zero_le _
  | cons d ds ih =>
    obtain ⟨a, t, h, more, htext⟩ := d.text_entry matching
    have hpos : 0 < (d.removal.text matching).length := by
      refine List.length_pos_iff.mpr fun hempty => ?_
      have hnil := htext []
      rw [hempty] at hnil
      cases hnil
    show _ ≤ ((if started then ",\n".toList else []) ++ d.removal.text matching ++
      entries true (written matching ds)).length
    rw [List.length_append, List.length_append, List.length_cons]
    have := ih true
    omega

/-- The file is the list of what its entries are read as. -/
theorem parse_read {f : Record → Doc} {ds : List Record}
    (h : ∀ d ∈ ds, ∀ n tail, readValue (n + 13) (d.removal.text matching ++ tail) =
      some (f d, tail)) :
    Json.parse (batchText (entries false (written matching ds))) = some (batchDoc (ds.map f)) := by
  by_cases hne : ds = []
  · rw [hne]
    exact parse_empty
  · refine (parse_batch (entries_start hne)).mpr ⟨_, ['\n'], elements_read hne h ?_, rfl, rfl⟩
    have hlength := @entries_length matching false ds
    omega

theorem parse_clear (hsame : ∀ w, Expand.wordFiles matching w = [w]) {ds : List Record}
    (h : Json.parse (batchText (entries false (written matching ds))) =
      some (batchDoc (ds.map Record.deletion))) : ∀ d ∈ ds, d.Clear := by
  by_cases hne : ds = []
  · rw [hne]
    exact fun _ hd => absurd hd List.not_mem_nil
  · obtain ⟨r, u, helements, -, -⟩ := (parse_batch (entries_start hne)).mp h
    refine elements_clear hsame ?_ helements
    have hlength := @entries_length matching false ds
    omega

end File

theorem cleanPairs_parse (matching : Text → List Text) (describe : Nat → Text → Outcome)
    (rs : List Record) : (cleanPairs matching describe (rs.map Record.pair)).batch =
      batchText (entries false (written matching (deadFrom describe 0 rs))) :=
  (cleanPairs_file matching describe rs).1

/-- A file for each pattern, with a longer name. -/
def longer (w : Text) : List Text := [w ++ ['x']]

/-- What a word comes to there. -/
def longerWord (w : Text) : Text := if Expand.isPattern w = true then w ++ ['x'] else w

theorem wordFiles_longer (w : Text) : Expand.wordFiles longer w = [longerWord w] := by
  unfold Expand.wordFiles longerWord
  by_cases hpattern : Expand.isPattern w = true
  · rw [if_pos ⟨hpattern, List.cons_ne_nil _ _⟩, if_pos hpattern]
    rfl
  · rw [if_neg fun h => hpattern h.1, if_neg hpattern]

theorem longerWord_plain {w : Text} (h : ∀ c ∈ w, isPlain c = true) :
    ∀ c ∈ longerWord w, isPlain c = true := by
  intro c hc
  unfold longerWord at hc
  split at hc
  · rcases List.mem_append.mp hc with hc | hc
    · exact h c hc
    · rw [List.mem_singleton.mp hc]
      rfl
  · exact h c hc

theorem longerWord_same {w : Text} (h : longerWord w = w) : Expand.isPattern w = false := by
  refine Bool.eq_false_iff.mpr fun hpattern => ?_
  unfold longerWord at h
  rw [if_pos hpattern] at h
  have hlength := congrArg List.length h
  rw [List.length_append] at hlength
  exact Nat.succ_ne_self _ hlength

theorem deleteDoc_inj {a t v b u w : Text} (h : deleteDoc a t v = deleteDoc b u w) :
    a = b ∧ t = u ∧ v = w := by
  simp only [deleteDoc, Doc.object.injEq, Doc.array.injEq, List.cons.injEq, Prod.mk.injEq,
    Doc.string.injEq, Doc.number.injEq, true_and, and_true] at h
  exact h

/-- Where a clear record arrives as it is whatever files there are, its words are no patterns. -/
theorem no_patterns {ds : List Record} (hclear : ∀ d ∈ ds, d.Clear)
    (h : Json.parse (batchText (entries false (written longer ds))) =
      some (batchDoc (ds.map Record.deletion))) : ∀ d ∈ ds,
      Expand.isPattern d.name.text.dropLast = false ∧ Expand.isPattern d.target.text = false := by
  have hread : ∀ d ∈ ds, ∀ n tail, readValue (n + 13) (d.removal.text longer ++ tail) =
      some (deleteDoc (longerWord d.name.text.dropLast) d.ttl.text (longerWord d.target.text),
        tail) := by
    intro d hd n tail
    have hd := hclear d hd
    have hname : ∀ c ∈ d.name.text.dropLast, isPlain c = true := fun c hc =>
      hd.name_plain c (List.mem_of_mem_dropLast hc)
    refine hd.read ?_ ?_ (longerWord_plain hname) (longerWord_plain hd.target_plain) n tail
    · rw [hd.aliasName]
      exact wordFiles_longer _
    · rw [hd.hostname]
      exact wordFiles_longer _
  rw [parse_read hread] at h
  intro d hd
  have hsame := List.map_inj_left.mp (Doc.array.inj (Prod.mk.inj (List.cons.inj
    (Doc.object.inj (Option.some.inj h))).1).2) d hd
  obtain ⟨hname, -, htarget⟩ := deleteDoc_inj hsame
  exact ⟨longerWord_same hname, longerWord_same htarget⟩

/-- **The batch is the dead records exactly when nothing in them has to be escaped or expands.** -/
theorem batch_exact_iff (describe : Nat → Text → Outcome) (rs : List Record) :
    BatchExact describe rs ↔ ∀ d ∈ deadFrom describe 0 rs, d.Plain := by
  constructor
  · intro h
    have hnone : ∀ w, Expand.wordFiles (fun _ => []) w = [w] := fun w =>
      if_neg fun hfiles => hfiles.2 rfl
    have hparse := (h fun _ => []).1
    rw [cleanPairs_parse] at hparse
    have hclear := parse_clear hnone hparse
    have hfiles := (h longer).1
    rw [cleanPairs_parse] at hfiles
    intro d hd
    obtain ⟨hname, htarget⟩ := no_patterns hclear hfiles d hd
    have hd := hclear d hd
    exact ⟨hd.name, hd.name_plain, hd.target_plain, hname, htarget, hd.number⟩
  · intro h matching
    refine ⟨?_, (cleanPairs_file matching describe rs).2⟩
    rw [cleanPairs_parse]
    refine parse_read fun d hd n tail => ?_
    have hplain := h d hd
    have hclear : d.Clear :=
      ⟨hplain.name, hplain.name_plain, hplain.target_plain, hplain.number⟩
    refine hclear.read ?_ ?_ (fun c hc => hplain.name_plain c (List.mem_of_mem_dropLast hc))
      hplain.target_plain n tail
    · rw [hclear.aliasName]
      exact Expand.wordFiles_plain hplain.name_pattern
    · rw [hclear.hostname]
      exact Expand.wordFiles_plain hplain.target_pattern

/-- The wildcard of a domain, as Route 53 lists it. -/
def wildcardRecord : Record where
  name := ⟨"\\052.d.".toList, by decide⟩
  ttl := ⟨"60".toList, by decide⟩
  target := ⟨"ec2-1.aws".toList, by decide⟩
  name_dot := rfl
  ttl_digits := rfl

/-- Its `DELETE` is for another name. -/
theorem wildcard_loses_backslash : ¬ ∀ (describe : Nat → Text → Outcome) (rs : List Record),
    BatchExact describe rs := by
  intro h
  have hparse := (h (fun _ _ => ⟨true, []⟩) [wildcardRecord] fun _ => []).1
  rw [cleanPairs_parse] at hparse
  have hclear := parse_clear (fun w => if_neg fun hfiles => hfiles.2 rfl) hparse wildcardRecord
    (List.mem_singleton_self _)
  exact absurd (hclear.name_plain '\\' (by decide)) (by decide)

end Dns
end TdsAdmin
