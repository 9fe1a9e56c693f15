import TdsAdmin.Dns.Clean

/-!
# What the loop is given

The pipeline in front of the loop puts a record on one line and cuts the line. A value that ends in
`CNAME` takes the next line with it, so the record below it is lost; every other record comes to
the loop, whatever else is in the zone (`pairs_listing`), and `read` takes it apart again
(`record_fields`).
-/

set_option autoImplicit false

namespace TdsAdmin
namespace Dns

open Fields (isIfs awkFields readFields unescape)

/-! ## The lines of a record -/

namespace Record

theorem ttl_last (r : Record) : r.ttl.text.getLast? ≠ some '\\' := by
  intro h
  have hdigit := List.all_eq_true.mp r.ttl_digits _ (List.mem_of_getLast? h)
  exact absurd hdigit (by decide)

theorem name_last (r : Record) : r.name.text.getLast? ≠ some '\\' := by
  rw [r.name_dot]
  decide

theorem nameLine_eq (r : Record) : r.nameLine = "RESOURCERECORDSETS".toList ++ '\t' ::
    (r.name.text ++ '\t' :: (r.ttl.text ++ '\t' :: "CNAME".toList)) := by
  simp [nameLine, tabbed, List.intercalate_cons_cons]

theorem valueLine_eq (r : Record) :
    r.valueLine = "RESOURCERECORDS".toList ++ '\t' :: r.target.text := by
  simp [valueLine, tabbed, List.intercalate_cons_cons]

theorem newline_not_mem (r : Record) : '\n' ∉ r.nameLine ∧ '\n' ∉ r.valueLine := by
  have hname := r.name.not_mem (show Pattern.isSpace '\n' = true from rfl)
  have httl := r.ttl.not_mem (show Pattern.isSpace '\n' = true from rfl)
  have htarget := r.target.not_mem (show Pattern.isSpace '\n' = true from rfl)
  rw [nameLine_eq, valueLine_eq]
  constructor
  · intro h
    simp only [List.mem_append, List.mem_cons] at h
    rcases h with h | h | h | h | h | h | h
    · exact absurd h (by decide)
    · exact absurd h (by decide)
    · exact hname h
    · exact absurd h (by decide)
    · exact httl h
    · exact absurd h (by decide)
    · exact absurd h (by decide)
  · intro h
    simp only [List.mem_append, List.mem_cons] at h
    rcases h with h | h | h
    · exact absurd h (by decide)
    · exact absurd h (by decide)
    · exact htarget h

/-- The two lines of a record become one. -/
theorem join_nameLine (r : Record) : joinCname (r.nameLine ++ ['\n']) = r.nameLine ++ [' '] := by
  -- there is no tab at the end to take away
  have hstrip : r.nameLine.rdropWhile (· == '\t') = r.nameLine := by
    have hlast : r.nameLine = ("RESOURCERECORDSETS".toList ++ '\t' ::
        (r.name.text ++ '\t' :: (r.ttl.text ++ '\t' :: "CNAM".toList))) ++ ['E'] := by
      rw [nameLine_eq]
      simp
    rw [hlast]
    exact List.rdropWhile_concat_neg _ _ _ (by decide)
  have hsuffix : "CNAME".toList <:+ r.nameLine := by
    rw [nameLine_eq]
    exact ⟨"RESOURCERECORDSETS".toList ++ '\t' :: (r.name.text ++ '\t' :: (r.ttl.text ++ ['\t'])),
      by simp⟩
  rw [joinCname, Text.chomp_append, hstrip, if_pos ⟨by simp, hsuffix⟩]

/-- The value ends like the line that the next one is joined to. -/
def opens (r : Record) : Bool := "CNAME".toList.isSuffixOf r.target.text

theorem join_valueLine (r : Record) :
    joinCname (r.valueLine ++ ['\n']) = r.valueLine ++ [if r.opens then ' ' else '\n'] := by
  have hstrip : r.valueLine.rdropWhile (· == '\t') = r.valueLine := by
    refine List.rdropWhile_eq_self_iff.mpr fun hne htab => ?_
    have hlast : r.valueLine.getLast hne ∈ r.target.text := by
      simp only [valueLine_eq, List.getLast_append_of_ne_nil, ne_eq, reduceCtorEq,
        not_false_eq_true, List.getLast_cons r.target.ne_nil]
      exact List.getLast_mem _
    rw [beq_iff_eq.mp htab] at hlast
    exact r.target.not_mem (show Pattern.isSpace '\t' = true from rfl) hlast
  have hsuffix : "CNAME".toList <:+ r.valueLine ↔ r.opens = true := by
    rw [opens, List.isSuffixOf_iff_suffix, valueLine_eq]
    constructor
    · intro h
      rcases List.suffix_or_suffix_of_suffix h (List.suffix_append _ _) with h | h
      · rcases List.suffix_cons_iff.mp h with h | h
        · exact absurd (h ▸ List.mem_cons_self : '\t' ∈ "CNAME".toList) (by decide)
        · exact h
      · exact absurd (h.subset List.mem_cons_self : '\t' ∈ "CNAME".toList) (by decide)
    · intro h
      exact (h.trans (List.suffix_cons _ _)).trans (List.suffix_append _ _)
  have hlast : (r.valueLine ++ ['\n']).getLast? = some '\n' := by simp
  rw [joinCname, Text.chomp_append, hstrip]
  simp only [hsuffix, hlast, true_and]
  split <;> rfl

theorem word_not_ifs {w : Text} (h : w.all (!isIfs ·) = true) : ∀ c ∈ w, isIfs c = false := by
  intro c hc
  simpa using List.all_eq_true.mp h c hc

/-- The fields of the two lines together. -/
theorem awkFields_joined (r : Record) : awkFields (r.nameLine ++ ' ' :: r.valueLine) =
    ["RESOURCERECORDSETS".toList, r.name.text, r.ttl.text, "CNAME".toList,
      "RESOURCERECORDS".toList, r.target.text] := by
  have hsplit : ∀ {fields : List Text}, fields ≠ [] → (∀ f ∈ fields, ∀ c ∈ f, isIfs c = false) →
      (tabbed fields).splitOnP isIfs = fields := fun hne h => Fields.splitOnP_intercalate rfl hne h
  have hname := r.name.not_ifs
  have httl := r.ttl.not_ifs
  have htarget := r.target.not_ifs
  rw [awkFields, List.splitOnP_append_cons _ _ rfl, nameLine, valueLine, hsplit (by simp),
    hsplit (by simp)]
  · simp [r.name.ne_nil, r.ttl.ne_nil, r.target.ne_nil]
  · intro f hf
    simp only [List.mem_cons, List.not_mem_nil, or_false] at hf
    rcases hf with rfl | rfl
    · exact word_not_ifs (by decide)
    · exact htarget
  · intro f hf
    simp only [List.mem_cons, List.not_mem_nil, or_false] at hf
    rcases hf with rfl | rfl | rfl | rfl
    · exact word_not_ifs (by decide)
    · exact hname
    · exact httl
    · exact word_not_ifs (by decide)

theorem joined_has (r : Record) :
    Text.has "CNAME RESOURCERECORDS".toList (r.nameLine ++ ' ' :: r.valueLine) = true := by
  rw [Text.has_iff, nameLine_eq, valueLine_eq]
  exact ⟨"RESOURCERECORDSETS".toList ++ '\t' :: (r.name.text ++ '\t' :: (r.ttl.text ++ ['\t'])),
    '\t' :: r.target.text, by simp⟩

end Record

/-- A `CNAME` that is an alias is joined to what it is an alias of. -/
theorem join_aliasLine (name : Fields.Token) :
    joinCname (aliasLine name ++ ['\n']) = aliasLine name ++ [' '] := by
  have heq : aliasLine name = ("RESOURCERECORDSETS".toList ++ '\t' ::
      (name.text ++ '\t' :: "CNAM".toList)) ++ ['E'] := by
    simp [aliasLine, tabbed, List.intercalate_cons_cons]
  have hstrip : (aliasLine name).rdropWhile (· == '\t') = aliasLine name := by
    rw [heq]
    exact List.rdropWhile_concat_neg _ _ _ (by decide)
  have hsuffix : "CNAME".toList <:+ aliasLine name :=
    ⟨"RESOURCERECORDSETS".toList ++ '\t' :: (name.text ++ ['\t']), by simp [heq]⟩
  rw [joinCname, Text.chomp_append, hstrip, if_pos ⟨by simp, hsuffix⟩]

theorem join_other {line : Text} (h : OtherLine line) :
    joinCname (line ++ ['\n']) = line ++ ['\n'] := by
  rw [joinCname, Text.chomp_append, if_neg fun hjoin => h.2.1 hjoin.2]

theorem aliasLine_clean (name : Fields.Token) : '\n' ∉ aliasLine name ∧ ' ' ∉ aliasLine name := by
  have hnewline := name.not_mem (show Pattern.isSpace '\n' = true from rfl)
  have hblank := name.not_mem (show Pattern.isSpace ' ' = true from rfl)
  have hparts : ∀ c, c ∉ "RESOURCERECORDSETS\tCNAME".toList → c ∉ name.text →
      c ∉ aliasLine name := by
    intro c hwords hname hc
    simp only [aliasLine, tabbed, List.intercalate_cons_cons, List.intercalate_singleton,
      List.mem_append, List.mem_singleton, or_assoc] at hc
    rcases hc with hc | rfl | hc | rfl | hc
    · exact hwords (List.mem_append_left "\tCNAME".toList hc)
    · exact hwords (by decide)
    · exact hname hc
    · exact hwords (by decide)
    · exact hwords (List.mem_append_right "RESOURCERECORDSETS\t".toList hc)
  exact ⟨hparts '\n' (by decide) hnewline, hparts ' ' (by decide) hblank⟩

/-! ## The pipeline -/

/-- What `grep` and `awk` make of a text. -/
def printed (text : Text) : List Text :=
  (((Text.lines text).map Text.chomp).filter (Text.has "CNAME RESOURCERECORDS".toList)).map awkPrint

theorem printed_line {line : Text} (h : '\n' ∉ line) (rest : Text) :
    printed (line ++ '\n' :: rest) =
      (if Text.has "CNAME RESOURCERECORDS".toList line then [awkPrint line] else []) ++
        printed rest := by
  unfold printed
  rw [Text.lines_line h, List.map_cons, Text.chomp_append, List.filter_cons]
  split <;> rfl

/-- A line that has a record at its start, and maybe the lines below. -/
structure Starts (line : Text) (r : Record) : Prop where
  newline : '\n' ∉ line
  has : Text.has "CNAME RESOURCERECORDS".toList line = true
  fields : ∃ more, awkFields line = ["RESOURCERECORDSETS".toList, r.name.text, r.ttl.text,
    "CNAME".toList, "RESOURCERECORDS".toList, r.target.text] ++ more

namespace Starts

variable {line : Text} {r : Record}

theorem own (r : Record) : Starts (r.nameLine ++ ' ' :: r.valueLine) r where
  newline := by
    intro h
    rcases List.mem_append.mp h with h | h
    · exact r.newline_not_mem.1 h
    · rcases List.mem_cons.mp h with h | h
      · exact absurd h (by decide)
      · exact r.newline_not_mem.2 h
  has := r.joined_has
  fields := ⟨[], r.awkFields_joined⟩

theorem append (h : Starts line r) {more : Text} (hmore : '\n' ∉ more) :
    Starts (line ++ ' ' :: more) r where
  newline := by
    simp only [List.mem_append, List.mem_cons, not_or]
    exact ⟨h.newline, by decide, hmore⟩
  has := Text.has_iff.mpr ((Text.has_iff.mp h.has).trans (List.infix_append' [] line _))
  fields := by
    obtain ⟨rest, hrest⟩ := h.fields
    exact ⟨rest ++ awkFields more, by rw [Expand.awkFields_append rfl, hrest, List.append_assoc]⟩

theorem print (h : Starts line r) : awkPrint line = r.pair := by
  obtain ⟨rest, hrest⟩ := h.fields
  rw [awkPrint, hrest]
  rfl

theorem printed_cons (h : Starts line r) (rest : Text) :
    printed (line ++ '\n' :: rest) = r.pair :: printed rest := by
  rw [printed_line h.newline, if_pos h.has, h.print]
  rfl

/-- The last line need not end. -/
theorem printed_end (h : Starts line r) : printed (line ++ [' ']) = [r.pair] := by
  have hstart : Starts (line ++ ' ' :: []) r := h.append List.not_mem_nil
  have hchomp : Text.chomp (line ++ [' ']) = line ++ [' '] := by
    simp [Text.chomp]
  rw [printed, Text.lines_last hstart.newline (by simp), List.map_singleton, hchomp,
    List.filter_cons_of_pos hstart.has, List.filter_nil, List.map_singleton, hstart.print]

end Starts

/-- The listing with its lines joined. -/
def joined (zone : List Listed) : Text :=
  (((zone.flatMap Listed.lines).map (· ++ ['\n'])).map joinCname).flatten

theorem joined_cons (l : Listed) (zone : List Listed) :
    joined (l :: zone) = ((l.lines.map (· ++ ['\n'])).map joinCname).flatten ++ joined zone := by
  simp [joined]

theorem joined_cname (r : ListedRecord) (zone : List Listed) : joined (.cname r :: zone) =
    (r.nameLine ++ ' ' :: r.valueLine) ++ (if r.opens then ' ' else '\n') :: joined zone := by
  rw [joined_cons, Listed.lines, List.map_cons, List.map_cons, List.map_singleton,
    List.map_singleton, r.join_nameLine, r.join_valueLine]
  simp

theorem joined_aliased {name : Fields.Token} {target : Text} {h} (zone : List Listed) :
    joined (.aliased name target h :: zone) =
      (aliasLine name ++ ' ' :: target) ++ '\n' :: joined zone := by
  rw [joined_cons, Listed.lines, List.map_cons, List.map_cons, List.map_singleton,
    List.map_singleton, join_aliasLine, join_other h.1]
  simp

theorem joined_other {line : Text} {h : OtherLine line} (zone : List Listed) :
    joined (.other line h :: zone) = line ++ '\n' :: joined zone := by
  rw [joined_cons, Listed.lines, List.map_singleton, List.map_singleton, join_other h]
  simp

theorem aliased_newline (name : Fields.Token) {target : Text} (h : OtherLine target) :
    '\n' ∉ aliasLine name ++ ' ' :: target := by
  simp only [List.mem_append, List.mem_cons, not_or]
  exact ⟨(aliasLine_clean name).1, by decide, h.1⟩

/-- An alias has no value for `grep` to find. -/
theorem aliased_not_has {name : Fields.Token} {target : Text}
    (h : OtherLine target ∧ ¬ "RESOURCERECORDS".toList <+: target) :
    Text.has "CNAME RESOURCERECORDS".toList (aliasLine name ++ ' ' :: target) = false := by
  rw [Text.has_eq_false]
  rintro ⟨before, behind, heq⟩
  have hcut : before ++ "CNAME".toList ++ ' ' :: ("RESOURCERECORDS".toList ++ behind) =
      aliasLine name ++ ' ' :: target := by
    rw [← heq]
    simp
  by_cases hblank : ' ' ∈ before
  · obtain ⟨first, rest, rfl, hfirst⟩ := List.eq_append_cons_of_mem hblank
    rw [List.append_assoc, List.append_assoc, List.cons_append] at hcut
    obtain ⟨-, htarget⟩ := Text.cut_inj hfirst (aliasLine_clean name).2 hcut
    exact h.1.2.2 ⟨rest, behind, by rw [← htarget]; simp⟩
  · have hnone : ' ' ∉ before ++ "CNAME".toList := by
      simp only [List.mem_append, not_or]
      exact ⟨hblank, by decide⟩
    exact h.2 ⟨behind, (Text.cut_inj hnone (aliasLine_clean name).2 hcut).2⟩

/-- The records that come out of the pipeline; one below a value that ends in `CNAME` does not. -/
def reachedFrom : Bool → List Listed → List ListedRecord
  | _, [] => []
  | behind, .cname record :: zone =>
      (if behind then [] else [record]) ++ reachedFrom record.opens zone
  | _, .aliased _ _ _ :: zone => reachedFrom false zone
  | _, .other _ _ :: zone => reachedFrom false zone

/-- The records that EC2 is asked about. -/
def reached (zone : List Listed) : List ListedRecord :=
  (reachedFrom false zone).filter fun r => Text.has "ec2-".toList r.pair

theorem printed_joined (zone : List Listed) :
    printed (joined zone) = (reachedFrom false zone).map (·.pair) ∧
      ∀ {line : Text} {r : Record}, Starts line r →
        printed (line ++ ' ' :: joined zone) = r.pair :: (reachedFrom true zone).map (·.pair) := by
  induction zone with
  | nil => exact ⟨rfl, fun h => h.printed_end⟩
  | cons l zone ih =>
    obtain ⟨hclosed, hopen⟩ := ih
    cases l with
    | cname record =>
      have hown := Starts.own record.toRecord
      rw [joined_cname]
      cases hopens : record.opens with
      | true =>
        refine ⟨?_, fun {line r} h => ?_⟩
        · rw [reachedFrom, hopens]
          exact hopen hown
        · have hnext := hopen (h.append hown.newline)
          rw [List.append_assoc] at hnext
          rw [reachedFrom, hopens]
          exact hnext
      | false =>
        refine ⟨?_, fun {line r} h => ?_⟩
        · rw [reachedFrom, hopens, if_neg Bool.false_ne_true, hown.printed_cons, hclosed]
          rfl
        · have hnext := (h.append hown.newline).printed_cons (joined zone)
          rw [List.append_assoc, hclosed] at hnext
          rw [reachedFrom, hopens]
          exact hnext
    | aliased name target isTarget =>
      have hnewline := aliased_newline name isTarget.1
      rw [joined_aliased]
      refine ⟨?_, fun {line r} h => ?_⟩
      · rw [printed_line hnewline, aliased_not_has isTarget, hclosed]
        rfl
      · have hnext := (h.append hnewline).printed_cons (joined zone)
        rw [List.append_assoc, hclosed] at hnext
        exact hnext
    | other line isOther =>
      rw [joined_other]
      refine ⟨?_, fun {start r} h => ?_⟩
      · rw [printed_line isOther.1, if_neg (by rw [Text.has_iff]; exact isOther.2.2), hclosed]
        rfl
      · have hnext := (h.append isOther.1).printed_cons (joined zone)
        rw [List.append_assoc, hclosed] at hnext
        exact hnext

theorem listed_newline {l : Listed} : ∀ line ∈ l.lines, '\n' ∉ line := by
  intro line hline
  cases l with
  | cname record =>
    rcases List.mem_cons.mp hline with rfl | hline
    · exact record.newline_not_mem.1
    · rw [List.mem_singleton.mp hline]
      exact record.newline_not_mem.2
  | aliased name target isTarget =>
    rcases List.mem_cons.mp hline with rfl | hline
    · exact (aliasLine_clean name).1
    · rw [List.mem_singleton.mp hline]
      exact isTarget.1.1
  | other text isOther =>
    rw [List.mem_singleton.mp hline]
    exact isOther.1

theorem lines_listing (zone : List Listed) :
    Text.lines (listingText zone) = (zone.flatMap Listed.lines).map (· ++ ['\n']) := by
  refine Text.lines_unlines fun line hline => ?_
  obtain ⟨l, -, hline⟩ := List.mem_flatMap.mp hline
  exact listed_newline line hline

/-- **The loop gets the records of the zone, but for those below a value that ends in `CNAME`.** -/
theorem pairs_listing (zone : List Listed) :
    pairs (listingText zone) = (reached zone).map (·.pair) := by
  have hprinted := (printed_joined zone).1
  rw [printed, joined] at hprinted
  rw [pairs, lines_listing, hprinted, reached, List.filter_map]
  rfl

/-- `read` takes a pair apart; of a name in Route 53's escaped form it drops the backslashes. -/
theorem record_fields (r : Record) :
    readFields 3 r.pair = [unescape r.name.text, unescape r.ttl.text, unescape r.target.text] :=
  Fields.readFields_three r.name.not_ifs r.ttl.not_ifs r.target.not_ifs r.name.ne_nil r.ttl.ne_nil
    r.target.ne_nil r.name_last r.ttl_last

end Dns
end TdsAdmin
